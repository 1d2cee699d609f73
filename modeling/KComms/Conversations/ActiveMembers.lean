import KComms.Conversations.SharedOwners

/-!
# The members of a shared conversation under its commands

Whoever is a member stays one, unless the command ends just this membership.
-/

namespace KComms.Conversations

open Attempt
open KComms.Rooms (MembershipRole)

def ActiveMember (scope : SharedConversation) (userId : String) : Prop :=
  ∃ membership ∈ scope.memberships.rows, membership.userId = userId ∧ membership.active = true

/-- The command ends the membership of this user. -/
def MembershipStep.Ends (step : MembershipStep) (userId : String) : Prop :=
  (∃ expectedVersion, step.command = .remove userId expectedVersion) ∨
    ∃ expectedVersion, step.command = .leave expectedVersion ∧ step.subject = userId

variable {scope scope' : SharedConversation} {facts : MembershipFacts} {subject userId other : String}
  {role : MembershipRole}

theorem activeMember_of_update {change : Membership → Membership}
    {keeps : ∀ membership, (change membership).userId = membership.userId}
    (hrows : scope'.memberships = scope.memberships.update other change keeps)
    (hchange : ∀ membership, membership.active = true → (change membership).active = true)
    (hactive : ActiveMember scope userId) : ActiveMember scope' userId := by
  obtain ⟨membership, hmem, huser, hmember⟩ := hactive
  obtain ⟨membership', hmem', hsame⟩ := KeyedTable.exists_mem_update other change keeps hmem
  rw [← hrows] at hmem'
  rcases hsame with rfl | rfl
  · exact ⟨membership', hmem', huser, hmember⟩
  · exact ⟨change membership, hmem', (keeps membership).trans huser, hchange membership hmember⟩

/-- Another user's membership. -/
theorem activeMember_of_other {change : Membership → Membership}
    {keeps : ∀ membership, (change membership).userId = membership.userId} (hother : userId ≠ other)
    (hrows : scope'.memberships = scope.memberships.update other change keeps) (hactive : ActiveMember scope userId) :
    ActiveMember scope' userId := by
  obtain ⟨membership, hmem, rfl, hmember⟩ := hactive
  refine ⟨membership, ?_, rfl, hmember⟩
  rw [hrows]
  exact KeyedTable.mem_update_of_ne hmem hother

theorem activeMember_of_insert {membership : Membership} {memberships : KeyedTable Membership.userId}
    (hinsert : scope.memberships.insert membership = some memberships) (hactive : ActiveMember scope userId)
    (hrows : scope'.memberships = memberships) : ActiveMember scope' userId := by
  obtain ⟨row, hrow, huser, hmember⟩ := hactive
  refine ⟨row, ?_, huser, hmember⟩
  rw [hrows]
  exact (KeyedTable.mem_insert hinsert).mpr (.inr hrow)

/-! ### The commands -/

variable {membershipId : String} {expectedVersion : Nat}

theorem activeMember_add (h : (add facts subject membershipId other role scope).Commits scope')
    (hactive : ActiveMember scope userId) : ActiveMember scope' userId := by
  simp only [add, commits_bind, commits_check] at h
  obtain ⟨-, -, -, -, h⟩ := h
  unfold addMember at h
  split at h
  · simp only [commits_bind, commits_pure] at h
    obtain ⟨_, -, added, hadded, rfl⟩ := h
    obtain ⟨memberships, hinsert, rfl⟩ := admitNew_commits hadded
    exact activeMember_of_insert hinsert hactive rfl
  · split at h
    · simp only [commits_bind, commits_check, commits_pure] at h
      obtain ⟨-, -, -, -, rfl⟩ := h
      exact hactive
    · simp only [commits_bind, commits_pure] at h
      obtain ⟨_, -, added, hadded, rfl⟩ := h
      have hrows := readmit_commits hadded
      exact activeMember_of_update hrows (fun _ _ => rfl) hactive

theorem activeMember_join (h : (join facts subject membershipId scope).Commits scope')
    (hactive : ActiveMember scope userId) : ActiveMember scope' userId := by
  simp only [join, commits_bind, commits_check] at h
  obtain ⟨-, -, -, -, -, -, -, -, h⟩ := h
  unfold joinMember at h
  split at h
  · simp only [commits_bind, commits_pure] at h
    obtain ⟨joined, hjoined, rfl⟩ := h
    obtain ⟨memberships, hinsert, rfl⟩ := admitNew_commits hjoined
    exact activeMember_of_insert hinsert hactive rfl
  · split at h
    · rw [commits_pure] at h
      rw [← h]
      exact hactive
    · simp only [commits_bind, commits_pure] at h
      obtain ⟨joined, hjoined, rfl⟩ := h
      have hrows := readmit_commits hjoined
      exact activeMember_of_update hrows (fun _ _ => rfl) hactive

theorem activeMember_remove (h : (remove facts subject other expectedVersion scope).Commits scope')
    (hactive : ActiveMember scope userId) (hother : userId ≠ other) : ActiveMember scope' userId := by
  simp only [remove, commits_bind] at h
  obtain ⟨-, -, membership, -, -, -, -, -, -, -, hdeparted⟩ := h
  exact activeMember_of_other hother (depart_commits hdeparted) hactive

theorem activeMember_changeRole (h : (changeRole facts subject other role expectedVersion scope).Commits scope')
    (hactive : ActiveMember scope userId) : ActiveMember scope' userId := by
  simp only [changeRole, commits_bind] at h
  obtain ⟨-, -, membership, -, -, -, -, -, h⟩ := h
  have hrows : scope'.memberships = scope.memberships.update other (Membership.changeRole role)
      (Membership.changeRole_userId role) := by
    split at h
    · simp only [commits_bind, commits_pure] at h
      obtain ⟨-, -, rfl⟩ := h
      rfl
    · simp only [commits_pure] at h
      obtain ⟨-, -, rfl⟩ := h
      rfl
  exact activeMember_of_update hrows (fun membership hmember => (membership.changeRole_active role).trans hmember) hactive

theorem activeMember_leave (h : (leave facts subject expectedVersion scope).Commits scope')
    (hactive : ActiveMember scope userId) (hother : userId ≠ subject) : ActiveMember scope' userId := by
  simp only [leave, commits_bind] at h
  obtain ⟨-, -, -, -, -, -, h⟩ := h
  unfold leaveMember at h
  split at h
  · exact absurd h (commits_rollback _ _)
  · split at h
    · simp only [commits_bind] at h
      obtain ⟨-, -, -, -, hdeparted⟩ := h
      exact activeMember_of_other hother (depart_commits hdeparted) hactive
    · rw [commits_pure] at h
      rw [← h]
      exact hactive

/-- A member stays one, unless the command ends this membership. -/
theorem activeMember_kept {step : MembershipStep} (h : (step.transaction scope).Commits scope')
    (hactive : ActiveMember scope userId) (hends : ¬ step.Ends userId) : ActiveMember scope' userId := by
  unfold MembershipStep.transaction at h
  split at h
  · exact activeMember_add h hactive
  · rename_i removed expectedVersion hcommand
    refine activeMember_remove h hactive fun hsame => hends (.inl ⟨expectedVersion, ?_⟩)
    rw [hsame]
    exact hcommand
  · exact activeMember_changeRole h hactive
  · exact activeMember_join h hactive
  · rename_i expectedVersion hcommand
    exact activeMember_leave h hactive fun hsame => hends (.inr ⟨expectedVersion, hcommand, hsame.symm⟩)

end KComms.Conversations
