import KComms.Conversations.SharedOwners
import Mathlib.Logic.Function.Basic

/-!
# What the membership events tell

Every command on the memberships of a conversation appends the events that tell what it has done.  Whoever knows the
members and their roles at one moment, and follows the events from then on (`tell`), knows them at every later moment.
-/

namespace KComms.Conversations

open Attempt
open KComms.Rooms (MembershipRole)

/-- The roles of the active members. -/
def rolesOf (memberships : KeyedTable Membership.userId) (userId : String) : Option MembershipRole :=
  ((memberships.find userId).filter Membership.active).map Membership.role

/-- The roles as one event changes them. -/
def tell (roles : String → Option MembershipRole) (event : MembershipEvent) : String → Option MembershipRole :=
  Function.update roles event.userId (if event.action = some "removed" then none else some event.role)

/-- The events that were appended tell what has become of the roles. -/
def Told (scope scope' : SharedConversation) : Prop :=
  ∃ events, scope'.events = scope.events ++ events ∧
    events.foldl tell (rolesOf scope.memberships) = rolesOf scope'.memberships

variable {scope scope' : SharedConversation} {facts : MembershipFacts} {subject userId : String} {role : MembershipRole}
  {membership : Membership} {expectedVersion : Nat} {event : MembershipEvent} {membershipId : String}

theorem Told.refl (scope : SharedConversation) : Told scope scope := ⟨[], (List.append_nil _).symm, rfl⟩

theorem Told.trans {scope'' : SharedConversation} (h : Told scope scope') (h' : Told scope' scope'') : Told scope scope'' := by
  obtain ⟨events, hevents, hroles⟩ := h
  obtain ⟨events', hevents', hroles'⟩ := h'
  refine ⟨events ++ events', ?_, ?_⟩
  · rw [hevents', hevents, List.append_assoc]
  · rw [List.foldl_append, hroles, hroles']

/-! ### One row -/

theorem rolesOf_update {memberships : KeyedTable Membership.userId} {change : Membership → Membership}
    {keeps : ∀ membership, (change membership).userId = membership.userId}
    (hfind : memberships.find userId = some membership) :
    rolesOf (memberships.update userId change keeps) =
      Function.update (rolesOf memberships) userId
        (if (change membership).active then some (change membership).role else none) := by
  funext other
  by_cases hother : other = userId
  · subst hother
    rw [Function.update_self, rolesOf, KeyedTable.find_update_self hfind, Option.filter_some]
    cases (change membership).active <;> rfl
  · rw [Function.update_of_ne hother, rolesOf, rolesOf, KeyedTable.find_update_of_ne hother]

theorem rolesOf_insert {memberships memberships' : KeyedTable Membership.userId}
    (hinsert : memberships.insert membership = some memberships') (hactive : membership.active = true) :
    rolesOf memberships' = Function.update (rolesOf memberships) membership.userId (some membership.role) := by
  funext other
  by_cases hother : other = membership.userId
  · subst hother
    rw [Function.update_self, rolesOf, KeyedTable.find_insert_self hinsert, Option.filter_some, if_pos hactive]
    rfl
  · rw [Function.update_of_ne hother, rolesOf, rolesOf, KeyedTable.find_insert_of_ne hinsert hother]

/-- A row that changes, with the event that tells it. -/
theorem Told.of_update {change : Membership → Membership}
    {keeps : ∀ membership, (change membership).userId = membership.userId}
    (hfind : scope.memberships.find userId = some membership)
    (hrows : scope'.memberships = scope.memberships.update userId change keeps)
    (hevents : scope'.events = scope.events ++ [event]) (huser : event.userId = userId)
    (hevent : (if event.action = some "removed" then none else some event.role) =
      if (change membership).active then some (change membership).role else none) : Told scope scope' := by
  refine ⟨[event], hevents, ?_⟩
  rw [List.foldl_cons, List.foldl_nil, tell, huser, hevent, hrows, rolesOf_update hfind]

/-- A new row, with the event that tells it. -/
theorem Told.of_admitted (h : (admitNew facts membershipId userId role scope).Commits scope')
    (huser : event.userId = userId) (haction : event.action = some "added")
    (hrole : event.role = role) : Told scope (scope'.record event) := by
  obtain ⟨memberships, hinsert, rfl⟩ := admitNew_commits h
  refine ⟨[event], rfl, ?_⟩
  rw [List.foldl_cons, List.foldl_nil, tell, huser, haction, hrole, if_neg (by decide)]
  exact (rolesOf_insert hinsert rfl).symm

/-- A member who comes back, with the event that tells it. -/
theorem Told.of_readmitted (hfind : scope.memberships.find userId = some membership)
    (h : ( readmit facts userId role scope).Commits scope') (huser : event.userId = userId)
    (haction : event.action = some "added") (hrole : event.role = role) : Told scope (scope'.record event) := by
  have hrows := readmit_commits h
  have hevents : scope'.events = scope.events := by
    simp only [ readmit, commits_bind, commits_pure] at h
    obtain ⟨-, -, rfl⟩ := h
    rfl
  refine Told.of_update hfind hrows (congrArg (· ++ [event]) hevents) huser ?_
  rw [haction, hrole, if_neg (by decide)]
  rfl

/-- A member who leaves. -/
theorem Told.of_departed (hfind : scope.memberships.find userId = some membership)
    (h : (depart facts userId event scope).Commits scope') (huser : event.userId = userId)
    (haction : event.action = some "removed") : Told scope scope' := by
  have hrows := depart_commits h
  have hevents : scope'.events = scope.events ++ [event] := by
    simp only [depart, commits_bind, commits_check, commits_pure] at h
    obtain ⟨-, -, rfl⟩ := h
    rfl
  refine Told.of_update hfind hrows hevents huser ?_
  rw [haction, if_pos rfl]
  rfl

/-! ### The commands -/

theorem told_add (h : (add facts subject membershipId userId role scope).Commits scope') :
    Told scope scope' := by
  simp only [add, commits_bind, commits_check] at h
  obtain ⟨-, -, -, -, h⟩ := h
  unfold addMember at h
  split at h
  · simp only [commits_bind, commits_pure] at h
    obtain ⟨-, -, added, hadded, rfl⟩ := h
    exact Told.of_admitted hadded rfl rfl rfl
  · rename_i membership hfind
    split at h
    · simp only [commits_bind, commits_check, commits_pure] at h
      obtain ⟨-, -, -, -, rfl⟩ := h
      exact Told.refl scope
    · simp only [commits_bind, commits_pure] at h
      obtain ⟨-, -, added, hadded, rfl⟩ := h
      exact Told.of_readmitted hfind hadded rfl rfl rfl

theorem told_remove (h : (remove facts subject userId expectedVersion scope).Commits scope') : Told scope scope' := by
  simp only [remove, commits_bind] at h
  obtain ⟨-, -, membership, hmember, -, -, -, -, -, -, hdeparted⟩ := h
  exact Told.of_departed (lockedMember_commits hmember).1 hdeparted rfl rfl

theorem told_changeRole (h : (changeRole facts subject userId role expectedVersion scope).Commits scope') :
    Told scope scope' := by
  simp only [changeRole, commits_bind] at h
  obtain ⟨-, -, membership, hmember, -, -, -, -, h⟩ := h
  obtain ⟨hfind, hactive⟩ := lockedMember_commits hmember
  have hwritten : scope'.memberships = scope.memberships.update userId (Membership.changeRole role)
      (Membership.changeRole_userId role) ∧ scope'.events = scope.events ++ [roleChangedEvent subject membership role] := by
    split at h
    · simp only [commits_bind, commits_pure] at h
      obtain ⟨-, -, rfl⟩ := h
      exact ⟨rfl, rfl⟩
    · simp only [commits_pure] at h
      obtain ⟨-, -, rfl⟩ := h
      exact ⟨rfl, rfl⟩
  have hstill : (membership.changeRole role).active = true := (membership.changeRole_active role).trans hactive
  refine Told.of_update hfind hwritten.1 hwritten.2 (KeyedTable.find_eq_some.mp hfind).2 ?_
  rw [hstill, if_pos rfl, Membership.changeRole_role]
  exact if_neg (by rintro ⟨⟩)

theorem told_join (h : (join facts subject membershipId scope).Commits scope') :
    Told scope scope' := by
  simp only [join, commits_bind, commits_check] at h
  obtain ⟨-, -, -, -, -, -, -, -, h⟩ := h
  unfold joinMember at h
  split at h
  · simp only [commits_bind, commits_pure] at h
    obtain ⟨joined, hjoined, rfl⟩ := h
    exact Told.of_admitted hjoined rfl rfl rfl
  · rename_i membership hfind
    split at h
    · rw [commits_pure] at h
      rw [← h]
      exact Told.refl scope
    · simp only [commits_bind, commits_pure] at h
      obtain ⟨joined, hjoined, rfl⟩ := h
      exact Told.of_readmitted hfind hjoined rfl rfl rfl

theorem told_leave (h : (leave facts subject expectedVersion scope).Commits scope') : Told scope scope' := by
  simp only [leave, commits_bind] at h
  obtain ⟨-, -, -, -, -, -, h⟩ := h
  unfold leaveMember at h
  split at h
  · exact absurd h (commits_rollback _ _)
  · rename_i membership hfind
    split at h
    · simp only [commits_bind] at h
      obtain ⟨-, -, -, -, hdeparted⟩ := h
      exact Told.of_departed hfind hdeparted rfl rfl
    · rw [commits_pure] at h
      rw [← h]
      exact Told.refl scope

theorem told_execute {step : MembershipStep} (hexecute : step.execute scope = some scope') : Told scope scope' := by
  have hcommits : (step.transaction scope).Commits scope' := toOption_eq_some.mp hexecute
  unfold MembershipStep.transaction at hcommits
  split at hcommits
  · exact told_add hcommits
  · exact told_remove hcommits
  · exact told_changeRole hcommits
  · exact told_join hcommits
  · exact told_leave hcommits

/-- In every interleaving of commands, the events of the committed ones tell the members and their roles. -/
theorem membership_events_tell {Process : Type} [DecidableEq Process] (first : SharedConversation)
    (actions : List (LockAction Process MembershipStep)) :
    Told first (runCommands (RowLock.next MembershipStep.execute) (RowLock.start first) actions).data := by
  refine RowLock.data_kept (fun data step data' htold hexecute => htold.trans (told_execute hexecute)) ?_ (Told.refl first) actions
  exact (RowLock.serial_run MembershipStep.execute first ([] : List (LockAction Process MembershipStep))).held

end KComms.Conversations
