import KComms.Conversations.Memberships
import KComms.Lib.RowLock

/-!
# The owners of a shared conversation

What one command on the memberships of a conversation may do (`MembershipLaw`): it leaves an owner, it changes owners
only for those who may, and it does nothing for a version that is outdated.  This holds for all commands in any
interleaving.
-/

namespace KComms.Conversations

open Attempt
open KComms.Accounts (Role)
open KComms.Rooms (MembershipRole)

inductive MembershipCommand
  | add (membershipId userId : String) (role : MembershipRole)
  | remove (userId : String) (expectedVersion : Nat)
  | changeRole (userId : String) (role : MembershipRole) (expectedVersion : Nat)
  | join (membershipId : String)
  | leave (expectedVersion : Nat)
  deriving DecidableEq, Repr

structure MembershipStep where
  subject : String
  facts : MembershipFacts
  command : MembershipCommand

def MembershipStep.transaction (step : MembershipStep) (scope : SharedConversation) :
    MembershipTransaction SharedConversation :=
  match step.command with
  | .add membershipId userId role => add step.facts step.subject membershipId userId role scope
  | .remove userId expectedVersion => remove step.facts step.subject userId expectedVersion scope
  | .changeRole userId role expectedVersion => changeRole step.facts step.subject userId role expectedVersion scope
  | .join membershipId => join step.facts step.subject membershipId scope
  | .leave expectedVersion => leave step.facts step.subject expectedVersion scope

def MembershipStep.execute (step : MembershipStep) (scope : SharedConversation) : Option SharedConversation :=
  (step.transaction scope).outcome.toOption

/-- The user whose membership the command is about. -/
def MembershipStep.target (step : MembershipStep) : String :=
  match step.command with
  | .add _ userId _ => userId
  | .remove userId _ => userId
  | .changeRole userId _ _ => userId
  | .join _ => step.subject
  | .leave _ => step.subject

def MembershipCommand.expectedVersion : MembershipCommand → Option Nat
  | .remove _ expectedVersion => some expectedVersion
  | .changeRole _ _ expectedVersion => some expectedVersion
  | .leave expectedVersion => some expectedVersion
  | .add _ _ _ => none
  | .join _ => none

def ActiveOwner (scope : SharedConversation) (userId : String) : Prop :=
  ∃ membership ∈ scope.memberships.rows, membership.userId = userId ∧ membership.role = .owner ∧
    membership.active = true

def HasOwner (scope : SharedConversation) : Prop := ∃ userId, ActiveOwner scope userId

/-- Who may change that a user is an owner: an owner, the user who leaves, and those who manage the channels of the
tenant. -/
def Requested (step : MembershipStep) (scope : SharedConversation) (userId : String) : Prop :=
  ActiveOwner scope step.subject ∨ (∃ expectedVersion, step.command = .leave expectedVersion ∧ step.subject = userId) ∨
    channelAdmin step.facts.ownership scope.conversation = true

structure MembershipLaw (step : MembershipStep) (scope scope' : SharedConversation) : Prop where
  ownerRemains : HasOwner scope → HasOwner scope'
  requested : ∀ userId, ¬ (ActiveOwner scope userId ↔ ActiveOwner scope' userId) → Requested step scope userId
  outdated : ∀ version, step.command.expectedVersion = some version →
    (∀ membership, scope.memberships.find step.target = some membership → membership.lockVersion ≠ version) →
    scope' = scope
  versions : ∀ membership ∈ scope.memberships.rows, ∃ membership' ∈ scope'.memberships.rows,
    membership'.userId = membership.userId ∧
      (membership' = membership ∨ membership'.lockVersion = membership.lockVersion + 1)

variable {scope scope' : SharedConversation} {facts : MembershipFacts} {subject userId : String} {role : MembershipRole}
  {membership : Membership} {timestamp : Int}

/-! ### One row -/

variable {step : MembershipStep} {membershipId : String} {change : Membership → Membership} {expectedVersion : Nat}

/-- Another user is an owner after the update of a row, if and only if before. -/
private theorem activeOwner_other {keeps : ∀ membership, (change membership).userId = membership.userId}
    {other : String} (hother : other ≠ userId)
    (hrows : scope'.memberships = scope.memberships.update userId change keeps) :
    ActiveOwner scope other ↔ ActiveOwner scope' other := by
  unfold ActiveOwner
  rw [hrows]
  constructor
  · rintro ⟨row, hrow, rfl, howner⟩
    exact ⟨row, KeyedTable.mem_update_of_ne hrow hother, rfl, howner⟩
  · rintro ⟨row, hrow, rfl, howner⟩
    rw [KeyedTable.mem_update] at hrow
    rcases hrow with ⟨hrow, -⟩ | ⟨old, -, hid, rfl⟩
    · exact ⟨row, hrow, rfl, howner⟩
    · exact absurd ((keeps old).trans hid) hother

/-- The user whose row was found is an owner if the row says so. -/
private theorem activeOwner_found (hfind : scope.memberships.find userId = some membership) :
    ActiveOwner scope userId ↔ membership.role = .owner ∧ membership.active = true := by
  obtain ⟨hrow, hid⟩ := KeyedTable.find_eq_some.mp hfind
  constructor
  · rintro ⟨other, hother, hsame, howner⟩
    obtain rfl := KeyedTable.eq_of_key hother hrow (hsame.trans hid.symm)
    exact howner
  · intro howner
    exact ⟨membership, hrow, hid, howner⟩

private theorem find_updated {keeps : ∀ membership, (change membership).userId = membership.userId}
    (hfind : scope.memberships.find userId = some membership)
    (hrows : scope'.memberships = scope.memberships.update userId change keeps) :
    scope'.memberships.find userId = some (change membership) := by
  rw [hrows]
  exact KeyedTable.find_update_self hfind

/-- An update of the found row: what the law asks for it. -/
private theorem law_of_update {keeps : ∀ membership, (change membership).userId = membership.userId}
    (hfind : scope.memberships.find step.target = some membership)
    (hrows : scope'.memberships = scope.memberships.update step.target change keeps)
    (hversion : change membership = membership ∨ (change membership).lockVersion = membership.lockVersion + 1)
    (hremains : membership.role = .owner → membership.active = true →
      ((change membership).role = .owner ∧ (change membership).active = true) ∨
        ∃ other, other ≠ step.target ∧ ActiveOwner scope other)
    (hrequested : ¬ (membership.role = .owner ∧ membership.active = true ↔
      (change membership).role = .owner ∧ (change membership).active = true) → Requested step scope step.target)
    (hexpected : ∀ version, step.command.expectedVersion = some version → membership.lockVersion = version) :
    MembershipLaw step scope scope' where
  ownerRemains := by
    rintro ⟨owner, howner⟩
    by_cases hself : owner = step.target
    · subst hself
      obtain ⟨hrole, hactive⟩ := (activeOwner_found hfind).mp howner
      rcases hremains hrole hactive with hstill | ⟨other, hother, hactive⟩
      · exact ⟨step.target, (activeOwner_found (find_updated hfind hrows)).mpr hstill⟩
      · exact ⟨other, (activeOwner_other hother hrows).mp hactive⟩
    · exact ⟨owner, (activeOwner_other hself hrows).mp howner⟩
  requested := by
    intro owner hchanged
    by_cases hself : owner = step.target
    · subst hself
      rw [activeOwner_found hfind, activeOwner_found (find_updated hfind hrows)] at hchanged
      exact hrequested hchanged
    · exact absurd (activeOwner_other hself hrows) hchanged
  outdated := by
    intro version hversion hoff
    exact absurd (hexpected version hversion) (hoff membership hfind)
  versions := by
    intro row hrow
    rw [hrows]
    by_cases hself : row.userId = step.target
    · have hsame : row = membership := by
        obtain ⟨hmember, hid⟩ := KeyedTable.find_eq_some.mp hfind
        exact KeyedTable.eq_of_key hrow hmember (hself.trans hid.symm)
      subst hsame
      exact ⟨change row, KeyedTable.mem_update.mpr (.inr ⟨row, hrow, hself, rfl⟩), keeps row, hversion⟩
    · exact ⟨row, KeyedTable.mem_update_of_ne hrow hself, rfl, .inl rfl⟩

/-- An inserted row: what the law asks for it. -/
private theorem law_of_insert
    (hinsert : scope.memberships.insert (newMember membershipId step.target role timestamp) = some scope'.memberships)
    (hrequested : role = .owner → Requested step scope step.target)
    (hexpected : step.command.expectedVersion = none) : MembershipLaw step scope scope' where
  ownerRemains := by
    rintro ⟨owner, row, hrow, howner⟩
    exact ⟨owner, row, (KeyedTable.mem_insert hinsert).mpr (.inr hrow), howner⟩
  requested := by
    intro owner hchanged
    have hnew : role = .owner ∧ owner = step.target := by
      by_contra hnot
      refine hchanged ⟨?_, ?_⟩
      · rintro ⟨row, hrow, howner⟩
        exact ⟨row, (KeyedTable.mem_insert hinsert).mpr (.inr hrow), howner⟩
      · rintro ⟨row, hrow, hid, hrole, hactive⟩
        rcases (KeyedTable.mem_insert hinsert).mp hrow with rfl | hrow
        · exact absurd ⟨hrole, hid.symm⟩ hnot
        · exact ⟨row, hrow, hid, hrole, hactive⟩
    rw [hnew.2]
    exact hrequested hnew.1
  outdated := by
    intro version hversion
    rw [hexpected] at hversion
    cases hversion
  versions := by
    intro row hrow
    exact ⟨row, (KeyedTable.mem_insert hinsert).mpr (.inr hrow), rfl, .inl rfl⟩

private theorem law_of_same (h : scope' = scope) : MembershipLaw step scope scope' := by
  subst h
  refine ⟨id, fun owner hchanged => absurd Iff.rfl hchanged, fun _ _ _ => rfl, fun row hrow => ?_⟩
  exact ⟨row, hrow, rfl, .inl rfl⟩

/-! ### What the commands check -/

private theorem activeMembership_owner {action : ManageAction} (haction : action = .manageConversationOwnership)
    (h : (activeMembership facts userId scope).any (fun membership => action.allows membership.role) = true) :
    ActiveOwner scope userId := by
  subst haction
  unfold activeMembership at h
  rw [Option.any_eq_true] at h
  obtain ⟨membership, hmembership, hallows⟩ := h
  rw [Option.filter_eq_some_iff] at hmembership
  obtain ⟨hfind, hactive⟩ := hmembership
  rw [Bool.and_eq_true, Bool.and_eq_true] at hactive
  obtain ⟨hrow, hid⟩ := KeyedTable.find_eq_some.mp hfind
  exact ⟨membership, hrow, hid, of_decide_eq_true hallows, hactive.1.1⟩

/-- A change of ownership that was allowed was requested by an owner, or on a channel of the tenant. -/
private theorem authorized_commits {current requested : Option MembershipRole} {u : Unit}
    (h : (authorizeOwnershipChange current requested facts subject scope).Commits u)
    (howner : current = some .owner ∨ requested = some .owner) :
    ActiveOwner scope subject ∨ channelAdmin facts.ownership scope.conversation = true := by
  unfold authorizeOwnershipChange at h
  have hcondition : (decide (current = some .owner) || decide (requested = some .owner)) = true := by
    rw [Bool.or_eq_true, decide_eq_true_eq, decide_eq_true_eq]
    exact howner
  rw [if_pos hcondition, commits_check] at h
  unfold authorizeManagement at h
  rw [Bool.and_eq_true, Bool.or_eq_true] at h
  rcases h.2 with hmember | hadmin
  · exact .inl (activeMembership_owner rfl hmember)
  · exact .inr hadmin

private theorem requested_of_authorized {current requested : Option MembershipRole} {u : Unit}
    (h : (authorizeOwnershipChange current requested step.facts step.subject scope).Commits u)
    (howner : current = some .owner ∨ requested = some .owner) : Requested step scope userId := by
  rcases authorized_commits h howner with hactive | hadmin
  · exact .inl hactive
  · exact .inr (.inr hadmin)

private theorem ownerRemains_commits {u : Unit} (h : (ensureConversationOwnerRemains membership scope).Commits u)
    (howner : membership.role = .owner) : ∃ other, other ≠ membership.userId ∧ ActiveOwner scope other := by
  unfold ensureConversationOwnerRemains at h
  rw [if_pos howner, commits_check, List.any_eq_true] at h
  obtain ⟨other, hother, hcondition⟩ := h
  rw [Bool.and_eq_true, Bool.and_eq_true, decide_eq_true_eq, decide_eq_true_eq] at hcondition
  exact ⟨other.userId, hcondition.1.1, other, hother, rfl, hcondition.1.2, hcondition.2⟩

/-! ### The commands -/

theorem admitNew_commits (h : (admitNew facts membershipId userId role scope).Commits scope') :
    ∃ memberships, scope.memberships.insert (newMember membershipId userId role facts.timestamp) = some memberships ∧
      scope' = { scope with memberships := memberships } := by
  simp only [admitNew, commits_bind] at h
  obtain ⟨-, -, h⟩ := h
  split at h
  · exact absurd h (commits_rollback _ _)
  · rename_i memberships hinsert
    rw [commits_pure] at h
    exact ⟨memberships, hinsert, h.symm⟩

theorem readmit_commits (h : ( readmit facts userId role scope).Commits scope') :
    scope'.memberships = scope.memberships.update userId (Membership.rejoin role facts.timestamp)
      (Membership.rejoin_userId role facts.timestamp) := by
  simp only [ readmit, commits_bind, commits_pure] at h
  obtain ⟨-, -, rfl⟩ := h
  rfl

theorem depart_commits {event : MembershipEvent} (h : (depart facts userId event scope).Commits scope') :
    scope'.memberships = scope.memberships.update userId (Membership.leave facts.timestamp)
      (Membership.leave_userId facts.timestamp) := by
  simp only [depart, commits_bind, commits_check, commits_pure] at h
  obtain ⟨-, -, rfl⟩ := h
  rfl

theorem lockedMember_commits (h : (lockedMember userId scope).Commits membership) :
    scope.memberships.find userId = some membership ∧ membership.active = true := by
  unfold lockedMember at h
  split at h
  · exact absurd h (commits_rollback _ _)
  · rename_i found hfind
    simp only [commits_bind, commits_check, commits_pure] at h
    obtain ⟨-, hactive, rfl⟩ := h
    exact ⟨hfind, hactive⟩

private theorem law_add (hcommand : step.command = .add membershipId userId role)
    (h : (add step.facts step.subject membershipId userId role scope).Commits scope') :
    MembershipLaw step scope scope' := by
  have htarget : step.target = userId := by
    unfold MembershipStep.target
    rw [hcommand]
  have hexpected : step.command.expectedVersion = none := by
    rw [hcommand]
    rfl
  subst htarget
  simp only [add, commits_bind, commits_check] at h
  obtain ⟨-, -, -, -, h⟩ := h
  unfold addMember at h
  split at h
  · simp only [commits_bind, commits_pure] at h
    obtain ⟨_, hauthorized, added, hadded, rfl⟩ := h
    obtain ⟨memberships, hinsert, rfl⟩ := admitNew_commits hadded
    refine law_of_insert hinsert (fun howner => ?_) hexpected
    exact requested_of_authorized hauthorized (.inr (congrArg some howner))
  · rename_i membership hfind
    split at h
    · simp only [commits_bind, commits_check, commits_pure] at h
      obtain ⟨-, -, -, -, rfl⟩ := h
      exact law_of_same rfl
    · rename_i hdeparted
      simp only [commits_bind, commits_pure] at h
      obtain ⟨_, hauthorized, added, hadded, rfl⟩ := h
      have hrows := readmit_commits hadded
      refine law_of_update hfind hrows (.inr rfl) (fun _ hactive => absurd hactive hdeparted) (fun hchanged => ?_) ?_
      · by_cases howner : role = .owner
        · exact requested_of_authorized hauthorized (.inr (congrArg some howner))
        · exact absurd ⟨fun h => absurd h.2 hdeparted, fun h => absurd h.1 howner⟩ hchanged
      · intro version hversion
        rw [hexpected] at hversion
        cases hversion

private theorem law_remove (hcommand : step.command = .remove userId expectedVersion)
    (h : (remove step.facts step.subject userId expectedVersion scope).Commits scope') :
    MembershipLaw step scope scope' := by
  have htarget : step.target = userId := by
    unfold MembershipStep.target
    rw [hcommand]
  subst htarget
  simp only [remove, commits_bind, commits_check, decide_eq_true_eq] at h
  obtain ⟨-, -, membership, hmember, _, hauthorized, -, hversion, _, hremains, hdeparted⟩ := h
  obtain ⟨hfind, -⟩ := lockedMember_commits hmember
  have hid : membership.userId = step.target := (KeyedTable.find_eq_some.mp hfind).2
  refine law_of_update hfind (depart_commits hdeparted) (.inr rfl) (fun howner _ => .inr ?_) (fun hchanged => ?_) ?_
  · rw [← hid]
    exact ownerRemains_commits hremains howner
  · by_cases howner : membership.role = .owner
    · exact requested_of_authorized hauthorized (.inl (congrArg some howner))
    · exact absurd ⟨fun h => absurd h.1 howner, fun h => absurd h.1 howner⟩ hchanged
  · intro version hexpected
    rw [hcommand] at hexpected
    exact hversion.trans (Option.some.inj hexpected)

private theorem law_changeRole (hcommand : step.command = .changeRole userId role expectedVersion)
    (h : (changeRole step.facts step.subject userId role expectedVersion scope).Commits scope') :
    MembershipLaw step scope scope' := by
  have htarget : step.target = userId := by
    unfold MembershipStep.target
    rw [hcommand]
  subst htarget
  simp only [changeRole, commits_bind, commits_check, decide_eq_true_eq] at h
  obtain ⟨-, -, membership, hmember, _, hauthorized, -, hversion, h⟩ := h
  obtain ⟨hfind, hactive⟩ := lockedMember_commits hmember
  have hid : membership.userId = step.target := (KeyedTable.find_eq_some.mp hfind).2
  have hwritten : scope'.memberships = scope.memberships.update step.target (Membership.changeRole role)
        (Membership.changeRole_userId role) ∧
      (role ≠ .owner → ∃ u, (ensureConversationOwnerRemains membership scope).Commits u) := by
    split at h
    · simp only [commits_bind, commits_pure] at h
      obtain ⟨u, hremains, rfl⟩ := h
      exact ⟨rfl, fun _ => ⟨u, hremains⟩⟩
    · rename_i howner
      simp only [commits_pure] at h
      obtain ⟨-, -, rfl⟩ := h
      exact ⟨rfl, fun hnot => absurd hnot howner⟩
  refine law_of_update hfind hwritten.1 (Membership.changeRole_version role membership) (fun howner hactive => ?_)
    (fun hchanged => ?_) ?_
  · by_cases hstill : role = .owner
    · exact .inl ⟨(membership.changeRole_role role).trans hstill, (membership.changeRole_active role).trans hactive⟩
    · obtain ⟨u, hremains⟩ := hwritten.2 hstill
      rw [← hid]
      exact .inr (ownerRemains_commits hremains howner)
  · by_cases hbefore : membership.role = .owner
    · exact requested_of_authorized hauthorized (.inl (congrArg some hbefore))
    · by_cases hafter : role = .owner
      · exact requested_of_authorized hauthorized (.inr (congrArg some hafter))
      · have hnot : (membership.changeRole role).role ≠ .owner := by
          rw [Membership.changeRole_role]
          exact hafter
        exact absurd ⟨fun h => absurd h.1 hbefore, fun h => absurd h.1 hnot⟩ hchanged
  · intro version hexpected
    rw [hcommand] at hexpected
    exact hversion.trans (Option.some.inj hexpected)

private theorem law_join (hcommand : step.command = .join membershipId)
    (h : (join step.facts step.subject membershipId scope).Commits scope') : MembershipLaw step scope scope' := by
  have htarget : step.target = step.subject := by
    unfold MembershipStep.target
    rw [hcommand]
  have hexpected : step.command.expectedVersion = none := by
    rw [hcommand]
    rfl
  simp only [join, commits_bind, commits_check] at h
  obtain ⟨-, -, -, -, -, -, -, -, h⟩ := h
  rw [← htarget] at h
  unfold joinMember at h
  split at h
  · simp only [commits_bind, commits_pure] at h
    obtain ⟨joined, hjoined, rfl⟩ := h
    obtain ⟨memberships, hinsert, rfl⟩ := admitNew_commits hjoined
    exact law_of_insert hinsert (fun howner => by cases howner) hexpected
  · rename_i membership hfind
    split at h
    · rw [commits_pure] at h
      exact law_of_same h.symm
    · rename_i hdeparted
      simp only [commits_bind, commits_pure] at h
      obtain ⟨joined, hjoined, rfl⟩ := h
      have hrows := readmit_commits hjoined
      refine law_of_update hfind hrows (.inr rfl) (fun _ hactive => absurd hactive hdeparted) (fun hchanged => ?_) ?_
      · exact absurd ⟨fun h => absurd h.2 hdeparted, fun h => by cases h.1⟩ hchanged
      · intro version hversion
        rw [hexpected] at hversion
        cases hversion

private theorem law_leave (hcommand : step.command = .leave expectedVersion)
    (h : (leave step.facts step.subject expectedVersion scope).Commits scope') : MembershipLaw step scope scope' := by
  have htarget : step.target = step.subject := by
    unfold MembershipStep.target
    rw [hcommand]
  simp only [leave, commits_bind, commits_check] at h
  obtain ⟨-, -, -, -, -, -, h⟩ := h
  rw [← htarget] at h
  unfold leaveMember at h
  split at h
  · exact absurd h (commits_rollback _ _)
  · rename_i membership hfind
    split at h
    · simp only [commits_bind, commits_check, decide_eq_true_eq] at h
      obtain ⟨-, hversion, _, hremains, hdeparted⟩ := h
      have hid : membership.userId = step.target := (KeyedTable.find_eq_some.mp hfind).2
      refine law_of_update hfind (depart_commits hdeparted) (.inr rfl) (fun howner _ => .inr ?_) (fun _ => ?_) ?_
      · rw [← hid]
        exact ownerRemains_commits hremains howner
      · exact .inr (.inl ⟨expectedVersion, hcommand, htarget.symm⟩)
      · intro version hexpected
        rw [hcommand] at hexpected
        exact hversion.trans (Option.some.inj hexpected)
    · rw [commits_pure] at h
      exact law_of_same h.symm

/-- Every command that commits obeys the law. -/
theorem execute_law (hexecute : step.execute scope = some scope') :
    MembershipLaw step scope scope' := by
  have hcommits : (step.transaction scope).Commits scope' := toOption_eq_some.mp hexecute
  unfold MembershipStep.transaction at hcommits
  split at hcommits
  · rename_i membershipId userId role hcommand
    exact law_add hcommand hcommits
  · rename_i userId expectedVersion hcommand
    exact law_remove hcommand hcommits
  · rename_i userId role expectedVersion hcommand
    exact law_changeRole hcommand hcommits
  · rename_i membershipId hcommand
    exact law_join hcommand hcommits
  · rename_i expectedVersion hcommand
    exact law_leave hcommand hcommits

/-- In every interleaving: a conversation that has an owner has one ever after, and each next action writes nothing or
what one command writes, by the law. -/
theorem shared_owner_remains {Process : Type} [DecidableEq Process] (first : SharedConversation)
    (actions more : List (LockAction Process MembershipStep)) :
    let state := runCommands (RowLock.next MembershipStep.execute) (RowLock.start first) actions
    (HasOwner state.data → HasOwner (runCommands (RowLock.next MembershipStep.execute) state more).data) ∧
    ∀ action, (state.next MembershipStep.execute action).data = state.data ∨
      ∃ step : MembershipStep, step.execute state.data = some (state.next MembershipStep.execute action).data ∧
        MembershipLaw step state.data (state.next MembershipStep.execute action).data := by
  intro state
  have hheld : state.Held := (RowLock.serial_run MembershipStep.execute first actions).held
  refine ⟨fun howner => ?_, fun action => ?_⟩
  · exact RowLock.data_kept (fun data step data' h hexecute => (execute_law hexecute).ownerRemains h) hheld howner more
  · rcases RowLock.next_cases hheld action with ⟨step, written, hwritten, hdata, -⟩ | ⟨hdata, -⟩
    · rw [hdata]
      exact .inr ⟨step, hwritten, execute_law hwritten⟩
    · exact .inl hdata

/-! ### Two owners who leave -/

def sampleOwner (userId : String) : Membership := newMember userId userId .owner 0

def sampleChannel : SharedConversation where
  conversation := { kind := .channel, visibility := .tenant, archivedAt := none, nextSequence := 1 }
  serverReadable := true
  memberships := ⟨[sampleOwner "ada", sampleOwner "ben"], by decide⟩
  events := []

def memberFacts : MembershipFacts where
  authorizedBefore := true
  manage := some .member
  ownership := some .member
  humanWorkspace := true
  available := true
  channelsEnabled := true
  activeUser := true
  maxConversationMembers := 10
  lapsedGuests := []
  fenced := true
  timestamp := 1

/-- Both owners leave at once; the second one has to wait, and is then the last owner. -/
def bothLeave : List (LockAction Nat MembershipStep) :=
  [.lock 0 ⟨"ada", memberFacts, .leave 1⟩, .lock 1 ⟨"ben", memberFacts, .leave 1⟩, .finish 0,
   .lock 1 ⟨"ben", memberFacts, .leave 1⟩, .finish 1]

theorem shared_owner_remains_sample :
    HasOwner (runCommands (RowLock.next MembershipStep.execute) (RowLock.start sampleChannel) bothLeave).data :=
  (shared_owner_remains sampleChannel ([] : List (LockAction Nat MembershipStep)) bothLeave).1
    ⟨"ada", sampleOwner "ada", List.mem_cons_self, rfl, rfl, rfl⟩

example : (runCommands (RowLock.next MembershipStep.execute) (RowLock.start sampleChannel)
    bothLeave).data.memberships.rows.map (fun membership => (membership.userId, membership.leftAt)) =
    [("ada", some 1), ("ben", none)] := by decide

end KComms.Conversations
