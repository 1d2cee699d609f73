import KComms.Conversations.GuestLinks
import KComms.Lib.RowLock

/-!
# Redemptions of guest links, beside accepted messages

Any number of transactions on one conversation, under its row lock.  A standard link has as many uses as admissions, and
no link has more uses than it may; guests who join an instant room come through its link without a use.  Every identity
and every membership of a guest belongs to an admission, and an admission divides the messages at its first sequence.
-/

namespace KComms.Conversations

open Attempt
open KComms.Rooms (MembershipRole Readings)

inductive GuestCommand
  | createLink (facts : ManagerFacts) (timestamp : Int) (request : LinkRequest)
  | revokeLink (facts : ManagerFacts) (bindings revoked : Bool) (timestamp : Int) (linkId : String)
  | redeem (facts : RedemptionFacts) (times : Readings) (redemption : Redemption)
  | join (facts : JoinFacts) (times : Readings) (request : JoinRequest)
  | accept (valid authorized : Bool) (messageId : String)

def GuestCommand.transaction (scope : GuestScope) : GuestCommand → GuestTransaction GuestScope
  | .createLink facts timestamp request => KComms.Conversations.createLink facts timestamp request scope
  | .revokeLink facts bindings revoked timestamp linkId =>
    KComms.Conversations.revokeLink facts bindings revoked timestamp linkId scope
  | .redeem facts times redemption => redeemLink facts times redemption scope
  | .join facts times request => joinRoom facts times request scope
  | .accept valid authorized messageId => acceptMessage valid authorized messageId scope

def GuestCommand.execute (command : GuestCommand) (scope : GuestScope) : Option GuestScope :=
  (command.transaction scope).outcome.toOption

/-- The command revokes the link. -/
def GuestCommand.revokes (linkId : String) : GuestCommand → Bool
  | .revokeLink _ _ _ _ id => id = linkId
  | _ => false

def admissionsThrough (linkId : String) (scope : GuestScope) : List GuestAdmission :=
  scope.admissions.rows.filter fun admission => admission.guestLinkId = linkId

variable {scope scope' : GuestScope}

/-! ### What the commands write -/

/-- What of a link is not its deadline or its revocation. -/
def GuestLink.uses (link : GuestLink) : String × LinkPurpose × Nat × Nat :=
  (link.id, link.purpose, link.useCount, link.maxUses)

/-- What of an admission never changes. -/
def GuestAdmission.origin (admission : GuestAdmission) : String × String × String × String × Int × Nat :=
  (admission.id, admission.guestLinkId, admission.guestUserId, admission.membershipId, admission.admittedAt,
    admission.historyFromSequence)

variable {link : GuestLink} {admission : GuestAdmission} {command : GuestCommand} {times : Readings}
  {facts : ManagerFacts} {timestamp : Int} {request : JoinRequest} {redemption : Redemption}
  {commands : List GuestCommand}

private theorem origin_eq {old : GuestAdmission} : old.origin = admission.origin ↔
    old.id = admission.id ∧ old.guestLinkId = admission.guestLinkId ∧ old.guestUserId = admission.guestUserId ∧
      old.membershipId = admission.membershipId ∧ old.admittedAt = admission.admittedAt ∧
      old.historyFromSequence = admission.historyFromSequence := by
  simp [GuestAdmission.origin]

/-- The same guests are there, and a link that was revoked still is. -/
structure SameGuests (scope scope' : GuestScope) : Prop where
  links : scope'.links.rows.map GuestLink.uses = scope.links.rows.map GuestLink.uses
  revoked : ∀ link ∈ scope.links.rows, link.revokedAt.isSome = true →
    ∃ link' ∈ scope'.links.rows, link'.id = link.id ∧ link'.revokedAt.isSome = true
  identities : scope'.identities.rows.map (·.userId) = scope.identities.rows.map (·.userId)
  memberships : scope'.memberships.rows.map (·.id) = scope.memberships.rows.map (·.id)
  admissions : scope'.admissions.rows.map GuestAdmission.origin = scope.admissions.rows.map GuestAdmission.origin
  conversation : scope'.conversation = scope.conversation
  messages : scope'.messages = scope.messages

theorem SameGuests.refl (scope : GuestScope) : SameGuests scope scope :=
  ⟨rfl, fun link hlink hrevoked => ⟨link, hlink, rfl, hrevoked⟩, rfl, rfl, rfl, rfl, rfl⟩

theorem SameGuests.trans {scope'' : GuestScope} (h : SameGuests scope scope') (h' : SameGuests scope' scope'') :
    SameGuests scope scope'' := by
  refine ⟨h'.links.trans h.links, fun link hlink hrevoked => ?_, h'.identities.trans h.identities,
    h'.memberships.trans h.memberships, h'.admissions.trans h.admissions, h'.conversation.trans h.conversation,
    h'.messages.trans h.messages⟩
  obtain ⟨link', hlink', hid, hrevoked'⟩ := h.revoked link hlink hrevoked
  obtain ⟨link'', hlink'', hid', hrevoked''⟩ := h'.revoked link' hlink' hrevoked'
  exact ⟨link'', hlink'', hid'.trans hid, hrevoked''⟩

theorem SameGuests.kept (h : SameGuests scope scope') (hlink : link ∈ scope.links.rows) :
    ∃ row ∈ scope'.links.rows, row.id = link.id ∧ row.purpose = link.purpose := by
  have hmem := List.mem_map_of_mem (f := GuestLink.uses) hlink
  rw [← h.links] at hmem
  obtain ⟨row, hrow, huses⟩ := List.mem_map.mp hmem
  exact ⟨row, hrow, congrArg Prod.fst huses, congrArg (fun uses => uses.2.1) huses⟩

theorem SameGuests.link_before (h : SameGuests scope scope') (hlink : link ∈ scope'.links.rows) :
    ∃ old ∈ scope.links.rows, old.uses = link.uses := by
  have hmem := List.mem_map_of_mem (f := GuestLink.uses) hlink
  rw [h.links] at hmem
  exact List.mem_map.mp hmem

private theorem SameGuests.admission_before (h : SameGuests scope scope')
    (hadmission : admission ∈ scope'.admissions.rows) :
    ∃ old ∈ scope.admissions.rows, old.origin = admission.origin := by
  have hmem := List.mem_map_of_mem (f := GuestAdmission.origin) hadmission
  rw [h.admissions] at hmem
  exact List.mem_map.mp hmem

/-- One more guest is admitted through the link. -/
structure Admits (link : GuestLink) (admission : GuestAdmission) (scope scope' : GuestScope) : Prop where
  through : admission.guestLinkId = link.id
  floor : admission.historyFromSequence = scope.conversation.nextSequence
  identities : scope'.identities.rows.map (·.userId) = admission.guestUserId :: scope.identities.rows.map (·.userId)
  memberships : scope'.memberships.rows.map (·.id) = admission.membershipId :: scope.memberships.rows.map (·.id)
  admissions : scope'.admissions.rows = admission :: scope.admissions.rows
  conversation : scope'.conversation = scope.conversation
  messages : scope'.messages = scope.messages

/-- The uses of a link keep within its limit, and those of a standard link are its admissions. -/
def UsesKept (scope : GuestScope) (link : GuestLink) : Prop :=
  link.useCount ≤ link.maxUses ∧
    (link.purpose = .standard → link.useCount = (admissionsThrough link.id scope).length)

/-- The rows of a conversation, and the id of the membership that is not of a guest. -/
structure RedemptionKept (ownerId : String) (scope : GuestScope) : Prop where
  uses : ∀ link ∈ scope.links.rows, UsesKept scope link
  admissions : ∀ admission ∈ scope.admissions.rows, admission.historyFromSequence ≤ scope.conversation.nextSequence ∧
    ∃ link ∈ scope.links.rows, link.id = admission.guestLinkId
  identities : scope.identities.rows.map (·.userId) = scope.admissions.rows.map (·.guestUserId)
  memberships : scope.memberships.rows.map (·.id) = scope.admissions.rows.map (·.membershipId) ++ [ownerId]
  messages : ∀ message ∈ scope.messages, message.conversationSequence < scope.conversation.nextSequence

variable {ownerId : String}

/-- A column of the admissions that never changes. -/
private theorem SameGuests.column {α : Type} (g : String × String × String × String × Int × Nat → α)
    (h : SameGuests scope scope') : scope'.admissions.rows.map (fun admission => g admission.origin) =
      scope.admissions.rows.map fun admission => g admission.origin := by
  have hcolumn : ∀ rows : List GuestAdmission,
      (rows.map fun admission => g admission.origin) = (rows.map GuestAdmission.origin).map g := fun rows => by
    rw [List.map_map]
    rfl
  rw [hcolumn, hcolumn, h.admissions]

private theorem length_admissionsThrough (linkId : String) (scope : GuestScope) :
    (admissionsThrough linkId scope).length = (scope.admissions.rows.map (·.guestLinkId)).countP (· = linkId) := by
  rw [List.countP_map, List.countP_eq_length_filter]
  rfl

private theorem kept_same (h : RedemptionKept ownerId scope) (hsame : SameGuests scope scope') :
    RedemptionKept ownerId scope' := by
  refine ⟨fun link hlink => ?_, fun admission hadmission => ?_, ?_, ?_, ?_⟩
  · obtain ⟨old, hold, huses⟩ := hsame.link_before hlink
    obtain ⟨hid, hpurpose, hcount, hmax⟩ : old.id = link.id ∧ old.purpose = link.purpose ∧
        old.useCount = link.useCount ∧ old.maxUses = link.maxUses := by
      simpa [GuestLink.uses] using huses
    have hthrough : scope'.admissions.rows.map (·.guestLinkId) = scope.admissions.rows.map (·.guestLinkId) :=
      hsame.column fun origin => origin.2.1
    unfold UsesKept
    rw [length_admissionsThrough, hthrough, ← length_admissionsThrough, ← hid, ← hpurpose, ← hcount, ← hmax]
    exact h.uses old hold
  · obtain ⟨old, hold, horigin⟩ := hsame.admission_before hadmission
    obtain ⟨hfloor, link, hlink, hguest⟩ := h.admissions old hold
    obtain ⟨-, hthrough, -, -, -, hhistory⟩ := origin_eq.mp horigin
    obtain ⟨link', hlink', hid, -⟩ := hsame.kept hlink
    rw [hsame.conversation, ← hhistory, ← hthrough, ← hguest]
    exact ⟨hfloor, link', hlink', hid⟩
  · rw [hsame.identities, h.identities]
    exact (hsame.column fun origin => origin.2.2.1).symm
  · rw [hsame.memberships, h.memberships]
    exact congrArg (· ++ [ownerId]) (hsame.column fun origin => origin.2.2.2.1).symm
  · rw [hsame.messages, hsame.conversation]
    exact h.messages

/-- The rows after these commands, one after the other. -/
def scopeAfter (first : GuestScope) (commands : List GuestCommand) : GuestScope :=
  runCommands (RowLock.accept GuestCommand.execute) first commands

/-- The command creates the admission through the link, which has not expired; only the link of an instant room is one
to join through. -/
def Creates (link : GuestLink) (admission : GuestAdmission) : GuestCommand → Prop
  | .redeem _ times redemption => admission.id = redemption.admissionId ∧ admission.admittedAt = times.first ∧
      times.first < link.expiresAt ∧ times.third < link.expiresAt
  | .join _ times request => admission.id = request.admissionId ∧ link.purpose = .ephemeralRoom ∧
      times.first < link.expiresAt
  | _ => False

/-- An admission after a command was there before, or the command has created it and the first sequence is the next. -/
def AdmissionStep (scope : GuestScope) (command : GuestCommand) (scope' : GuestScope)
    (admission : GuestAdmission) : Prop :=
  (∃ old ∈ scope.admissions.rows, old.origin = admission.origin) ∨
    (∃ link ∈ scope.links.rows, link.id = admission.guestLinkId ∧ link.revokedAt = none ∧
        Creates link admission command) ∧
      admission.historyFromSequence = scope.conversation.nextSequence ∧ scope'.messages = scope.messages

/-- What a command does to messages, links and admissions. -/
structure GuestStep (scope : GuestScope) (command : GuestCommand) (scope' : GuestScope) : Prop where
  messages : ∀ message ∈ scope'.messages, message ∈ scope.messages ∨
    message.conversationSequence = scope.conversation.nextSequence
  revoked : ∀ link ∈ scope.links.rows, link.revokedAt.isSome = true →
    ∃ link' ∈ scope'.links.rows, link'.id = link.id ∧ link'.revokedAt.isSome = true
  admissions : ∀ admission ∈ scope'.admissions.rows, AdmissionStep scope command scope' admission

private theorem SameGuests.step (h : SameGuests scope scope') : GuestStep scope command scope' :=
  ⟨fun message hmessage => .inl (h.messages ▸ hmessage), h.revoked,
    fun _ hadmission => .inl (h.admission_before hadmission)⟩

end KComms.Conversations
