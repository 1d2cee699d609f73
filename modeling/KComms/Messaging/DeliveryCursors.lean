import KComms.Lib.OrderedMap
import KComms.Messaging.History
import KComms.Messaging.MessageCommands

/-!
# Delivery and read receipts (`DeliveryCursors`)

A device marks messages as delivered or read.  The target of a call is bounded by a query of its own before the
upsert, which keeps the greatest value of each column; messages come in between.  Whatever the order, the row of a
device has the greatest targets of its calls (`receipts_join`).
-/

namespace KComms.Messaging

/-! ### Rows -/

/-- The unique index of the rows. -/
structure CursorKey where
  tenantId : String
  conversationId : String
  userId : String
  deviceId : String
  deriving DecidableEq, Repr

structure MessageDeliveryCursor where
  id : String
  deliveredSequence : Nat
  readSequence : Nat
  deliveredAt : Option Nat
  readAt : Option Nat
  insertedAt : Nat
  updatedAt : Nat
  deriving DecidableEq, Repr

structure DeliveryCursorView where
  recipientUserId : String
  deviceRef : String
  deliveredSequence : Nat
  readSequence : Nat
  deliveredAt : Option Nat
  readAt : Option Nat
  deriving DecidableEq, Repr

inductive MarkError
  | unauthorized (reason : ReadError) | invalidSequence
  deriving DecidableEq, Repr

/-- `mark_delivered` or `mark_read` -/
inductive Mark
  | delivered | read
  deriving DecidableEq, Repr

/-- The greatest sequence of a conversation, or 0. -/
def maximumConversationSequence (messages : List Message) (tenantId conversationId : String) : Nat :=
  ((messages.filter fun message => message.tenantId = tenantId ∧ message.conversationId = conversationId).map
    Message.conversationSequence).foldr max 0

def boundedSequence (messages : List Message) (conversationId : String) (requested : Int) (subject : Subject) :
    Except MarkError Nat :=
  if 0 ≤ requested then .ok (min requested.toNat (maximumConversationSequence messages subject.tenantId conversationId))
  else .error .invalidSequence

/-- `Conversations.mark_read`, which the controller of reads calls first: the membership keeps the greatest sequence,
but the answer, which is announced, is the target of this call. -/
def markConversationRead (lastReadSequence : Nat) (sequence : Int) (nextSequence : Nat) : Nat × Nat :=
  let target := min (max sequence 0).toNat (nextSequence - 1)
  (max lastReadSequence target, target)

/-- The row that `advance` inserts. -/
def attributes (mark : Mark) (target : Nat) (id : String) (timestamp : Nat) : MessageDeliveryCursor :=
  let readTarget := if mark = .read then target else 0
  { id := id, deliveredSequence := target, readSequence := readTarget,
    deliveredAt := if 0 < target then some timestamp else none,
    readAt := if 0 < readTarget then some timestamp else none, insertedAt := timestamp, updatedAt := timestamp }

/-- The update on a conflict. -/
def MessageDeliveryCursor.conflict (cursor excluded : MessageDeliveryCursor) (timestamp : Nat) : MessageDeliveryCursor :=
  { cursor with
    deliveredSequence := max cursor.deliveredSequence excluded.deliveredSequence
    readSequence := max cursor.readSequence excluded.readSequence
    deliveredAt := if cursor.deliveredSequence < excluded.deliveredSequence then excluded.deliveredAt else cursor.deliveredAt
    readAt := if cursor.readSequence < excluded.readSequence then excluded.readAt else cursor.readAt
    updatedAt := timestamp }

def upsert (cursors : OrderedMap CursorKey MessageDeliveryCursor) (key : CursorKey) (mark : Mark) (target : Nat)
    (id : String) (timestamp : Nat) : OrderedMap CursorKey MessageDeliveryCursor :=
  let excluded := attributes mark target id timestamp
  match cursors.get? key with
  | none => cursors.set key excluded
  | some cursor => cursors.set key (cursor.conflict excluded timestamp)

/-- `project`, with the reference of a device as a function of the conversation and the device. -/
def project (deviceRef : String → String → String) (key : CursorKey) (cursor : MessageDeliveryCursor) :
    DeliveryCursorView :=
  { recipientUserId := key.userId, deviceRef := deviceRef key.conversationId key.deviceId,
    deliveredSequence := cursor.deliveredSequence, readSequence := cursor.readSequence,
    deliveredAt := cursor.deliveredAt, readAt := cursor.readAt }

/-! ### Calls -/

/-- Where a call of `advance` is. -/
inductive MarkStage
  | requested
  | bounded (target : Nat)
  | upserted (target : Nat)
  | replied (target : Nat) (view : DeliveryCursorView)
  | failed (error : MarkError)
  deriving DecidableEq, Repr

structure MarkCall where
  mark : Mark
  conversationId : String
  sequence : Int
  subject : Subject
  stage : MarkStage
  deriving DecidableEq, Repr

def MarkCall.key (call : MarkCall) : CursorKey :=
  ⟨call.subject.tenantId, call.conversationId, call.subject.userId, call.subject.deviceId⟩

structure Receipts where
  messages : List Message
  cursors : OrderedMap CursorKey MessageDeliveryCursor
  calls : List MarkCall

inductive ReceiptEvent
  | accepted (message : Message)
  | called (mark : Mark) (conversationId : String) (sequence : Int) (subject : Subject)
  | bounded (p : Nat) (authorized : Except ReadError Unit)
  | upserted (p : Nat) (id : String) (timestamp : Nat)
  | fetched (p : Nat)

/-- The authorization and the query of the bound. -/
def MarkCall.bound (messages : List Message) (call : MarkCall) (authorized : Except ReadError Unit) : MarkCall :=
  match authorized with
  | .error reason => { call with stage := .failed (.unauthorized reason) }
  | .ok () =>
    match boundedSequence messages call.conversationId call.sequence call.subject with
    | .error error => { call with stage := .failed error }
    | .ok target => { call with stage := .bounded target }

def Receipts.setCall (receipts : Receipts) (p : Nat) (call : MarkCall) : Receipts :=
  { receipts with calls := receipts.calls.set p call }

def Receipts.step (deviceRef : String → String → String) (receipts : Receipts) : ReceiptEvent → Receipts
  | .accepted message => { receipts with messages := receipts.messages ++ [message] }
  | .called mark conversationId sequence subject =>
    { receipts with calls := receipts.calls ++ [⟨mark, conversationId, sequence, subject, .requested⟩] }
  | .bounded p authorized =>
    match receipts.calls[p]? with
    | some call =>
      if call.stage = .requested then receipts.setCall p (call.bound receipts.messages authorized) else receipts
    | none => receipts
  | .upserted p id timestamp =>
    match receipts.calls[p]? with
    | some call =>
      match call.stage with
      | .bounded target =>
        { receipts.setCall p { call with stage := .upserted target } with
          cursors := upsert receipts.cursors call.key call.mark target id timestamp }
      | _ => receipts
    | none => receipts
  | .fetched p =>
    match receipts.calls[p]? with
    | some call =>
      match call.stage, receipts.cursors.get? call.key with
      | .upserted target, some cursor =>
        receipts.setCall p { call with stage := .replied target (project deviceRef call.key cursor) }
      | _, _ => receipts
    | none => receipts

def Receipts.run (deviceRef : String → String → String) (receipts : Receipts) (events : List ReceiptEvent) : Receipts :=
  events.foldl (Receipts.step deviceRef) receipts

/-- The sequences of the row of a key, 0 where there is none. -/
def deliveredOf (cursors : OrderedMap CursorKey MessageDeliveryCursor) (key : CursorKey) : Nat :=
  ((cursors.get? key).map MessageDeliveryCursor.deliveredSequence).getD 0

def readOf (cursors : OrderedMap CursorKey MessageDeliveryCursor) (key : CursorKey) : Nat :=
  ((cursors.get? key).map MessageDeliveryCursor.readSequence).getD 0

/-- The bounded target that a call wrote. -/
def MarkCall.written (call : MarkCall) : Option Nat :=
  match call.stage with
  | .upserted target => some target
  | .replied target _ => some target
  | _ => none

/-- What a call contributes to the sequences of a key. -/
def MarkCall.deliveredTarget (key : CursorKey) (call : MarkCall) : Nat :=
  if call.key = key then call.written.getD 0 else 0

def MarkCall.readTarget (key : CursorKey) (call : MarkCall) : Nat :=
  if call.key = key ∧ call.mark = .read then call.written.getD 0 else 0

/-- The greatest of the targets. -/
def greatest (targets : List Nat) : Nat := targets.foldr max 0

/-! ### Greatest targets -/

theorem le_greatest {targets : List Nat} {n : Nat} (h : n ∈ targets) : n ≤ greatest targets := by
  induction targets with
  | nil => cases h
  | cons m targets ih =>
    show n ≤ max m (greatest targets)
    rcases List.mem_cons.1 h with rfl | h
    · exact le_max_left _ _
    · exact le_trans (ih h) (le_max_right _ _)

theorem greatest_le {targets : List Nat} {n : Nat} (h : ∀ m ∈ targets, m ≤ n) : greatest targets ≤ n := by
  induction targets with
  | nil => exact Nat.zero_le n
  | cons m targets ih =>
    show max m (greatest targets) ≤ n
    have hm := h m (by simp)
    have hrest := ih fun k hk => h k (by simp [hk])
    omega

/-- A target in the place of one that it covers. -/
theorem greatest_set {targets : List Nat} : ∀ {p old : Nat} (new : Nat), targets[p]? = some old → old ≤ new →
    greatest (targets.set p new) = max (greatest targets) new := by
  induction targets with
  | nil => intro p old new h _; cases h
  | cons m targets ih =>
    intro p old new h hle
    cases p with
    | zero =>
      obtain rfl : m = old := Option.some.inj h
      show max new (greatest targets) = max (max m (greatest targets)) new
      omega
    | succ p =>
      show max m (greatest (targets.set p new)) = max (max m (greatest targets)) new
      rw [ih new h hle, max_assoc]

theorem greatest_append_zero (targets : List Nat) : greatest (targets ++ [0]) = greatest targets := by
  induction targets with
  | nil => rfl
  | cons m targets ih =>
    show max m (greatest (targets ++ [0])) = max m (greatest targets)
    rw [ih]

theorem maximum_append (messages : List Message) (message : Message) (tenantId conversationId : String) :
    maximumConversationSequence messages tenantId conversationId ≤
      maximumConversationSequence (messages ++ [message]) tenantId conversationId := by
  apply greatest_le
  intro m hm
  apply le_greatest
  rw [List.filter_append, List.map_append]
  exact List.mem_append_left _ hm

/-! ### The upsert -/

variable {cursors : OrderedMap CursorKey MessageDeliveryCursor}

theorem deliveredOf_upsert (key key' : CursorKey) (mark : Mark) (target : Nat) (id : String) (timestamp : Nat) :
    deliveredOf (upsert cursors key mark target id timestamp) key' =
      if key = key' then max (deliveredOf cursors key') target else deliveredOf cursors key' := by
  unfold upsert deliveredOf
  cases hget : cursors.get? key with
  | none =>
    dsimp only
    rw [OrderedMap.get?_set]
    split
    · rename_i hkey
      rw [← hkey, hget]
      simp [attributes]
    · rfl
  | some cursor =>
    dsimp only
    rw [OrderedMap.get?_set]
    split
    · rename_i hkey
      rw [← hkey, hget]
      rfl
    · rfl

theorem readOf_upsert (key key' : CursorKey) (mark : Mark) (target : Nat) (id : String) (timestamp : Nat) :
    readOf (upsert cursors key mark target id timestamp) key' =
      if key = key' then max (readOf cursors key') (if mark = .read then target else 0) else readOf cursors key' := by
  unfold upsert readOf
  cases hget : cursors.get? key with
  | none =>
    dsimp only
    rw [OrderedMap.get?_set]
    split
    · rename_i hkey
      rw [← hkey, hget]
      simp [attributes]
    · rfl
  | some cursor =>
    dsimp only
    rw [OrderedMap.get?_set]
    split
    · rename_i hkey
      rw [← hkey, hget]
      rfl
    · rfl

/-! ### The invariant -/

/-- The target of a call, once it is bounded. -/
def MarkCall.target (call : MarkCall) : Option Nat :=
  match call.stage with
  | .bounded target => some target
  | .upserted target => some target
  | .replied target _ => some target
  | _ => none

structure ReceiptsInv (receipts : Receipts) : Prop where
  delivered : ∀ key, deliveredOf receipts.cursors key = greatest (receipts.calls.map (MarkCall.deliveredTarget key))
  read : ∀ key, readOf receipts.cursors key = greatest (receipts.calls.map (MarkCall.readTarget key))
  bound : ∀ call ∈ receipts.calls, ∀ target, call.target = some target →
    target ≤ maximumConversationSequence receipts.messages call.subject.tenantId call.conversationId

variable {deviceRef : String → String → String} {receipts : Receipts} {p : Nat} {call call' : MarkCall}

theorem greatest_setCall (contribution : MarkCall → Nat) (hp : receipts.calls[p]? = some call)
    (hle : contribution call ≤ contribution call') : greatest ((receipts.calls.set p call').map contribution) =
      max (greatest (receipts.calls.map contribution)) (contribution call') := by
  rw [List.map_set]
  apply greatest_set _ _ hle
  rw [List.getElem?_map, hp]
  rfl

/-- A call that writes nothing new leaves the greatest targets. -/
theorem greatest_setCall_of_eq (contribution : MarkCall → Nat) (hp : receipts.calls[p]? = some call)
    (heq : contribution call' = contribution call) : greatest ((receipts.calls.set p call').map contribution) =
      greatest (receipts.calls.map contribution) := by
  rw [greatest_setCall contribution hp (Nat.le_of_eq heq.symm), heq]
  apply max_eq_left
  exact le_greatest (List.mem_map_of_mem (List.mem_of_getElem? hp))

theorem deliveredTarget_eq (hkey : call'.key = call.key) (hwritten : call'.written = call.written) (key : CursorKey) :
    call'.deliveredTarget key = call.deliveredTarget key := by
  unfold MarkCall.deliveredTarget
  rw [hkey, hwritten]

theorem readTarget_eq (hkey : call'.key = call.key) (hmark : call'.mark = call.mark)
    (hwritten : call'.written = call.written) (key : CursorKey) : call'.readTarget key = call.readTarget key := by
  unfold MarkCall.readTarget
  rw [hkey, hmark, hwritten]

/-- A step of a call that writes no row. -/
theorem ReceiptsInv.setCall (h : ReceiptsInv receipts) (hp : receipts.calls[p]? = some call)
    (hkey : call'.key = call.key) (hmark : call'.mark = call.mark) (hwritten : call'.written = call.written)
    (hbound : ∀ target, call'.target = some target →
      target ≤ maximumConversationSequence receipts.messages call'.subject.tenantId call'.conversationId) :
    ReceiptsInv (receipts.setCall p call') where
  delivered key := by
    show deliveredOf receipts.cursors key = greatest ((receipts.calls.set p call').map _)
    rw [greatest_setCall_of_eq _ hp (deliveredTarget_eq hkey hwritten key)]
    exact h.delivered key
  read key := by
    show readOf receipts.cursors key = greatest ((receipts.calls.set p call').map _)
    rw [greatest_setCall_of_eq _ hp (readTarget_eq hkey hmark hwritten key)]
    exact h.read key
  bound other hother target htarget := by
    rcases List.mem_or_eq_of_mem_set hother with hold | rfl
    · exact h.bound other hold target htarget
    · exact hbound target htarget

theorem ReceiptsInv.accepted (h : ReceiptsInv receipts) (message : Message) :
    ReceiptsInv { receipts with messages := receipts.messages ++ [message] } where
  delivered := h.delivered
  read := h.read
  bound call hcall target htarget := le_trans (h.bound call hcall target htarget) (maximum_append _ _ _ _)

theorem ReceiptsInv.called (h : ReceiptsInv receipts) (mark : Mark) (conversationId : String) (sequence : Int)
    (subject : Subject) : ReceiptsInv
      { receipts with calls := receipts.calls ++ [⟨mark, conversationId, sequence, subject, .requested⟩] } where
  delivered key := by
    have hnothing : MarkCall.deliveredTarget key ⟨mark, conversationId, sequence, subject, .requested⟩ = 0 := by
      simp [MarkCall.deliveredTarget, MarkCall.written]
    show deliveredOf receipts.cursors key = _
    rw [List.map_append, List.map_singleton, hnothing, greatest_append_zero]
    exact h.delivered key
  read key := by
    have hnothing : MarkCall.readTarget key ⟨mark, conversationId, sequence, subject, .requested⟩ = 0 := by
      simp [MarkCall.readTarget, MarkCall.written]
    show readOf receipts.cursors key = _
    rw [List.map_append, List.map_singleton, hnothing, greatest_append_zero]
    exact h.read key
  bound call hcall target htarget := by
    rcases List.mem_append.1 hcall with hold | hnew
    · exact h.bound call hold target htarget
    · rw [List.mem_singleton.1 hnew] at htarget
      cases htarget

theorem ReceiptsInv.bounded (h : ReceiptsInv receipts) (hp : receipts.calls[p]? = some call)
    (hstage : call.stage = .requested) (authorized : Except ReadError Unit) :
    ReceiptsInv (receipts.setCall p (call.bound receipts.messages authorized)) := by
  have hnone : call.written = none := by
    unfold MarkCall.written
    rw [hstage]
  unfold MarkCall.bound
  split
  · exact h.setCall hp rfl rfl (by rw [hnone]; rfl) fun target htarget => by cases htarget
  · split
    · exact h.setCall hp rfl rfl (by rw [hnone]; rfl) fun target htarget => by cases htarget
    · rename_i target hbounded
      refine h.setCall hp rfl rfl (by rw [hnone]; rfl) fun target' htarget => ?_
      obtain rfl : target = target' := Option.some.inj htarget
      unfold boundedSequence at hbounded
      split at hbounded
      · rw [← Except.ok.inj hbounded]
        exact min_le_right _ _
      · cases hbounded

theorem ReceiptsInv.upserted (h : ReceiptsInv receipts) (hp : receipts.calls[p]? = some call) {target : Nat}
    (hstage : call.stage = .bounded target) (id : String) (timestamp : Nat) :
    ReceiptsInv { receipts.setCall p { call with stage := .upserted target } with
      cursors := upsert receipts.cursors call.key call.mark target id timestamp } := by
  have hnone : call.written = none := by
    unfold MarkCall.written
    rw [hstage]
  have hold : call.target = some target := by
    unfold MarkCall.target
    rw [hstage]
  constructor
  · intro key
    have hzero : call.deliveredTarget key = 0 := by
      unfold MarkCall.deliveredTarget
      rw [hnone]
      exact ite_self _
    show deliveredOf (upsert _ _ _ _ _ _) key = greatest ((receipts.calls.set p _).map _)
    rw [deliveredOf_upsert, greatest_setCall _ hp (by rw [hzero]; exact Nat.zero_le _), ← h.delivered key]
    show _ = max _ (if call.key = key then target else 0)
    split
    · rfl
    · exact (Nat.max_zero _).symm
  · intro key
    have hzero : call.readTarget key = 0 := by
      unfold MarkCall.readTarget
      rw [hnone]
      exact ite_self _
    show readOf (upsert _ _ _ _ _ _) key = greatest ((receipts.calls.set p _).map _)
    rw [readOf_upsert, greatest_setCall _ hp (by rw [hzero]; exact Nat.zero_le _), ← h.read key]
    show _ = max _ (if call.key = key ∧ call.mark = .read then target else 0)
    by_cases hkey : call.key = key
    · simp [hkey]
    · simp [hkey]
  · intro other hother target' htarget
    rcases List.mem_or_eq_of_mem_set hother with hmem | rfl
    · exact h.bound other hmem target' htarget
    · obtain rfl : target = target' := Option.some.inj htarget
      exact h.bound call (List.mem_of_getElem? hp) target hold

theorem ReceiptsInv.step (h : ReceiptsInv receipts) (event : ReceiptEvent) :
    ReceiptsInv (receipts.step deviceRef event) := by
  cases event with
  | accepted message => exact h.accepted message
  | called mark conversationId sequence subject => exact h.called mark conversationId sequence subject
  | bounded p authorized =>
    simp only [Receipts.step]
    split
    · rename_i call hp
      split
      · rename_i hstage
        exact h.bounded hp hstage authorized
      · exact h
    · exact h
  | upserted p id timestamp =>
    simp only [Receipts.step]
    split
    · rename_i call hp
      split
      · rename_i target hstage
        exact h.upserted hp hstage id timestamp
      · exact h
    · exact h
  | fetched p =>
    simp only [Receipts.step]
    split
    · rename_i call hp
      split
      · rename_i target cursor hstage hget
        have hwritten : call.written = some target := by
          unfold MarkCall.written
          rw [hstage]
        have htarget : call.target = some target := by
          unfold MarkCall.target
          rw [hstage]
        refine h.setCall hp rfl rfl (by rw [hwritten]; rfl) fun target' htarget' => ?_
        obtain rfl : target = target' := Option.some.inj htarget'
        exact h.bound call (List.mem_of_getElem? hp) target htarget
      · exact h
    · exact h

/-- The sequences of a row only grow. -/
theorem row_step (deviceRef : String → String → String) (receipts : Receipts) (event : ReceiptEvent) (key : CursorKey) :
    deliveredOf receipts.cursors key ≤ deliveredOf (receipts.step deviceRef event).cursors key ∧
      readOf receipts.cursors key ≤ readOf (receipts.step deviceRef event).cursors key := by
  have same : ∀ {receipts' : Receipts}, receipts'.cursors = receipts.cursors →
      deliveredOf receipts.cursors key ≤ deliveredOf receipts'.cursors key ∧
        readOf receipts.cursors key ≤ readOf receipts'.cursors key := by
    intro receipts' hsame
    rw [hsame]
    exact ⟨Nat.le_refl _, Nat.le_refl _⟩
  cases event with
  | accepted message => exact same rfl
  | called mark conversationId sequence subject => exact same rfl
  | bounded p authorized =>
    apply same
    simp only [Receipts.step]
    split
    · split <;> rfl
    · rfl
  | upserted p id timestamp =>
    simp only [Receipts.step]
    split
    · split
      · dsimp only
        rw [deliveredOf_upsert, readOf_upsert]
        constructor
        · split
          · exact le_max_left _ _
          · exact Nat.le_refl _
        · split
          · exact le_max_left _ _
          · exact Nat.le_refl _
      · exact same rfl
    · exact same rfl
  | fetched p =>
    apply same
    simp only [Receipts.step]
    split
    · split <;> rfl
    · rfl

/-! ### Runs -/

/-- The state after `i` events. -/
def Receipts.at (deviceRef : String → String → String) (receipts : Receipts) (events : List ReceiptEvent) (i : Nat) :
    Receipts := receipts.run deviceRef (events.take i)

theorem receipts_at_succ (deviceRef : String → String → String) (receipts : Receipts) (events : List ReceiptEvent)
    (i : Nat) : receipts.at deviceRef events (i + 1) = receipts.at deviceRef events i ∨
      ∃ event, receipts.at deviceRef events (i + 1) = (receipts.at deviceRef events i).step deviceRef event := by
  unfold Receipts.at Receipts.run
  rw [List.take_add_one]
  cases events[i]? with
  | none => exact .inl (by rw [Option.toList_none, List.append_nil])
  | some event => exact .inr ⟨event, by rw [Option.toList_some, List.foldl_append]; rfl⟩

theorem receiptsInv_at (deviceRef : String → String → String) (h : ReceiptsInv receipts) (events : List ReceiptEvent) (i : Nat) :
    ReceiptsInv (receipts.at deviceRef events i) := by
  induction i with
  | zero => exact h
  | succ i ih =>
    rcases receipts_at_succ deviceRef receipts events i with hsame | ⟨event, hstep⟩
    · rw [hsame]
      exact ih
    · rw [hstep]
      exact ih.step event

/-- The receipts of a run are monotone joins: the row of a device never goes back, is ordered and bounded, and has the
greatest targets of the calls, whatever their order. -/
structure Join (deviceRef : String → String → String) (receipts : Receipts) (events : List ReceiptEvent) : Prop where
  delivered_mono : ∀ i j, i ≤ j → ∀ key, deliveredOf (receipts.at deviceRef events i).cursors key ≤
    deliveredOf (receipts.at deviceRef events j).cursors key
  read_mono : ∀ i j, i ≤ j → ∀ key, readOf (receipts.at deviceRef events i).cursors key ≤
    readOf (receipts.at deviceRef events j).cursors key
  read_le : ∀ i key, readOf (receipts.at deviceRef events i).cursors key ≤
    deliveredOf (receipts.at deviceRef events i).cursors key
  delivered_le : ∀ i key, deliveredOf (receipts.at deviceRef events i).cursors key ≤
    maximumConversationSequence (receipts.at deviceRef events i).messages key.tenantId key.conversationId
  delivered_eq : ∀ i key, deliveredOf (receipts.at deviceRef events i).cursors key =
    greatest ((receipts.at deviceRef events i).calls.map (MarkCall.deliveredTarget key))
  read_eq : ∀ i key, readOf (receipts.at deviceRef events i).cursors key =
    greatest ((receipts.at deviceRef events i).calls.map (MarkCall.readTarget key))

theorem ReceiptsInv.read_le (h : ReceiptsInv receipts) (key : CursorKey) :
    readOf receipts.cursors key ≤ deliveredOf receipts.cursors key := by
  rw [h.read, h.delivered]
  apply greatest_le
  intro target htarget
  obtain ⟨call, hcall, rfl⟩ := List.mem_map.1 htarget
  refine le_trans ?_ (le_greatest (List.mem_map_of_mem hcall))
  unfold MarkCall.readTarget MarkCall.deliveredTarget
  split
  · rename_i hread
    rw [if_pos hread.1]
  · exact Nat.zero_le _

theorem ReceiptsInv.delivered_le (h : ReceiptsInv receipts) (key : CursorKey) : deliveredOf receipts.cursors key ≤
    maximumConversationSequence receipts.messages key.tenantId key.conversationId := by
  rw [h.delivered]
  apply greatest_le
  intro target htarget
  obtain ⟨call, hcall, rfl⟩ := List.mem_map.1 htarget
  unfold MarkCall.deliveredTarget
  split
  · rename_i hkey
    cases hwritten : call.written with
    | none => exact Nat.zero_le _
    | some target =>
      rw [← hkey]
      apply h.bound call hcall target
      unfold MarkCall.written at hwritten
      unfold MarkCall.target
      cases hstage : call.stage with
      | upserted target' =>
        rw [hstage] at hwritten
        exact hwritten
      | replied target' view =>
        rw [hstage] at hwritten
        exact hwritten
      | _ =>
        rw [hstage] at hwritten
        cases hwritten
  · exact Nat.zero_le _

/-- No calls yet. -/
def noReceipts (messages : List Message) : Receipts := ⟨messages, OrderedMap.empty, []⟩

theorem receipts_join (deviceRef : String → String → String) (messages : List Message) (events : List ReceiptEvent) :
    Join deviceRef (noReceipts messages) events := by
  have hinitial : ReceiptsInv (noReceipts messages) := ⟨fun _ => rfl, fun _ => rfl, fun call hcall => by cases hcall⟩
  have hinv := fun i => receiptsInv_at deviceRef hinitial events i
  have hmono : ∀ i j, i ≤ j → ∀ key, deliveredOf ((noReceipts messages).at deviceRef events i).cursors key ≤
      deliveredOf ((noReceipts messages).at deviceRef events j).cursors key ∧
      readOf ((noReceipts messages).at deviceRef events i).cursors key ≤
      readOf ((noReceipts messages).at deviceRef events j).cursors key := by
    intro i j hij key
    induction hij with
    | refl => exact ⟨Nat.le_refl _, Nat.le_refl _⟩
    | step _ ih =>
      rename_i j _
      rcases receipts_at_succ deviceRef (noReceipts messages) events j with hsame | ⟨event, hstep⟩
      · rw [Nat.succ_eq_add_one, hsame]
        exact ih
      · rw [Nat.succ_eq_add_one, hstep]
        have hrow := row_step deviceRef ((noReceipts messages).at deviceRef events j) event key
        exact ⟨le_trans ih.1 hrow.1, le_trans ih.2 hrow.2⟩
  exact ⟨fun i j hij key => (hmono i j hij key).1, fun i j hij key => (hmono i j hij key).2,
    fun i => (hinv i).read_le, fun i => (hinv i).delivered_le, fun i => (hinv i).delivered, fun i => (hinv i).read⟩

end KComms.Messaging
