import KComms.Lib.ExclusiveRows
import KComms.Telephony.Lifecycle

/-!
# Who takes a call (`Telephony.Routing`)

Admission and offers read the calls that are there, and what the administrators and the users have set: the numbers,
the routes, the menus and who is available (`RoutingReads`).  All of that but the calls may be different each time.
-/

namespace KComms.Telephony

structure Number where
  id : String
  tenantId : String
  userId : String
  phoneNumber : String
  inboundTrunkId : String
  outboundTrunkId : String
  deriving DecidableEq, Repr

inductive RouteMode
  | queue | sharedLine
  deriving DecidableEq, Repr

inductive RoutePolicy
  | roundRobin | simultaneous
  deriving DecidableEq, Repr

structure Route where
  id : String
  tenantId : String
  numberId : String
  mode : RouteMode
  policy : RoutePolicy
  memberIds : List String
  maxWaiting : Nat
  maxWaitSeconds : Nat
  enabled : Bool
  cursor : Nat
  deriving DecidableEq, Repr

structure IvrMenu where
  numberId : String
  enabled : Bool
  snapshot : Snapshot

structure RoutingReads where
  now : Int
  numbers : List Number
  routes : List Route
  menus : List IvrMenu
  /-- `lock_active_human_directory_users`, for a user of the tenant. -/
  activeHuman : String → Bool
  /-- The delivery availability and the contact center. -/
  ready : String → Bool
  queues : Bool
  sharedLines : Bool
  allowAudioCalls : Bool
  ivrReady : Bool
  approvedPrompt : String → Bool

def RoutingReads.supports (reads : RoutingReads) : RouteMode → Bool
  | .queue => reads.queues
  | .sharedLine => reads.sharedLines

/-- `active_user_call?` -/
def activeUserCall (calls : List CallRecord) (tenantId userId : String) : Bool :=
  calls.any fun record => record.call.tenantId = tenantId && record.call.userId = userId && record.call.ofUser

section

-- A user is a row of one tenant.
variable (tenantOf : String → String)

/-- `lock_active_human_directory_users` gives the user. -/
def RoutingReads.active (reads : RoutingReads) (tenantId userId : String) : Bool :=
  tenantOf userId = tenantId && reads.activeHuman userId

/-- `available?` -/
def RoutingReads.available (reads : RoutingReads) (tenantId userId : String) : Bool :=
  reads.active tenantOf tenantId userId && reads.ready userId

def candidates (reads : RoutingReads) (calls : List CallRecord) (route : Route) : List String :=
  let rotated := route.memberIds.drop route.cursor ++ route.memberIds.take route.cursor
  rotated.filter fun userId =>
    reads.active tenantOf route.tenantId userId && reads.available tenantOf route.tenantId userId &&
      !activeUserCall calls route.tenantId userId

def waitsFor (route : Route) (call : Call) : Bool :=
  call.routeId = some route.id && call.routingStatus = .waiting && call.status = .ringing

/-- `admission`; the cursor that an offer moves on is part of the route, which the next transaction reads anew. -/
def admission (reads : RoutingReads) (calls : List CallRecord) (number : Number) : RoutingAdmission :=
  match reads.routes.find? fun route => route.numberId = number.id && route.enabled with
  | none =>
    { userId := number.userId, routeId := none, routingStatus := .individual, offeredUserIds := []
      routeExpiresAt := none, eligible := reads.available tenantOf number.tenantId number.userId }
  | some route =>
    let waiting := (calls.filter fun record => waitsFor route record.call).length
    let expiry := reads.now + seconds route.maxWaitSeconds
    let unavailable : RoutingAdmission :=
      { userId := number.userId, routeId := some route.id, routingStatus := .unavailable, offeredUserIds := []
        routeExpiresAt := some expiry, eligible := false }
    let queued : RoutingAdmission :=
      { userId := number.userId, routeId := some route.id, routingStatus := .waiting, offeredUserIds := []
        routeExpiresAt := some expiry, eligible := true }
    if !reads.supports route.mode || route.maxWaiting ≤ waiting then unavailable
    else
      match candidates tenantOf reads calls route with
      | [] => if route.mode = .sharedLine then unavailable else queued
      | first :: others =>
        if route.mode = .queue && 0 < waiting then queued
        else
          { userId := first, routeId := some route.id, routingStatus := .offered
            offeredUserIds := if route.policy = .simultaneous then first :: others else [first]
            routeExpiresAt := some expiry, eligible := true }

/-- `eligible_recipient?` -/
def eligibleRecipient (reads : RoutingReads) (call : Call) (grant : Grant) : Bool :=
  if call.routingStatus.parked then false
  else
    match call.routeId with
    | none => reads.available tenantOf call.tenantId grant.userId
    | some routeId =>
      if call.routingStatus ≠ .offered ∧ call.routingStatus ≠ .claimed then false
      else
        match reads.routes.find? (·.id = routeId) with
        | none => false
        | some route =>
          route.enabled && route.memberIds.contains grant.userId &&
            (call.routingStatus = .claimed || call.offeredUserIds.contains grant.userId) &&
            reads.available tenantOf call.tenantId grant.userId

/-- An older call waits for the route. -/
def olderWaiting (calls : List CallRecord) (route : Route) (call : Call) : Bool :=
  calls.any fun record =>
    waitsFor route record.call &&
      (record.call.startedAt < call.startedAt ||
        (record.call.startedAt = call.startedAt && record.call.id < call.id))

/-- The candidate whom `advance` offers a waiting call. -/
def selectCandidate (reads : RoutingReads) (calls : List CallRecord) (route : Route) (call : Call) : Option String :=
  if olderWaiting calls route call then none else (candidates tenantOf reads calls route).head?

/-! ### Who is selected has no other call -/

variable {tenantOf}

/-- The user whose call it is, if it is one. -/
def CallRecord.holder (record : CallRecord) : Option String :=
  if record.call.ofUser then some record.call.userId else none

@[simp] theorem CallRecord.holder_eq_some {record : CallRecord} {userId : String} :
    record.holder = some userId ↔ record.call.ofUser = true ∧ record.call.userId = userId := by
  simp [CallRecord.holder]

/-- The tenant of a call is that of its user, as the foreign key of the table has it. -/
def CallRecord.Owned (tenantOf : String → String) (record : CallRecord) : Prop :=
  tenantOf record.call.userId = record.call.tenantId

variable {reads : RoutingReads} {calls : List CallRecord}

theorem free_of_not_activeUserCall {tenantId userId : String}
    (howned : ∀ record ∈ calls, record.Owned tenantOf) (htenant : tenantOf userId = tenantId)
    (hbusy : activeUserCall calls tenantId userId = false) : Free CallRecord.holder calls userId := by
  intro record hrecord hholder
  rw [CallRecord.holder_eq_some] at hholder
  obtain ⟨hof, huser⟩ := hholder
  have hsame : record.call.tenantId = tenantId := by
    rw [← howned record hrecord, huser, htenant]
  simp only [activeUserCall, List.any_eq_false, Bool.and_eq_true, decide_eq_true_eq, not_and] at hbusy
  exact hbusy record hrecord ⟨hsame, huser⟩ hof

theorem free_of_mem_candidates {route : Route} {userId : String} (howned : ∀ record ∈ calls, record.Owned tenantOf)
    (h : userId ∈ candidates tenantOf reads calls route) : Free CallRecord.holder calls userId := by
  simp only [candidates, List.mem_filter, Bool.and_eq_true, Bool.not_eq_true', RoutingReads.active,
    decide_eq_true_eq] at h
  exact free_of_not_activeUserCall howned h.2.1.1.1 h.2.2

theorem free_of_selectCandidate {route : Route} {call : Call} {userId : String}
    (howned : ∀ record ∈ calls, record.Owned tenantOf)
    (h : selectCandidate tenantOf reads calls route call = some userId) : Free CallRecord.holder calls userId := by
  unfold selectCandidate at h
  split at h
  · cases h
  · exact free_of_mem_candidates howned (List.mem_of_mem_head? h)

/-- A route admits a call to wait, or offers it to a user without a call. -/
theorem admission_of_route {number : Number} {routeId : String} (howned : ∀ record ∈ calls, record.Owned tenantOf)
    (heligible : (admission tenantOf reads calls number).eligible = true)
    (hroute : (admission tenantOf reads calls number).routeId = some routeId) :
    (admission tenantOf reads calls number).routingStatus.parked = true ∨
      Free CallRecord.holder calls (admission tenantOf reads calls number).userId := by
  unfold admission at heligible hroute ⊢
  split
  · rename_i hnone
    rw [hnone] at hroute
    cases hroute
  rename_i route hsome
  rw [hsome] at heligible
  dsimp only at heligible ⊢
  split
  · rename_i hunsupported
    rw [if_pos hunsupported] at heligible
    cases heligible
  rename_i hsupported
  rw [if_neg hsupported] at heligible
  split
  · rename_i hempty
    rw [hempty] at heligible
    dsimp only at heligible
    split
    · rename_i hshared
      rw [if_pos hshared] at heligible
      cases heligible
    · exact .inl rfl
  · rename_i first others hfound
    split
    · exact .inl rfl
    · right
      have hfirst : first ∈ candidates tenantOf reads calls route := by
        rw [hfound]
        exact List.mem_cons_self
      exact free_of_mem_candidates howned hfirst

end

end KComms.Telephony
