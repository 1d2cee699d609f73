import KComms.Telephony.Lifecycle

/-!
# What the transactions on a call can do

Of a call only its core decides whose call it is: `CallChange` lists, once, all the ways in which a transaction can
change the core and the run of the menu, and `apply_changes` says that these are all.  `free` are the users for whom
the transaction has found no other call.
-/

namespace KComms.Telephony

structure CallCore where
  id : String
  tenantId : String
  userId : String
  direction : Direction
  status : CallStatus
  routingStatus : RoutingStatus
  offeredUserIds : List String
  answerSessionId : Option String
  expiresAt : Int
  providerRoom : String
  deriving DecidableEq

def Call.core (call : Call) : CallCore where
  id := call.id
  tenantId := call.tenantId
  userId := call.userId
  direction := call.direction
  status := call.status
  routingStatus := call.routingStatus
  offeredUserIds := call.offeredUserIds
  answerSessionId := call.answerSessionId
  expiresAt := call.expiresAt
  providerRoom := call.providerRoom

/-- The deadline of the run, if there is one, bounds the new deadline of the call. -/
def WithinDeadline (ivr : Option IvrRun) (expiresAt : Int) : Prop := ∀ run ∈ ivr, expiresAt ≤ run.expiresAt

inductive CallChange (free : String → Prop) : CallCore → Option IvrRun → CallCore → Option IvrRun → Prop
  | kept {core ivr} : CallChange free core ivr core ivr
  | shortened {core ivr expiresAt} (earlier : expiresAt ≤ core.expiresAt) :
    CallChange free core ivr { core with expiresAt := expiresAt } ivr
  | finished {core ivr status} (now : Int) (before : core.status.active = true) (inactive : status.active = false) :
    CallChange free core ivr { core with status := status } (ivr.map (IvrRun.cancel · now))
  | answered {core ivr expiresAt} (before : core.status = .ringing) (within : WithinDeadline ivr expiresAt) :
    CallChange free core ivr { core with status := .answered, expiresAt := expiresAt } ivr
  | claimed {core ivr} {userId sessionId : String} {routingStatus expiresAt} (before : core.status.active = true)
    (unparked : core.routingStatus.parked = false) (still : routingStatus.parked = false)
    (own : userId = core.userId ∨ userId ∈ core.offeredUserIds)
    (first : core.direction = .inbound → core.answerSessionId = none → userId = core.userId ∨ free userId)
    (earlier : expiresAt ≤ core.expiresAt) :
    CallChange free core ivr
      { core with
        userId := userId, routingStatus := routingStatus, offeredUserIds := [], answerSessionId := some sessionId
        expiresAt := expiresAt } ivr
  | offered {core ivr userId} (before : core.status = .ringing) (waiting : core.routingStatus = .waiting)
    (unused : free userId) :
    CallChange free core ivr { core with userId := userId, offeredUserIds := [userId], routingStatus := .offered } ivr
  | captured {core ivr userId expiresAt} (before : core.status = .ringing) (waiting : core.routingStatus = .waiting)
    (within : WithinDeadline ivr expiresAt) :
    CallChange free core ivr
      { core with routingStatus := .voicemail, userId := userId, offeredUserIds := [], expiresAt := expiresAt } ivr

def CallRecord.ChangesTo (free : String → Prop) (record record' : CallRecord) : Prop :=
  CallChange free record.call.core record.ivr record'.call.core record'.ivr

/-- The users that a transaction has found to have no call. -/
def CallCommand.free : CallCommand → String → Prop
  | .credential _ grant _ _ _ busy _, userId => busy = false ∧ userId = grant.userId
  | .offer selected _ _, userId => selected = some userId
  | _, _ => False

/-! ### The transactions -/

variable {now : Int} {reads : EventReads} {core core' : CallCore} {ivr ivr' : Option IvrRun}

section

variable {free : String → Prop} {record record' : CallRecord}

private theorem changes_of_core (hcore : record'.call.core = record.call.core) (hivr : record'.ivr = record.ivr) :
    record.ChangesTo free record' := by
  unfold CallRecord.ChangesTo
  rw [hcore, hivr]
  exact .kept

theorem earliestExpiry_le_left (first : Int) (second : Option Int) : earliestExpiry first second ≤ first := by
  cases second with
  | none => exact Int.le_refl _
  | some second =>
    simp only [earliestExpiry]
    split <;> omega

theorem earliestExpiry_le_right {first second : Int} : earliestExpiry first (some second) ≤ second := by
  simp only [earliestExpiry]
  split <;> omega

theorem unansweredOutcome_ended (call : Call) (reason : String) :
    (unansweredOutcome call reason).1.active = false := by
  unfold unansweredOutcome
  split
  · rfl
  split <;> rfl

private theorem finish_changes {status : CallStatus} {reason : String} (hactive : record.call.active = true)
    (hover : status.active = false) :
    record.ChangesTo free (finish record status reason now) :=
  .finished now hactive hover

private theorem finishUnanswered_changes {reason : String} (hactive : record.call.active = true) :
    record.ChangesTo free (finishUnanswered record reason now) :=
  .finished now hactive (unansweredOutcome_ended _ _)

private theorem expireCall_changes (hactive : record.call.active = true) :
    record.ChangesTo free (expireCall record now) := by
  have hover := unansweredOutcome_ended record.call "ring_timeout"
  unfold expireCall
  generalize unansweredOutcome record.call "ring_timeout" = outcome at hover
  obtain ⟨status, defaultReason⟩ := outcome
  exact .finished now hactive hover

private theorem answered_changes {call : Call} {answerGrant : Option (Option Int)} {maximumSeconds : Int}
    (hcore : call.core = record.call.core) (hactive : call.active = true)
    (h : answerConnected { record with call := call } answerGrant maximumSeconds now = some record') :
    record.ChangesTo free record' := by
  unfold CallRecord.ChangesTo
  rw [← hcore]
  unfold answerConnected at h
  split at h
  · cases h
    exact .kept
  rename_i hanswered
  cases answerGrant with
  | none => cases h
  | some effectiveExpiresAt =>
    cases h
    have hringing : call.status = .ringing := by
      simp only [Call.active, CallStatus.active, Bool.or_eq_true, decide_eq_true_eq] at hactive
      exact hactive.resolve_right hanswered
    refine .answered hringing ?_
    intro run hrun
    rw [Option.mem_def] at hrun
    simp only [CallRecord.originalDeadline, hrun, Option.map_some]
    exact earliestExpiry_le_right

private theorem appJoined_changes (reads : EventReads) (record : CallRecord) (sid : String) (occurredAt : Int) :
    record.ChangesTo free (appJoined reads record sid occurredAt) := by
  unfold appJoined
  simp only
  split
  · exact .kept
  split
  · exact changes_of_core rfl rfl
  · exact changes_of_core rfl rfl

private theorem appLeft_changes (reads : EventReads) (sid : String) (occurredAt : Int)
    (hactive : record.call.active = true) : record.ChangesTo free (appLeft reads record sid occurredAt) := by
  unfold appLeft
  simp only
  split
  · exact changes_of_core rfl rfl
  split
  · exact .kept
  split
  · exact .finished reads.reads.now hactive (unansweredOutcome_ended _ _)
  split
  · exact .kept
  split
  · exact changes_of_core rfl rfl
  split
  · exact finishUnanswered_changes hactive
  · exact changes_of_core rfl rfl

private theorem applyRoomEvent_changes {event : ProviderEvent} (hactive : record.call.active = true)
    (h : applyRoomEvent reads event record = some record') :
    record.ChangesTo free record' := by
  unfold applyRoomEvent at h
  simp only at h
  split at h
  · split at h
    · rw [Option.map_eq_some_iff] at h
      obtain ⟨epoch, -, rfl⟩ := h
      exact appJoined_changes _ _ _ _
    · cases h
      exact .kept
  · split at h
    · exact answered_changes rfl hactive h
    · cases h
      exact .kept
  · split at h
    · rw [Option.map_eq_some_iff] at h
      obtain ⟨epoch, -, rfl⟩ := h
      exact appLeft_changes _ _ _ hactive
    · cases h
      exact finishUnanswered_changes hactive
  · cases h
    exact finish_changes hactive rfl
  · cases h
    exact finishUnanswered_changes hactive
  · cases h
    exact finish_changes hactive rfl

private theorem callback_changes {event : ProviderEvent}
    (h : callback reads event record = some record') : record.ChangesTo free record' := by
  unfold callback at h
  simp only at h
  split at h
  · cases h
    exact .kept
  split at h
  · cases h
  split at h
  · split at h
    · cases h
      exact changes_of_core rfl rfl
    · cases h
      exact .kept
  rename_i hactive
  rw [Bool.not_eq_true, Bool.not_eq_false'] at hactive
  split at h
  · cases h
    exact expireCall_changes hactive
  split at h
  · unfold applyEvent at h
    split at h
    · cases h
      exact .kept
    · exact applyRoomEvent_changes hactive h
  · cases h
    exact finish_changes hactive rfl

private theorem credential_changes {operation : CredentialOperation} {grant : Grant} {identity : String}
    {reads : CallReads} {eligible busy issued : Bool}
    (h : credential operation grant identity reads eligible busy issued record = some record') :
    record.ChangesTo (CallCommand.credential operation grant identity reads eligible busy issued).free record' := by
  unfold credential at h
  simp only at h
  split at h
  · cases h
  rename_i hown
  split at h
  · cases h
  rename_i hactive
  split at h
  · cases h
  split at h
  · cases h
  split at h
  · cases h
  split at h
  · cases h
  split at h
  · cases h
  rename_i hbusy
  split at h
  · cases h
  cases h
  simp only [ownCall, Bool.not_eq_true', Bool.not_eq_false, Bool.and_eq_true, decide_eq_true_eq, Bool.or_eq_true,
    List.contains_iff_mem] at hown
  simp only [Bool.or_eq_true, Bool.not_eq_true', not_or, Bool.not_eq_false] at hactive
  refine .claimed hactive.1 hown.1.2 ?_ ?_ ?_ (earliestExpiry_le_left _ _)
  · split
    · rfl
    · exact hown.1.2
  · rcases hown.2 with huser | hoffered
    · exact .inl huser.symm
    · exact .inr hoffered.2
  · intro hinbound hsession
    by_cases huser : record.call.userId = grant.userId
    · exact .inl huser.symm
    · right
      refine ⟨?_, rfl⟩
      simp only [Bool.and_eq_true, Bool.or_eq_true, Bool.not_eq_true', decide_eq_true_eq, not_and, not_or,
        Bool.not_eq_true, Bool.not_eq_false] at hbusy
      exact (hbusy ⟨hinbound, hsession⟩).2 (by simpa using huser)

private theorem terminate_changes {desired : Termination} {grant : Grant}
    (h : terminate desired grant now record = some record') : record.ChangesTo free record' := by
  unfold terminate at h
  simp only at h
  split at h
  · cases h
  split at h
  · cases h
    exact .kept
  rename_i hactive
  rw [Bool.not_eq_true, Bool.not_eq_false'] at hactive
  cases desired with
  | declined =>
    simp only at h
    split at h
    · cases h
    · cases h
      exact finish_changes hactive rfl
  | ended =>
    simp only at h
    split at h
    · cases h
    split at h
    · cases h
      exact finish_changes hactive rfl
    · cases h
      exact finish_changes hactive rfl

private theorem claimDispatch_changes (reads : CallReads) (leaseActive : Bool) (record : CallRecord) :
    record.ChangesTo free (claimDispatch reads leaseActive record) := by
  unfold claimDispatch
  simp only
  split
  · exact .kept
  rename_i hactive
  rw [Bool.not_eq_true, Bool.not_eq_false'] at hactive
  split
  · exact expireCall_changes hactive
  split
  · exact .kept
  · exact changes_of_core rfl rfl

private theorem correlateLateAnswer_core (call : Call) (result : DispatchResult) :
    (correlateLateAnswer call result).core = call.core := by
  cases result with
  | ok details =>
    simp only [correlateLateAnswer]
    split <;> rfl
  | _ => rfl

private theorem completeDispatch_changes {result : DispatchResult}
    (h : completeDispatch reads result record = some record') : record.ChangesTo free record' := by
  unfold completeDispatch at h
  simp only at h
  split at h
  · cases h
    exact changes_of_core (correlateLateAnswer_core record.call result) rfl
  rename_i hactive
  rw [Bool.not_eq_true, Bool.not_eq_false'] at hactive
  split at h
  · cases h
    have hcore := correlateLateAnswer_core record.call result
    have hexpired : ({ record with call := correlateLateAnswer record.call result } : CallRecord).ChangesTo free
        (expireCall { record with call := correlateLateAnswer record.call result } reads.reads.now) :=
      expireCall_changes ((congrArg (fun core => core.status.active) hcore).trans hactive)
    unfold CallRecord.ChangesTo at hexpired ⊢
    simp only [hcore] at hexpired
    exact hexpired
  split at h
  · split at h
    · cases h
      exact changes_of_core rfl rfl
    · cases h
      exact .kept
  · split at h
    · rename_i details _
      have hcore : (dispatchStarted record.call details).core = record.call.core := rfl
      exact answered_changes hcore hactive h
    · cases h
      exact finish_changes hactive rfl
  · cases h
    exact finishUnanswered_changes hactive
  · cases h
    exact finish_changes hactive rfl
  · cases h
    exact finish_changes hactive rfl
  · cases h
    exact finish_changes hactive rfl
  · cases h
    exact finish_changes hactive rfl

private theorem expire_changes (reads : CallReads) (remoteEnded : Bool) (record : CallRecord) :
    record.ChangesTo free (expire reads remoteEnded record) := by
  unfold expire
  simp only
  split
  · exact .kept
  rename_i hactive
  rw [Bool.not_eq_true, Bool.not_eq_false'] at hactive
  split
  · exact finish_changes hactive rfl
  split
  · split
    · exact finish_changes hactive rfl
    · exact .kept
  split
  · exact .kept
  split
  · exact .kept
  · exact expireCall_changes hactive

private theorem claimCleanup_changes (leaseActive : Bool) (now : Int) (record : CallRecord) :
    record.ChangesTo free (claimCleanup leaseActive now record) := by
  unfold claimCleanup
  split
  · exact .kept
  · exact changes_of_core rfl rfl

private theorem completeCleanup_changes (clean leaseActive : Bool) (now : Int) (record : CallRecord) :
    record.ChangesTo free (completeCleanup clean leaseActive now record) := by
  unfold completeCleanup
  simp only
  split
  · exact changes_of_core rfl rfl
  split
  · split <;> exact changes_of_core rfl rfl
  · exact changes_of_core rfl rfl

private theorem expireRoute_changes (now : Int) (record : CallRecord) :
    record.ChangesTo free (expireRoute now record) := by
  unfold expireRoute
  split
  · rename_i h
    rw [Bool.and_eq_true] at h
    exact finish_changes h.1 rfl
  · exact .kept

private theorem revoke_changes (reason : String) (now : Int) (record : CallRecord) :
    record.ChangesTo free (revoke reason now record) := by
  unfold revoke
  split
  · exact finish_changes ‹_› rfl
  · exact .kept

private theorem revokeDispatch_changes (now : Int) (record : CallRecord) :
    record.ChangesTo free (revokeDispatch now record) := by
  unfold revokeDispatch
  split
  · exact finish_changes ‹_› rfl
  · exact .kept

private theorem offer_changes (selected : Option String) (ready : Bool) (now : Int) (record : CallRecord) :
    record.ChangesTo (CallCommand.offer selected ready now).free (offer selected ready now record) := by
  unfold offer
  simp only
  split
  · exact .kept
  rename_i hcall
  split
  · exact .kept
  split
  · exact .kept
  · simp only [ne_eq, decide_not, Bool.or_eq_true, Bool.not_eq_true', decide_eq_false_iff_not, not_or,
      not_not] at hcall
    exact .offered hcall.1 hcall.2 rfl

private theorem captureMonitor_changes (deadline : Int) (record : CallRecord) :
    record.ChangesTo free (captureMonitor deadline record) := by
  unfold captureMonitor
  split
  · refine .shortened ?_
    show (if record.call.expiresAt < deadline then record.call.expiresAt else deadline) ≤ record.call.expiresAt
    split <;> omega
  · exact .kept

private theorem queueVoicemail_changes {userId : String} {recordingDeadline : Int} {queued : Bool}
    (h : queueVoicemail userId recordingDeadline now queued record = some record') : record.ChangesTo free record' := by
  have hmonitored : record.ChangesTo free (captureMonitor recordingDeadline record) := captureMonitor_changes _ _
  have hcore : (captureMonitor recordingDeadline record).call.core =
      { record.call.core with expiresAt := (captureMonitor recordingDeadline record).call.expiresAt } ∧
      (captureMonitor recordingDeadline record).ivr = record.ivr := by
    unfold captureMonitor
    split <;> exact ⟨rfl, rfl⟩
  unfold queueVoicemail at h
  simp only at h
  generalize captureMonitor recordingDeadline record = monitored at h hmonitored hcore
  obtain ⟨hcore, hivr⟩ := hcore
  split at h
  · cases h
  rename_i hcall
  simp only [ne_eq, decide_not, Bool.or_eq_true, Bool.not_eq_true', decide_eq_false_iff_not, not_or,
    not_not] at hcall
  split at h
  · cases h
  split at h
  · cases h
    exact hmonitored
  · cases h
    have hringing : record.call.core.status = .ringing := (congrArg CallCore.status hcore).symm.trans hcall.1
    have hwaiting : record.call.core.routingStatus = .waiting :=
      (congrArg CallCore.routingStatus hcore).symm.trans hcall.2
    have hwithin : WithinDeadline record.ivr
        (captureDeadline recordingDeadline monitored.call.expiresAt monitored.originalDeadline) := by
      intro run hrun
      rw [Option.mem_def] at hrun
      simp only [CallRecord.originalDeadline, hivr, hrun, Option.map_some]
      exact Int.min_le_right _ _
    have hcaptured : CallChange free record.call.core record.ivr
        { record.call.core with
          routingStatus := .voicemail, userId := userId, offeredUserIds := []
          expiresAt := captureDeadline recordingDeadline monitored.call.expiresAt monitored.originalDeadline }
        record.ivr := .captured hringing hwaiting hwithin
    unfold CallRecord.ChangesTo
    simp only [hivr]
    convert hcaptured using 1
    simp only [Call.core, CallCore.mk.injEq] at hcore ⊢
    simp [hcore]

/-- Everything that a transaction can do to the core of its call and to the run. -/
theorem apply_changes {command : CallCommand} (h : command.apply record = some record') :
    record.ChangesTo command.free record' := by
  cases command with
  | credential operation grant identity reads eligible busy issued => exact credential_changes h
  | terminate desired grant now => exact terminate_changes h
  | callback reads event => exact callback_changes h
  | claimDispatch reads leaseActive =>
    cases h
    exact claimDispatch_changes _ _ _
  | completeDispatch reads result => exact completeDispatch_changes h
  | expire reads remoteEnded =>
    cases h
    exact expire_changes _ _ _
  | claimCleanup leaseActive now =>
    cases h
    exact claimCleanup_changes _ _ _
  | completeCleanup clean leaseActive now =>
    cases h
    exact completeCleanup_changes _ _ _ _
  | expireRoute now =>
    cases h
    exact expireRoute_changes _ _
  | revoke reason now =>
    cases h
    exact revoke_changes _ _ _
  | revokeDispatch now =>
    cases h
    exact revokeDispatch_changes _ _
  | offer selected ready now =>
    cases h
    exact offer_changes _ _ _ _
  | queueVoicemail userId recordingDeadline now queued => exact queueVoicemail_changes h
  | bindControl controlState pbxState =>
    cases h
    exact changes_of_core rfl rfl
  | captureMonitor deadline =>
    cases h
    exact captureMonitor_changes _ _

end

/-! ### What no transaction does -/

/-- The status of a call that is over never changes, and its run is not written. -/
theorem CallChange.inactive {free : String → Prop} (h : CallChange free core ivr core' ivr')
    (hover : core.status.active = false) :
    core'.status = core.status ∧ ivr' = ivr := by
  cases h with
  | kept => exact ⟨rfl, rfl⟩
  | shortened earlier => exact ⟨rfl, rfl⟩
  | finished now before inactive =>
    rw [hover] at before
    cases before
  | answered before within =>
    rw [before] at hover
    cases hover
  | claimed before unparked still own first earlier => exact ⟨rfl, rfl⟩
  | offered before waiting unused => exact ⟨rfl, rfl⟩
  | captured before waiting within => exact ⟨rfl, rfl⟩

/-- The run is only ever cancelled, and then the call is over. -/
theorem CallChange.run {free : String → Prop} (h : CallChange free core ivr core' ivr') :
    ivr' = ivr ∨ core'.status.active = false ∧ ∃ now, ivr' = ivr.map (IvrRun.cancel · now) := by
  cases h with
  | finished now before inactive => exact .inr ⟨inactive, now, rfl⟩
  | _ => exact .inl rfl

/-- The deadline of a call stays within that of its run. -/
theorem CallChange.within {free : String → Prop} (h : CallChange free core ivr core' ivr')
    (hwithin : WithinDeadline ivr core.expiresAt) :
    WithinDeadline ivr core'.expiresAt := by
  cases h with
  | kept => exact hwithin
  | shortened earlier => exact fun run hrun => Int.le_trans earlier (hwithin run hrun)
  | finished now before inactive => exact hwithin
  | answered before within => exact within
  | claimed before unparked still own first earlier => exact fun run hrun => Int.le_trans earlier (hwithin run hrun)
  | offered before waiting unused => exact hwithin
  | captured before waiting within => exact within

end KComms.Telephony
