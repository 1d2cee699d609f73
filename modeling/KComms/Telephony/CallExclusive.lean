import KComms.Telephony.CallSystem
import Mathlib.Data.List.Nodup

/-!
# A user has one call (`Telephony`)

Every transaction on the table is an insertion or a change of one row (`CallsChange`).  A row takes a user only where
the transaction has found no other call of the user; a call that is over stays over.
-/

namespace KComms.Telephony

open Attempt

/-- Whoever has taken a call was the last to be offered it, and a menu that still runs keeps its call parked. -/
structure CoreInvariant (core : CallCore) (ivr : Option IvrRun) : Prop where
  taken : core.answerSessionId ≠ none ∨ core.direction = .outbound →
    core.offeredUserIds = [] ∧ core.routingStatus ≠ .waiting ∧ core.routingStatus ≠ .ivr
  menu : ∀ run ∈ ivr, run.phase.terminal = false → core.status.active = true → core.routingStatus = .ivr

/-! ### The transactions on one call -/

section

variable {free : String → Prop} {core core' : CallCore} {ivr ivr' : Option IvrRun}

theorem CallChange.sameCall (h : CallChange free core ivr core' ivr') :
    core'.id = core.id ∧ core'.tenantId = core.tenantId ∧ core'.providerRoom = core.providerRoom := by
  cases h <;> exact ⟨rfl, rfl, rfl⟩

theorem CallChange.coreInvariant (h : CallChange free core ivr core' ivr') (inv : CoreInvariant core ivr) :
    CoreInvariant core' ivr' := by
  cases h with
  | kept => exact inv
  | shortened earlier => exact ⟨inv.taken, inv.menu⟩
  | finished now before inactive =>
    refine ⟨inv.taken, fun run _ _ hactive => ?_⟩
    rw [inactive] at hactive
    cases hactive
  | answered before within =>
    refine ⟨inv.taken, fun run hrun hlive _ => inv.menu run hrun hlive ?_⟩
    rw [before]
    rfl
  | @claimed userId sessionId routing expiresAt before unparked still own first earlier =>
    refine ⟨fun _ => ⟨rfl, ?_, ?_⟩, fun run hrun hlive _ => ?_⟩
    · intro hrouting
      rw [show routing = .waiting from hrouting] at still
      cases still
    · intro hrouting
      rw [show routing = .ivr from hrouting] at still
      cases still
    · rw [inv.menu run hrun hlive before] at unparked
      cases unparked
  | offered before waiting unused =>
    refine ⟨fun htaken => absurd waiting (inv.taken htaken).2.1, fun run hrun hlive _ => ?_⟩
    have hivr := inv.menu run hrun hlive (by rw [before]; rfl)
    rw [waiting] at hivr
    cases hivr
  | captured before waiting within =>
    refine ⟨fun htaken => absurd waiting (inv.taken htaken).2.1, fun run hrun hlive _ => ?_⟩
    have hivr := inv.menu run hrun hlive (by rw [before]; rfl)
    rw [waiting] at hivr
    cases hivr

/-- A call becomes the call of a user only when the user is free. -/
private theorem CallChange.takes (h : CallChange free core ivr core' ivr') (inv : CoreInvariant core ivr)
    (hactive : core'.status.active = true) (hunparked : core'.routingStatus.parked = false) :
    (core.status.active = true ∧ core.routingStatus.parked = false ∧ core'.userId = core.userId) ∨
      free core'.userId := by
  cases h with
  | kept => exact .inl ⟨hactive, hunparked, rfl⟩
  | shortened earlier => exact .inl ⟨hactive, hunparked, rfl⟩
  | finished now before inactive =>
    rw [inactive] at hactive
    cases hactive
  | answered before within =>
    refine .inl ⟨?_, hunparked, rfl⟩
    rw [before]
    rfl
  | claimed before unparked still own first earlier =>
    by_cases htaken : core.answerSessionId ≠ none ∨ core.direction = .outbound
    · -- Nobody is offered the call any more.
      rw [(inv.taken htaken).1] at own
      exact .inl ⟨before, unparked, own.resolve_right List.not_mem_nil⟩
    · rw [not_or, not_not] at htaken
      have hinbound : core.direction = .inbound := by
        generalize core.direction = direction at htaken
        cases direction with
        | inbound => rfl
        | outbound => exact absurd rfl htaken.2
      rcases first hinbound htaken.1 with hsame | hfree
      · exact .inl ⟨before, unparked, hsame⟩
      · exact .inr hfree
  | offered before waiting unused => exact .inr unused
  | captured before waiting within => cases hunparked

end

/-! ### The transactions of a menu -/

section

variable {free : String → Prop} {input : IvrInput} {reads : IvrReads} {call call' : Call} {run run' : IvrRun}

private theorem PhaseStep.sameCall (h : PhaseStep reads call run call' run') :
    call'.id = call.id ∧ call'.providerRoom = call.providerRoom := by
  cases h <;> exact ⟨rfl, rfl⟩

private theorem IvrCommit.sameCall (h : IvrCommit input reads call run call' run') :
    call'.id = call.id ∧ call'.providerRoom = call.providerRoom := by
  cases h with
  | kept => exact ⟨rfl, rfl⟩
  | cancelled completedAt live inactive => exact ⟨rfl, rfl⟩
  | guarded reason timestamp live active => exact ⟨rfl, rfl⟩
  | operated live active machine phase within => exact phase.sameCall
  | closed timestamp live active machine phase active' => exact phase.sameCall

/-- The transactions of a menu leave a call alone that is over. -/
private theorem IvrCommit.overCall (h : IvrCommit input reads call run call' run') (hover : call.active = false) :
    call' = call := by
  cases h with
  | kept => rfl
  | cancelled completedAt live inactive => rfl
  | guarded reason timestamp live active =>
    rw [hover] at active
    cases active
  | operated live active machine phase within =>
    rw [hover] at active
    cases active
  | closed timestamp live active machine phase active' =>
    rw [hover] at active
    cases active

private theorem failed_inactive (call : Call) (reason : FailureReason) (timestamp : Int) :
    (call.failed reason timestamp).active = false := by
  unfold Call.failed Call.active
  dsimp only
  split <;> rfl

private theorem PhaseStep.coreInvariant {run₁ : IvrRun} (h : PhaseStep reads call run₁ call' run')
    (hivr : call.routingStatus = .ivr)
    (htaken : ¬ (call.answerSessionId ≠ none ∨ call.direction = .outbound)) :
    CoreInvariant call'.core (some run') := by
  have hmenu : ∀ {call' : Call}, call'.routingStatus = .ivr → ∀ run ∈ some run',
      run.phase.terminal = false → call'.core.status.active = true → call'.core.routingStatus = .ivr :=
    fun h _ _ _ _ => h
  have hover : run'.phase.terminal = true → ∀ run ∈ some run', run.phase.terminal = false →
      call'.core.status.active = true → call'.core.routingStatus = .ivr := by
    intro hterminal run hrun hlive
    cases hrun
    rw [hterminal] at hlive
    cases hlive
  cases h with
  | routed routeId completedAt source target eligible route => exact ⟨fun h => absurd h htaken, hover rfl⟩
  | captured userId recordingDeadline completedAt source => exact ⟨fun h => absurd h htaken, hover rfl⟩
  | connected answeredAt source => exact ⟨fun h => absurd h htaken, hover rfl⟩
  | ended reason timestamp =>
    refine ⟨fun h => absurd h htaken, fun run hrun hlive hactive => ?_⟩
    have hinactive := failed_inactive call reason timestamp
    rw [show (call.failed reason timestamp).core.status.active = (call.failed reason timestamp).active from rfl,
      hinactive] at hactive
    cases hactive
  | _ => exact ⟨fun h => absurd h htaken, hmenu hivr⟩

private theorem CoreInvariant.failed {ivr ivr' : Option IvrRun} (inv : CoreInvariant call.core ivr)
    (reason : FailureReason) (timestamp : Int) : CoreInvariant (call.failed reason timestamp).core ivr' := by
  refine ⟨inv.taken, fun run _ _ hactive => ?_⟩
  have hinactive : (call.failed reason timestamp).core.status.active = false := failed_inactive call reason timestamp
  rw [hinactive] at hactive
  cases hactive

theorem IvrCommit.coreInvariant (h : IvrCommit input reads call run call' run')
    (inv : CoreInvariant call.core (some run)) : CoreInvariant call'.core (some run') := by
  -- A menu that still runs has a parked call, which nobody has taken.
  have hparked : run.phase.terminal = false → call.active = true → call.routingStatus = .ivr ∧
      ¬ (call.answerSessionId ≠ none ∨ call.direction = .outbound) := by
    intro hlive hactive
    have hivr : call.routingStatus = .ivr := inv.menu run rfl hlive hactive
    exact ⟨hivr, fun htaken => (inv.taken htaken).2.2 hivr⟩
  cases h with
  | kept => exact inv
  | cancelled completedAt live inactive =>
    refine ⟨inv.taken, fun _ _ _ hactive => ?_⟩
    rw [show call.core.status.active = call.active from rfl, inactive] at hactive
    cases hactive
  | guarded reason timestamp live active => exact inv.failed reason timestamp
  | operated live active machine phase within =>
    obtain ⟨hivr, htaken⟩ := hparked live active
    exact phase.coreInvariant hivr htaken
  | closed timestamp live active machine phase active' =>
    obtain ⟨hivr, htaken⟩ := hparked live active
    exact (phase.coreInvariant hivr htaken).failed .ivrDeadline timestamp

/-- A menu gives a call to a user only when the route has found the user free. -/
private theorem IvrCommit.takes (h : IvrCommit input reads call run call' run')
    (hrouting : ∀ routeId, reads.routing.eligible = true → reads.routing.routeId = some routeId →
      reads.routing.routingStatus.parked = true ∨ free reads.routing.userId)
    (hof : call'.ofUser = true) : (call.ofUser = true ∧ call'.userId = call.userId) ∨ free call'.userId := by
  have hfailed : ∀ {call : Call} {reason timestamp}, (call.failed reason timestamp).ofUser = false := by
    intro call reason timestamp
    unfold Call.ofUser
    rw [failed_inactive]
    rfl
  cases h with
  | kept => exact .inl ⟨hof, rfl⟩
  | cancelled completedAt live inactive => exact .inl ⟨hof, rfl⟩
  | guarded reason timestamp live active =>
    rw [hfailed] at hof
    cases hof
  | operated live active machine phase within =>
    cases phase with
    | routed routeId completedAt source target eligible route =>
      rcases hrouting routeId eligible route with hparked | hfree
      · rw [Call.ofUser_iff] at hof
        have hunparked : reads.routing.routingStatus.parked = false := hof.2
        rw [hparked] at hunparked
        cases hunparked
      · exact .inr hfree
    | captured userId recordingDeadline completedAt source =>
      rw [Call.ofUser_iff] at hof
      cases hof.2
    | connected answeredAt source =>
      rw [Call.ofUser_iff] at hof
      cases hof.2
    | ended reason timestamp =>
      rw [hfailed] at hof
      cases hof
    | _ => exact .inl ⟨hof, rfl⟩
  | closed timestamp live active machine phase active' =>
    rw [hfailed] at hof
    cases hof

theorem IvrWork.commits {fingerprint : String → String} {work : IvrWork} {rows rows' : IvrRows}
    {result : IvrResult} (h : (work.transaction fingerprint reads rows).Commits (rows', result)) :
    ∃ input, IvrCommit input reads rows.call rows.run rows'.call rows'.run := by
  cases work with
  | event received => exact ⟨.event received, eventTransaction_commits h⟩
  | advance => exact ⟨.job, advance_commits h⟩
  | consume claim => exact ⟨.job, consumeClaim_commits h⟩
  | forward claim => exact ⟨.job, forwardClaim_commits h⟩

end

/-! ### The transactions on the table -/

/-- What a transaction does to the one row that it changes. -/
structure RowChange (calls : List CallRecord) (record record' : CallRecord) : Prop where
  id : record'.call.id = record.call.id
  room : record'.call.providerRoom = record.call.providerRoom
  inactive : record.call.active = false → record'.call.status = record.call.status
  invariant : CoreInvariant record.call.core record.ivr → CoreInvariant record'.call.core record'.ivr
  takes : CoreInvariant record.call.core record.ivr → ∀ userId, record'.holder = some userId →
    record.holder = some userId ∨ Free CallRecord.holder calls userId

inductive CallsChange (tenantOf : String → String) (calls : List CallRecord) : List CallRecord → Prop
  | kept : CallsChange tenantOf calls calls
  | inserted (record : CallRecord) (fresh : ∀ other ∈ calls, other.call.id ≠ record.call.id)
    (freshRoom : ∀ other ∈ calls, other.call.providerRoom ≠ record.call.providerRoom)
    (owned : record.Owned tenantOf) (invariant : CoreInvariant record.call.core record.ivr)
    (takes : ∀ userId, record.holder = some userId → Free CallRecord.holder calls userId) :
    CallsChange tenantOf calls (record :: calls)
  | changed {before after : List CallRecord} {record record' : CallRecord} (rows : calls = before ++ record :: after)
    (owned : record'.Owned tenantOf) (change : RowChange calls record record') :
    CallsChange tenantOf calls (before ++ record' :: after)

section

variable {tenantOf : String → String} {fingerprint : String → String} {reads : RoutingReads}
  {calls calls' : List CallRecord} {record record' : CallRecord}

private theorem ownedRow_eq_some (h : ownedRow tenantOf record = some record') :
    record' = record ∧ record.Owned tenantOf := by
  unfold ownedRow at h
  split at h
  · cases h
    exact ⟨rfl, ‹_›⟩
  · cases h

private theorem holder_takes {free : String → Prop} {userId : String} (hholder : record'.holder = some userId)
    (h : (record.call.ofUser = true ∧ record'.call.userId = record.call.userId) ∨ free record'.call.userId) :
    record.holder = some userId ∨ free userId := by
  rw [CallRecord.holder_eq_some] at hholder
  obtain ⟨-, rfl⟩ := hholder
  rcases h with ⟨hof, hsame⟩ | hfree
  · left
    rw [CallRecord.holder_eq_some]
    exact ⟨hof, hsame.symm⟩
  · exact .inr hfree

private theorem CallRecord.ChangesTo.takes {free : String → Prop} (h : record.ChangesTo free record')
    (inv : CoreInvariant record.call.core record.ivr) {userId : String} (hholder : record'.holder = some userId) :
    record.holder = some userId ∨ free userId := by
  refine holder_takes hholder ?_
  rw [CallRecord.holder_eq_some, Call.ofUser_iff] at hholder
  rcases CallChange.takes h inv hholder.1.1 hholder.1.2 with ⟨hactive, hunparked, hsame⟩ | hfree
  · refine .inl ⟨?_, hsame⟩
    rw [Call.ofUser_iff]
    exact ⟨hactive, hunparked⟩
  · exact .inr hfree

private theorem credential_tenant {operation : CredentialOperation} {grant : Grant} {identity : String}
    {callReads : CallReads} {eligible busy issued : Bool}
    (h : credential operation grant identity callReads eligible busy issued record = some record') :
    record.call.tenantId = grant.tenantId := by
  unfold credential at h
  dsimp only at h
  split at h
  · cases h
  · rename_i hown
    simp only [ownCall, Bool.not_eq_true', Bool.not_eq_false, Bool.and_eq_true, decide_eq_true_eq] at hown
    exact hown.1.1

/-- The users that a transaction finds to be free are free. -/
private theorem reading_free (howned : ∀ other ∈ calls, other.Owned tenantOf) (howned' : record'.Owned tenantOf)
    {command : CallCommand} (h : (command.reading tenantOf reads calls record.call).apply record = some record')
    (htenant : record'.call.tenantId = record.call.tenantId)
    (hfree : (command.reading tenantOf reads calls record.call).free record'.call.userId) :
    Free CallRecord.holder calls record'.call.userId := by
  cases command with
  | credential operation grant identity callReads eligible busy issued =>
    obtain ⟨hbusy, huser⟩ := hfree
    have hgrant : record.call.tenantId = grant.tenantId := credential_tenant h
    have huserTenant : tenantOf record'.call.userId = grant.tenantId := howned'.trans (htenant.trans hgrant)
    rw [huser] at huserTenant ⊢
    exact free_of_not_activeUserCall howned huserTenant hbusy
  | offer selected ready now =>
    simp only [CallCommand.reading] at hfree
    split at hfree
    · cases hfree
    · exact free_of_selectCandidate howned hfree
  | _ => exact False.elim hfree

theorem changeCall_row (howned : ∀ other ∈ calls, other.Owned tenantOf) {command : CallCommand} {result : Unit}
    (h : changeCall tenantOf reads calls command record = some (record', result)) :
    record'.Owned tenantOf ∧ RowChange calls record record' := by
  unfold changeCall at h
  rw [Option.bind_eq_some_iff] at h
  obtain ⟨changed, happly, h⟩ := h
  rw [Option.map_eq_some_iff] at h
  obtain ⟨row, hrow, hresult⟩ := h
  cases hresult
  obtain ⟨rfl, howned'⟩ := ownedRow_eq_some hrow
  have hchange := apply_changes happly
  have hsame := CallChange.sameCall hchange
  refine ⟨howned', hsame.1, hsame.2.2, fun hover => (CallChange.inactive hchange hover).1, CallChange.coreInvariant hchange,
    fun inv userId hholder => ?_⟩
  rcases hchange.takes inv hholder with hbefore | hfree
  · exact .inl hbefore
  · rw [CallRecord.holder_eq_some] at hholder
    obtain ⟨-, rfl⟩ := hholder
    exact .inr (reading_free howned howned' happly hsame.2.1 hfree)

theorem changeRun_row (howned : ∀ other ∈ calls, other.Owned tenantOf) {ivrReads : IvrReads} {work : IvrWork}
    {receipts receipts' : List IvrEventReceipt}
    (h : changeRun tenantOf fingerprint reads ivrReads work calls receipts record = some (record', receipts')) :
    record'.Owned tenantOf ∧ RowChange calls record record' := by
  unfold changeRun at h
  dsimp only at h
  split at h
  · rename_i run number hrun _
    split at h
    · rename_i rows result hcommits
      rw [Option.map_eq_some_iff] at h
      obtain ⟨row, hrow, hresult⟩ := h
      cases hresult
      obtain ⟨rfl, howned'⟩ := ownedRow_eq_some hrow
      obtain ⟨input, hcommit⟩ := IvrWork.commits hcommits
      refine ⟨howned', hcommit.sameCall.1, hcommit.sameCall.2, fun hover => ?_, fun inv => ?_, fun _ userId hholder => ?_⟩
      · exact congrArg Call.status (hcommit.overCall hover)
      · rw [hrun] at inv
        exact hcommit.coreInvariant inv
      · refine holder_takes hholder ?_
        rw [CallRecord.holder_eq_some] at hholder
        refine hcommit.takes (fun routeId heligible hroute => ?_) hholder.1
        exact admission_of_route howned heligible hroute
    · cases h
  · cases h

/-! ### New calls -/

private theorem insertCall_inserted (inv : CoreInvariant record.call.core record.ivr)
    (htakes : record.Owned tenantOf → ∀ userId, record.holder = some userId → Free CallRecord.holder calls userId)
    (h : insertCall tenantOf record calls = some calls') : CallsChange tenantOf calls calls' := by
  unfold insertCall at h
  split at h
  · cases h
  rename_i hconflict
  rw [Option.map_eq_some_iff] at h
  obtain ⟨row, hrow, rfl⟩ := h
  obtain ⟨rfl, howned⟩ := ownedRow_eq_some hrow
  refine .inserted row (fun other hother hid => hconflict ?_) (fun other hother hroom => hconflict ?_) howned inv
    (htakes howned)
  · rw [List.any_eq_true]
    exact ⟨other, hother, by simp [conflicts, hid]⟩
  · rw [List.any_eq_true]
    exact ⟨other, hother, by simp [conflicts, hroom]⟩

theorem startOutbound_changes (howned : ∀ other ∈ calls, other.Owned tenantOf) {grant : Grant}
    {destination key : String} {new : NewCall}
    (h : startOutbound tenantOf reads grant destination key new calls = some calls') :
    CallsChange tenantOf calls calls' := by
  unfold startOutbound at h
  split at h
  · cases h
  split at h
  · cases h
  rename_i number hnumber
  dsimp only at h
  split at h
  · split at h
    · cases h
      exact .kept
    · cases h
  split at h
  · cases h
  rename_i hbusy
  rw [Bool.not_eq_true] at hbusy
  have htenant : number.tenantId = grant.tenantId := by
    unfold effectiveNumber at hnumber
    rw [Option.filter_eq_some_iff] at hnumber
    simpa using List.find?_some hnumber.1
  have hindividual : (outboundCall number grant destination key new).core.routingStatus = .individual := rfl
  refine insertCall_inserted ⟨fun _ => ⟨rfl, ?_, ?_⟩, ?_⟩ (fun hrow userId hholder => ?_) h
  · rw [hindividual]
    exact RoutingStatus.noConfusion
  · rw [hindividual]
    exact RoutingStatus.noConfusion
  · intro run hrun
    cases hrun
  rw [CallRecord.holder_eq_some] at hholder
  obtain ⟨-, rfl⟩ := hholder
  have huser : tenantOf grant.userId = grant.tenantId := Eq.trans hrow htenant
  exact free_of_not_activeUserCall howned huser hbusy

private theorem initialStatus_active {event : ProviderEvent} {eligible ended busy : Bool}
    (h : (initialStatus event eligible ended busy).active = true) : busy = false := by
  unfold initialStatus at h
  split at h
  · cases h
  split at h
  · cases h
  split at h
  · cases h
  split at h
  · cases h
  split at h
  · cases h
  · simpa using ‹¬ busy = true›

/-- A new inbound call that rings its user has found the user free. -/
private theorem inbound_row (howned : ∀ other ∈ calls, other.Owned tenantOf) {ended : Bool} {event : ProviderEvent}
    {new : NewCall} (h : inbound tenantOf reads ended event new calls = some record) :
    CoreInvariant record.call.core record.ivr ∧
      ∀ userId, record.holder = some userId → tenantOf userId = record.call.tenantId →
        Free CallRecord.holder calls userId := by
  unfold inbound at h
  split at h
  · cases h
  dsimp only at h
  split at h
  swap
  · cases h
  rename_i number identity _ _
  cases h
  refine ⟨⟨?_, ?_⟩, ?_⟩
  · intro htaken
    rcases htaken with hsession | houtbound
    · exact absurd rfl hsession
    · cases houtbound
  · intro run hrun _ _
    dsimp only at hrun
    cases hmenu : ivrAdmission tenantOf reads calls number with
    | none =>
      rw [hmenu] at hrun
      split at hrun <;> cases hrun
    | some menu => rfl
  · intro userId hholder htenant
    rw [CallRecord.holder_eq_some, Call.ofUser_iff] at hholder
    obtain ⟨⟨hactive, hunparked⟩, rfl⟩ := hholder
    have hbusy := initialStatus_active hactive
    refine free_of_not_activeUserCall howned htenant ?_
    generalize hrouting : (ivrAdmission tenantOf reads calls number).elim (admission tenantOf reads calls number)
      (ivrRouting number) = routing at hbusy hunparked ⊢
    have hrings : routing.routingStatus ≠ .waiting ∧ routing.routingStatus ≠ .ivr := by
      have hunparked' : routing.routingStatus.parked = false := hunparked
      constructor <;> intro hstatus <;> rw [hstatus] at hunparked' <;> cases hunparked'
    rw [decide_eq_true hrings.1, decide_eq_true hrings.2, Bool.true_and, Bool.true_and] at hbusy
    exact hbusy

theorem callback_change {system system' : CallSystem} (howned : ∀ other ∈ system.calls, other.Owned tenantOf)
    {event : ProviderEvent} {eventReads : EventReads} {new : NewCall}
    (h : system.callback tenantOf fingerprint event eventReads new reads = some system') :
    CallsChange tenantOf system.calls system'.calls := by
  unfold CallSystem.callback at h
  split at h
  · cases h
  split at h
  · rw [Option.map_eq_some_iff] at h
    obtain ⟨⟨rows, result⟩, hupdate, rfl⟩ := h
    obtain ⟨before, record, record', after, hrows, -, hchange, rfl⟩ := updateRow_eq_some hupdate
    obtain ⟨howned', hrow⟩ := changeCall_row howned hchange
    exact .changed hrows howned' hrow
  split at h
  · rw [Option.map_eq_some_iff] at h
    obtain ⟨tombstones, -, rfl⟩ := h
    exact .kept
  · simp only [Option.bind_eq_bind, Option.bind_eq_some_iff] at h
    obtain ⟨record, hinbound, record', hcallback, calls', hinsert, h⟩ := h
    cases h
    obtain ⟨inv, htakes⟩ := inbound_row howned hinbound
    have happly : (CallCommand.callback { eventReads with seen := false, authorized := true } event).apply record =
        some record' := hcallback
    have hchange : record.ChangesTo (fun _ => False) record' := apply_changes happly
    have htenant : record'.call.tenantId = record.call.tenantId := (CallChange.sameCall hchange).2.1
    refine insertCall_inserted (CallChange.coreInvariant hchange inv) (fun hrow userId hholder => ?_) hinsert
    have hbefore := (hchange.takes inv hholder).resolve_right id
    refine htakes userId hbefore ?_
    rw [CallRecord.holder_eq_some] at hholder
    obtain ⟨-, rfl⟩ := hholder
    exact hrow.trans htenant

theorem apply_change {system system' : CallSystem} (howned : ∀ other ∈ system.calls, other.Owned tenantOf)
    {move : CallMove} (h : move.apply tenantOf fingerprint system = some system') :
    CallsChange tenantOf system.calls system'.calls := by
  cases move with
  | startOutbound grant destination key new reads =>
    simp only [CallMove.apply, Option.map_eq_some_iff] at h
    obtain ⟨calls', hstart, rfl⟩ := h
    exact startOutbound_changes howned hstart
  | callback event eventReads new reads => exact callback_change howned h
  | command id command reads =>
    simp only [CallMove.apply, Option.map_eq_some_iff] at h
    obtain ⟨⟨rows, result⟩, hupdate, rfl⟩ := h
    obtain ⟨before, record, record', after, hrows, -, hchange, rfl⟩ := updateRow_eq_some hupdate
    obtain ⟨howned', hrow⟩ := changeCall_row howned hchange
    exact .changed hrows howned' hrow
  | ivr runId work ivrReads reads =>
    simp only [CallMove.apply, Option.map_eq_some_iff] at h
    obtain ⟨⟨rows, receipts⟩, hupdate, rfl⟩ := h
    obtain ⟨before, record, record', after, hrows, -, hchange, rfl⟩ := updateRow_eq_some hupdate
    obtain ⟨howned', hrow⟩ := changeRun_row howned hchange
    exact .changed hrows howned' hrow

theorem CallSystem.step_calls (fingerprint : String → String) (system : CallSystem)
    (howned : ∀ other ∈ system.calls, other.Owned tenantOf) (move : CallMove) :
    CallsChange tenantOf system.calls (system.step tenantOf fingerprint move).calls := by
  unfold CallSystem.step
  cases h : move.apply tenantOf fingerprint system with
  | none => exact .kept
  | some system' => exact apply_change howned h

end

/-! ### Runs -/

/-- The invariant of the table. -/
structure CallsInvariant (tenantOf : String → String) (calls : List CallRecord) : Prop where
  ids : (calls.map (·.call.id)).Nodup
  rooms : (calls.map (·.call.providerRoom)).Nodup
  owned : ∀ record ∈ calls, record.Owned tenantOf
  rows : ∀ record ∈ calls, CoreInvariant record.call.core record.ivr
  exclusive : Exclusive CallRecord.holder calls

section

variable {tenantOf : String → String} {calls calls' : List CallRecord}

theorem CallsChange.invariant (h : CallsChange tenantOf calls calls') (inv : CallsInvariant tenantOf calls) :
    CallsInvariant tenantOf calls' := by
  cases h with
  | kept => exact inv
  | inserted record fresh freshRoom owned invariant takes =>
    refine ⟨?_, ?_, ?_, ?_, inv.exclusive.insert takes⟩
    · rw [List.map_cons, List.nodup_cons, List.mem_map]
      refine ⟨?_, inv.ids⟩
      rintro ⟨other, hother, hid⟩
      exact fresh other hother hid
    · rw [List.map_cons, List.nodup_cons, List.mem_map]
      refine ⟨?_, inv.rooms⟩
      rintro ⟨other, hother, hroom⟩
      exact freshRoom other hother hroom
    · rw [List.forall_mem_cons]
      exact ⟨owned, inv.owned⟩
    · rw [List.forall_mem_cons]
      exact ⟨invariant, inv.rows⟩
  | @changed before after record record' rows owned change =>
    subst rows
    have hrecord : record ∈ before ++ record :: after := List.mem_append_right _ List.mem_cons_self
    have hrow := inv.rows record hrecord
    refine ⟨?_, ?_, forall_mem_replace inv.owned owned, forall_mem_replace inv.rows (change.invariant hrow),
      inv.exclusive.replace (change.takes hrow)⟩
    · have hids := inv.ids
      simp only [List.map_append, List.map_cons, change.id] at hids ⊢
      exact hids
    · have hrooms := inv.rooms
      simp only [List.map_append, List.map_cons, change.room] at hrooms ⊢
      exact hrooms

/-- There is a call with the id, and it is over with the status. -/
def OverWith (id : String) (status : CallStatus) (calls : List CallRecord) : Prop :=
  (∃ record ∈ calls, record.call.id = id) ∧
    ∀ record ∈ calls, record.call.id = id → record.call.status = status

private theorem CallsChange.overWith (h : CallsChange tenantOf calls calls') {id : String} {status : CallStatus}
    (hstatus : status.active = false) (hover : OverWith id status calls) : OverWith id status calls' := by
  obtain ⟨⟨known, hknown, hid⟩, hall⟩ := hover
  cases h with
  | kept => exact ⟨⟨known, hknown, hid⟩, hall⟩
  | inserted record fresh freshRoom owned invariant takes =>
    refine ⟨⟨known, List.mem_cons_of_mem record hknown, hid⟩, ?_⟩
    rw [List.forall_mem_cons]
    refine ⟨fun hrecord => ?_, hall⟩
    exact absurd (hid.trans hrecord.symm) (fresh known hknown)
  | @changed before after record record' rows owned change =>
    subst rows
    have hrecord : record ∈ before ++ record :: after := List.mem_append_right _ List.mem_cons_self
    refine ⟨?_, forall_mem_replace hall fun hid' => ?_⟩
    · by_cases hchanged : record.call.id = id
      · exact ⟨record', List.mem_append_right _ List.mem_cons_self, change.id.trans hchanged⟩
      · refine ⟨known, ?_, hid⟩
        have hne : known ≠ record := by
          rintro rfl
          exact hchanged hid
        simp only [List.mem_append, List.mem_cons, hne, false_or] at hknown ⊢
        exact hknown.imp_right Or.inr
    · have hsame := hall record hrecord (change.id.symm.trans hid')
      rw [← hsame] at hstatus ⊢
      exact change.inactive hstatus

end

section

variable (tenantOf fingerprint : String → String) {system : CallSystem}

theorem start_calls : CallsInvariant tenantOf CallSystem.start.calls :=
  ⟨List.nodup_nil, List.nodup_nil, List.forall_mem_nil _, List.forall_mem_nil _, List.Pairwise.nil⟩

theorem run_calls (inv : CallsInvariant tenantOf system.calls) (moves : List CallMove) :
    CallsInvariant tenantOf (system.run tenantOf fingerprint moves).calls := by
  induction moves generalizing system with
  | nil => exact inv
  | cons move moves ih => exact ih ((system.step_calls fingerprint inv.owned move).invariant inv)

private theorem run_overWith (inv : CallsInvariant tenantOf system.calls) {id : String} {status : CallStatus}
    (hstatus : status.active = false) (hover : OverWith id status system.calls) (moves : List CallMove) :
    OverWith id status (system.run tenantOf fingerprint moves).calls := by
  induction moves generalizing system with
  | nil => exact hover
  | cons move moves ih =>
    have hchange := system.step_calls fingerprint inv.owned move
    exact ih (hchange.invariant inv) (hchange.overWith hstatus hover)

/-- A call that is over stays over, and no user has two calls. -/
theorem telephony_call_safety (moves : List CallMove) :
    let system := CallSystem.start.run tenantOf fingerprint moves
    (∀ record ∈ system.calls, record.call.active = false → ∀ later,
        ∀ record' ∈ (system.run tenantOf fingerprint later).calls, record'.call.id = record.call.id →
          record'.call.status = record.call.status ∧ record'.call.active = false) ∧
      system.calls.Pairwise fun record record' =>
        ¬ (record.call.ofUser = true ∧ record'.call.ofUser = true ∧ record.call.userId = record'.call.userId) := by
  intro system
  have inv : CallsInvariant tenantOf system.calls := run_calls tenantOf fingerprint (start_calls tenantOf) moves
  constructor
  · intro record hrecord hover later record' hrecord' hid
    have hoverWith : OverWith record.call.id record.call.status system.calls := by
      refine ⟨⟨record, hrecord, rfl⟩, fun other hother hsame => ?_⟩
      rw [List.inj_on_of_nodup_map inv.ids hother hrecord hsame]
    have hstatus := (run_overWith tenantOf fingerprint inv hover hoverWith later).2 record' hrecord' hid
    refine ⟨hstatus, ?_⟩
    unfold Call.active at hover ⊢
    rw [hstatus]
    exact hover
  · refine inv.exclusive.imp fun {record record'} hexclusive hboth => ?_
    obtain ⟨hof, hof', hsame⟩ := hboth
    refine hexclusive record.call.userId ?_ ?_
    · rw [CallRecord.holder_eq_some]
      exact ⟨hof, rfl⟩
    · rw [CallRecord.holder_eq_some]
      exact ⟨hof', hsame.symm⟩

end

end KComms.Telephony
