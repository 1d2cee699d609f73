import KComms.Integrations.HttpPolicy

/-!
# Outbound requests (`CommsIntegrations.PinnedHttp`, `MintTransport`, `ResponseAccumulator`)

A request resolves its host once and connects only to addresses of the answer, one after the other until a connection is
there or fails for good.  It is handed to that connection, and the response is what came in on it, within the limits and in
whatever batches (`request_pinned`).  Exceptions are rescued where an address is tried; here they end the request at once.
-/

namespace KComms.Integrations

open KComms.Web (Address)

/-! ### `ResponseAccumulator` -/

namespace ResponseAccumulator

structure ResponseLimits where
  bodyBytes : Nat
  headerBytes : Nat
  headerCount : Nat
  deriving DecidableEq, Repr

/-- The body is the list of its chunks. -/
structure Accumulator where
  status : Option Int
  headers : List HeaderTerm
  headerBytes : Nat
  headerCount : Nat
  body : List Bytes
  bodyBytes : Nat
  deriving DecidableEq, Repr

def new : Accumulator := ⟨none, [], 0, 0, [], 0⟩

structure Response where
  status : Option Int
  headers : List HeaderTerm
  body : Bytes
  deriving DecidableEq, Repr

def response (accumulator : Accumulator) : Response :=
  { status := accumulator.status, headers := accumulator.headers, body := accumulator.body.flatten }

def headerTotals (limits : ResponseLimits) : List HeaderTerm → Nat → Nat → Except Reason (Nat × Nat)
  | [], bytes, count => .ok (bytes, count)
  | .pair name value :: headers, bytes, count =>
    -- with the separator and the line end
    let nextBytes := bytes + name.length + value.length + 4
    let nextCount := count + 1
    if nextBytes ≤ limits.headerBytes ∧ nextCount ≤ limits.headerCount then headerTotals limits headers nextBytes nextCount
    else .error .outboundResponseHeadersTooLarge
  | .other :: _, _, _ => .error .outboundInvalidResponse

def consumeHeaders (headers : Option (List HeaderTerm)) (response : Accumulator) (limits : ResponseLimits) :
    Except Reason Accumulator :=
  match headers with
  | none => .error .outboundInvalidResponse
  | some headers =>
    match headerTotals limits headers response.headerBytes response.headerCount with
    | .ok (headerBytes, headerCount) =>
      .ok { response with headers := response.headers ++ headers, headerBytes := headerBytes, headerCount := headerCount }
    | .error reason => .error reason

inductive Consumed
  | done (completed : Accumulator)
  | cont (response : Accumulator)
  | transportError (reason : MintReason)
  | error (reason : Reason)
  deriving DecidableEq, Repr

variable {ρ : Type} [DecidableEq ρ] {requestRef : ρ} {limits : ResponseLimits} {acc : Accumulator}

/-- Entries of other requests are passed over. -/
def consume (requestRef : ρ) (limits : ResponseLimits) : List (Entry ρ) → Accumulator → Consumed
  | [], acc => .cont acc
  | .status ref status :: entries, acc =>
    if ref = requestRef then consume requestRef limits entries { acc with status := status }
    else consume requestRef limits entries acc
  | .headers ref headers :: entries, acc =>
    if ref = requestRef then
      match consumeHeaders headers acc limits with
      | .ok nextAcc => consume requestRef limits entries nextAcc
      | .error reason => .error reason
    else consume requestRef limits entries acc
  | .data ref data :: entries, acc =>
    if ref = requestRef then
      let bytes := acc.bodyBytes + data.length
      if bytes ≤ limits.bodyBytes then
        consume requestRef limits entries { acc with body := acc.body ++ [data], bodyBytes := bytes }
      else .error .outboundResponseTooLarge
    else consume requestRef limits entries acc
  | .done ref :: entries, acc =>
    if ref = requestRef then
      if acc.status.isSome then .done acc else .error .outboundInvalidResponse
    else consume requestRef limits entries acc
  | .error ref reason :: entries, acc =>
    if ref = requestRef then .transportError reason else consume requestRef limits entries acc
  | .other :: entries, acc => consume requestRef limits entries acc

/-! ### What was accumulated -/

/-- The size of a header with its separator and its line end. -/
def headerSize : HeaderTerm → Nat
  | .pair name value => name.length + value.length + 4
  | .other => 0

def statuses (requestRef : ρ) (entries : List (Entry ρ)) : List (Option Int) :=
  entries.filterMap fun
    | .status ref status => if ref = requestRef then some status else none
    | _ => none

def headerLists (requestRef : ρ) (entries : List (Entry ρ)) : List (List HeaderTerm) :=
  entries.filterMap fun
    | .headers ref headers => if ref = requestRef then headers else none
    | _ => none

def chunks (requestRef : ρ) (entries : List (Entry ρ)) : List Bytes :=
  entries.filterMap fun
    | .data ref data => if ref = requestRef then some data else none
    | _ => none

/-- The entries that end a response. -/
def Ends (requestRef : ρ) (entry : Entry ρ) : Prop := entry = .done requestRef ∨ ∃ reason, entry = .error requestRef reason

/-- The response that some entries are, none of which ends it. -/
structure Accumulated (requestRef : ρ) (limits : ResponseLimits) (entries : List (Entry ρ)) (acc : Accumulator) : Prop where
  ongoing : ∀ entry ∈ entries, ¬ Ends requestRef entry
  status : acc.status = (statuses requestRef entries).getLast?.join
  headers : acc.headers = (headerLists requestRef entries).flatten
  pairs : HeaderTerm.other ∉ acc.headers
  headerBytes : acc.headerBytes = (acc.headers.map headerSize).sum
  headerCount : acc.headerCount = acc.headers.length
  body : acc.body = chunks requestRef entries
  bodyBytes : acc.bodyBytes = acc.body.flatten.length
  headerBytes_le : acc.headerBytes ≤ limits.headerBytes
  headerCount_le : acc.headerCount ≤ limits.headerCount
  bodyBytes_le : acc.bodyBytes ≤ limits.bodyBytes

theorem accumulated_new (requestRef : ρ) (limits : ResponseLimits) : Accumulated requestRef limits [] new where
  ongoing := nofun
  status := rfl
  headers := rfl
  pairs := nofun
  headerBytes := rfl
  headerCount := rfl
  body := rfl
  bodyBytes := rfl
  headerBytes_le := Nat.zero_le _
  headerCount_le := Nat.zero_le _
  bodyBytes_le := Nat.zero_le _

theorem headerTotals_ok {headers : List HeaderTerm} {bytes count bytes' count' : Nat}
    (hbytes : bytes ≤ limits.headerBytes) (hcount : count ≤ limits.headerCount)
    (h : headerTotals limits headers bytes count = .ok (bytes', count')) :
    HeaderTerm.other ∉ headers ∧ bytes' = bytes + (headers.map headerSize).sum ∧ count' = count + headers.length ∧
      bytes' ≤ limits.headerBytes ∧ count' ≤ limits.headerCount := by
  induction headers generalizing bytes count with
  | nil =>
    cases h
    exact ⟨nofun, rfl, rfl, hbytes, hcount⟩
  | cons header headers ih =>
    cases header with
    | other => cases h
    | pair name value =>
      rw [headerTotals] at h
      split at h
      · rename_i hfits
        obtain ⟨hother, hsum, hlength, hle, hle'⟩ := ih hfits.1 hfits.2 h
        refine ⟨?_, ?_, ?_, hle, hle'⟩
        · intro hmem
          rcases List.mem_cons.1 hmem with heq | hmem
          · cases heq
          · exact hother hmem
        · rw [List.map_cons, List.sum_cons, hsum]
          show _ = bytes + (name.length + value.length + 4 + _)
          omega
        · rw [List.length_cons, hlength]
          omega
      · cases h

/-- An entry that is passed over. -/
theorem Accumulated.skip {entries : List (Entry ρ)} (h : Accumulated requestRef limits entries acc) {entry : Entry ρ}
    (hends : ¬ Ends requestRef entry) (hstatus : statuses requestRef [entry] = [])
    (hheaders : headerLists requestRef [entry] = [])
    (hchunks : chunks requestRef [entry] = []) : Accumulated requestRef limits (entries ++ [entry]) acc := by
  have hstatuses : statuses requestRef (entries ++ [entry]) = statuses requestRef entries := by
    unfold statuses at hstatus ⊢
    rw [List.filterMap_append, hstatus, List.append_nil]
  have hlists : headerLists requestRef (entries ++ [entry]) = headerLists requestRef entries := by
    unfold headerLists at hheaders ⊢
    rw [List.filterMap_append, hheaders, List.append_nil]
  have hbody : chunks requestRef (entries ++ [entry]) = chunks requestRef entries := by
    unfold chunks at hchunks ⊢
    rw [List.filterMap_append, hchunks, List.append_nil]
  exact { h with
    ongoing := List.forall_mem_append.2 ⟨h.ongoing, List.forall_mem_singleton.2 hends⟩
    status := by rw [hstatuses]; exact h.status
    headers := by rw [hlists]; exact h.headers
    body := by rw [hbody]; exact h.body }

/-- What a batch after some entries comes to. -/
def Read (requestRef : ρ) (limits : ResponseLimits) (before entries : List (Entry ρ)) : Consumed → Prop
  | .cont acc => Accumulated requestRef limits (before ++ entries) acc
  | .done acc => ∃ read rest, entries = read ++ .done requestRef :: rest ∧ Accumulated requestRef limits (before ++ read) acc ∧
      acc.status.isSome = true
  | .transportError _ => True
  | .error _ => True

theorem Read.cons {before entries : List (Entry ρ)} {entry : Entry ρ} {consumed : Consumed}
    (h : Read requestRef limits (before ++ [entry]) entries consumed) :
    Read requestRef limits before (entry :: entries) consumed := by
  cases consumed with
  | cont acc =>
    unfold Read at h ⊢
    rwa [List.append_assoc] at h
  | done acc =>
    obtain ⟨read, rest, rfl, hacc, hstatus⟩ := h
    rw [List.append_assoc] at hacc
    exact ⟨entry :: read, rest, rfl, hacc, hstatus⟩
  | transportError reason => trivial
  | error reason => trivial

/-- By induction on the batch. -/
theorem consume_read (entries : List (Entry ρ)) {before : List (Entry ρ)}
    (h : Accumulated requestRef limits before acc) :
    Read requestRef limits before entries (consume requestRef limits entries acc) := by
  induction entries generalizing before acc with
  | nil =>
    unfold consume Read
    rwa [List.append_nil]
  | cons entry entries ih =>
    cases entry with
    | status ref status =>
      rw [consume]
      by_cases href : ref = requestRef
      · subst href
        rw [if_pos rfl]
        refine Read.cons (ih { h with
          ongoing := List.forall_mem_append.2 ⟨h.ongoing, List.forall_mem_singleton.2 (by simp [Ends])⟩
          status := ?_
          headers := ?_
          body := ?_ })
        · simp [statuses]
        · rw [h.headers]
          simp [headerLists]
        · rw [h.body]
          simp [chunks]
      · rw [if_neg href]
        exact Read.cons (ih (h.skip (by simp [Ends]) (by simp [statuses, href]) (by simp [headerLists]) (by simp [chunks])))
    | headers ref headers =>
      rw [consume]
      by_cases href : ref = requestRef
      · subst href
        rw [if_pos rfl]
        cases headers with
        | none => exact trivial
        | some headers =>
          unfold consumeHeaders
          dsimp only
          cases htotals : headerTotals limits headers acc.headerBytes acc.headerCount with
          | error reason => exact trivial
          | ok totals =>
            obtain ⟨headerBytes, headerCount⟩ := totals
            obtain ⟨hpairs, hsum, hlength, hle, hle'⟩ := headerTotals_ok h.headerBytes_le h.headerCount_le htotals
            refine Read.cons (ih {
              ongoing := List.forall_mem_append.2 ⟨h.ongoing, List.forall_mem_singleton.2 (by simp [Ends])⟩
              status := ?_
              headers := ?_
              pairs := fun hmem => (List.mem_append.1 hmem).elim h.pairs hpairs
              headerBytes := ?_
              headerCount := ?_
              body := ?_
              bodyBytes := h.bodyBytes
              headerBytes_le := hle
              headerCount_le := hle'
              bodyBytes_le := h.bodyBytes_le })
            · rw [h.status]
              simp [statuses]
            · show acc.headers ++ headers = _
              rw [h.headers]
              simp [headerLists]
            · show headerBytes = ((acc.headers ++ headers).map headerSize).sum
              rw [hsum, h.headerBytes, List.map_append, List.sum_append]
            · show headerCount = (acc.headers ++ headers).length
              rw [hlength, h.headerCount, List.length_append]
            · rw [h.body]
              simp [chunks]
      · rw [if_neg href]
        exact Read.cons (ih (h.skip (by simp [Ends]) (by simp [statuses]) (by simp [headerLists, href]) (by simp [chunks])))
    | data ref data =>
      rw [consume]
      by_cases href : ref = requestRef
      · subst href
        rw [if_pos rfl]
        dsimp only
        split
        · rename_i hfits
          refine Read.cons (ih { h with
            ongoing := List.forall_mem_append.2 ⟨h.ongoing, List.forall_mem_singleton.2 (by simp [Ends])⟩
            status := ?_
            headers := ?_
            body := ?_
            bodyBytes := ?_
            bodyBytes_le := hfits })
          · rw [h.status]
            simp [statuses]
          · rw [h.headers]
            simp [headerLists]
          · show acc.body ++ [data] = _
            rw [h.body]
            simp [chunks]
          · show acc.bodyBytes + data.length = (acc.body ++ [data]).flatten.length
            rw [h.bodyBytes, List.flatten_append, List.length_append, List.flatten_singleton]
        · exact trivial
      · rw [if_neg href]
        exact Read.cons (ih (h.skip (by simp [Ends]) (by simp [statuses]) (by simp [headerLists]) (by simp [chunks, href])))
    | done ref =>
      rw [consume]
      by_cases href : ref = requestRef
      · subst href
        rw [if_pos rfl]
        split
        · rename_i hstatus
          exact ⟨[], entries, rfl, by rwa [List.append_nil], hstatus⟩
        · exact trivial
      · rw [if_neg href]
        exact Read.cons (ih (h.skip (by simp [Ends, href]) (by simp [statuses]) (by simp [headerLists]) (by simp [chunks])))
    | error ref reason =>
      rw [consume]
      by_cases href : ref = requestRef
      · rw [if_pos href]
        exact trivial
      · rw [if_neg href]
        exact Read.cons (ih (h.skip (by simp [Ends, href]) (by simp [statuses]) (by simp [headerLists]) (by simp [chunks])))
    | other =>
      rw [consume]
      exact Read.cons (ih (h.skip (by simp [Ends]) (by simp [statuses]) (by simp [headerLists]) (by simp [chunks])))

end ResponseAccumulator

open ResponseAccumulator

/-! ### `MintTransport` -/

def normalizeTransportError : MintReason → Reason
  | .transportError reason => normalizeTransportError reason
  | .timeout => .outboundTimeout
  | .protocolNotNegotiated | .badAlpnProtocol | .tlsAlert | .options => .outboundTlsError
  | .other => .outboundTransportError

def requestTarget (uri : ElixirUri.Uri) : String :=
  let path := if uri.path = none ∨ uri.path = some "" then "/" else uri.path.getD ""
  match uri.query with
  | some query => path ++ "?" ++ query
  | none => path

/-- The option `:deadline_ms` of the owner of a request. -/
inductive DeadlineOption
  | at (deadline : Int)
  | absent
  | other
  deriving DecidableEq, Repr

structure RequestOpts where
  allowedHosts : List String := []
  allowedPorts : List Nat := [443]
  timeoutMs : Int := 10000
  deadlineMs : DeadlineOption := .absent
  connectTimeoutMs : Option Int := none
  maxResponseBytes : Nat := 1048576
  maxResponseHeaderBytes : Nat := 32768
  maxResponseHeaderCount : Nat := 100
  protocols : List Protocol := [.http1]
  deriving DecidableEq, Repr

/-- What is to be sent. -/
structure Message where
  method : String
  headers : List (String × String)
  body : Bytes
  deriving DecidableEq, Repr

/-- How an address that was tried ends, unless the request ends with it. -/
inductive Attempt
  | success (response : Response)
  | retry (reason : Reason)
  deriving DecidableEq, Repr

namespace MintTransport

variable {σ γ ρ : Type} [DecidableEq ρ] (env : Environment σ γ ρ) (upcase : String → String)

/-- Exceptions of `close` are rescued with the others. -/
def close (conn : γ) : Session σ (Exchange γ ρ) Stop Unit := do
  let outcome ← Session.call (env.close conn) fun outcome => .close conn outcome
  match outcome with
  | .closed => pure ()
  | .raised => Session.fail (.error .outboundTransportError)

def receiveResponse (requestRef : ρ) (deadline : Int) (limits : ResponseLimits) :
    Nat → γ → Accumulator → Session σ (Exchange γ ρ) Stop Response
  | 0, _, _ => Session.fail .running
  | steps + 1, conn, response => do
    let remaining ← env.remainingMs deadline
    if remaining = 0 then do
      close env conn
      Session.fail (.error .outboundTimeout)
    else do
      let outcome ← Session.call (env.receive conn remaining) fun outcome => .receive conn remaining outcome
      match outcome with
      | .received nextConn entries =>
        match consume requestRef limits entries response with
        | .done completed => do
          close env nextConn
          pure (ResponseAccumulator.response completed)
        | .cont nextResponse => receiveResponse requestRef deadline limits steps nextConn nextResponse
        | .transportError reason => do
          close env nextConn
          Session.fail (.error (normalizeTransportError reason))
        | .error reason => do
          close env nextConn
          Session.fail (.error reason)
      | .failed nextConn reason entries => do
        close env nextConn
        -- the errors of the limits win; they are all that `consume` has
        match consume requestRef limits entries response with
        | .error boundaryReason => Session.fail (.error boundaryReason)
        | _ => Session.fail (.error (normalizeTransportError reason))
      | .raised => Session.fail (.error .outboundTransportError)

def requestConnected (destination : HttpPolicy.Destination) (message : Message) (deadline : Int) (limits : ResponseLimits)
    (steps : Nat) (conn : γ) : Session σ (Exchange γ ρ) Stop Response := do
  let remaining ← env.remainingMs deadline
  if remaining = 0 then do
    close env conn
    Session.fail (.error .outboundTimeout)
  else do
    let call : RequestCall γ :=
      { conn := conn, method := upcase message.method, target := requestTarget destination.uri, headers := message.headers,
        body := message.body }
    let outcome ← Session.call (env.request call) fun outcome => .request call outcome
    match outcome with
    | .sent nextConn requestRef =>
      receiveResponse env requestRef deadline limits steps nextConn ResponseAccumulator.new
    | .failed nextConn reason => do
      close env nextConn
      Session.fail (.error (normalizeTransportError reason))
    | .raised => Session.fail (.error .outboundTransportError)

def connectError (reason : MintReason) (deadline : Int) : Session σ (Exchange γ ρ) Stop Attempt :=
  let error := normalizeTransportError reason
  if error = .outboundTlsError then Session.fail (.error error)
  else do
    let remaining ← env.remainingMs deadline
    if remaining = 0 then pure (.retry .outboundTimeout) else pure (.retry error)

def requestAddress (destination : HttpPolicy.Destination) (message : Message) (deadline configuredConnectTimeout : Int)
    (limits : ResponseLimits) (protocols : List Protocol) (steps : Nat) (address : Address) :
    Session σ (Exchange γ ρ) Stop Attempt := do
  let remaining ← env.remainingMs deadline
  if remaining = 0 then Session.fail (.error .outboundTimeout)
  else do
    let connectTimeout := min configuredConnectTimeout (max (remaining / 2) 1)
    let call : ConnectCall :=
      { address := address, port := destination.port, hostname := destination.host, protocols := protocols,
        connectTimeout := connectTimeout, sendTimeout := max (remaining - connectTimeout) 1,
        inet6 := address.family = some .ipv6 }
    let outcome ← Session.call (env.connect call) fun outcome => .connect call outcome
    match outcome with
    | .connected conn => do
      let response ← requestConnected env upcase destination message deadline limits steps conn
      pure (.success response)
    | .failed reason => connectError env reason deadline
    | .raised => Session.fail (.error .outboundTransportError)

def requestAddresses (destination : HttpPolicy.Destination) (message : Message) (deadline configuredConnectTimeout : Int)
    (limits : ResponseLimits) (protocols : List Protocol) (steps : Nat) :
    List Address → Session σ (Exchange γ ρ) Stop Response
  | [] => Session.fail (.error .outboundTransportError)
  | address :: remainingAddresses => do
    let attempt ← requestAddress env upcase destination message deadline configuredConnectTimeout limits protocols steps address
    match attempt with
    | .success response => pure response
    | .retry reason =>
      if remainingAddresses = [] then Session.fail (.error reason)
      else do
        let remaining ← env.remainingMs deadline
        if 0 < remaining then
          requestAddresses destination message deadline configuredConnectTimeout limits protocols steps remainingAddresses
        else Session.fail (.error reason)

/-- `MintTransport.request`, for the deadline that `PinnedHttp` has set. -/
def request (destination : HttpPolicy.Destination) (message : Message) (deadline : Int) (opts : RequestOpts) (steps : Nat) :
    Session σ (Exchange γ ρ) Stop Response :=
  requestAddresses env upcase destination message deadline (opts.connectTimeoutMs.getD (min opts.timeoutMs 5000))
    ⟨opts.maxResponseBytes, opts.maxResponseHeaderBytes, opts.maxResponseHeaderCount⟩ opts.protocols steps destination.addresses

end MintTransport

/-! ### `PinnedHttp` -/

namespace PinnedHttp

variable {σ γ ρ : Type} [DecidableEq ρ] (env : Environment σ γ ρ) (upcase downcase : String → String)
  (ipLiteral : String → Bool)

/-- The deadline is the owner's where it comes first. -/
def requestDeadline (option : DeadlineOption) (localDeadline : Int) : Session σ (Exchange γ ρ) Stop Int :=
  match option with
  | .at ownerDeadline => pure (min ownerDeadline localDeadline)
  | .absent => pure localDeadline
  | .other => env.now

/-- A request, as far as it has come after `steps` batches of a response. -/
def request (url : Option String) (message : Message) (opts : RequestOpts) (steps : Nat) :
    Session σ (Exchange γ ρ) Stop Response := do
  let started ← env.now
  let deadline ← requestDeadline env opts.deadlineMs (started + opts.timeoutMs)
  let destination ← HttpPolicy.resolveHttpsDestination downcase ipLiteral env url opts.allowedHosts opts.allowedPorts
    { deadlineMs := some deadline }
  let now ← env.now
  if now < deadline then MintTransport.request env upcase destination message deadline opts steps
  else Session.fail (.error .outboundTimeout)

end PinnedHttp

/-! ### What a request leaves in its trace -/

section Pinned

variable {σ γ ρ : Type} [DecidableEq ρ] {requestRef : ρ} {limits : ResponseLimits}
  {destination : HttpPolicy.Destination} {trace : List (Exchange γ ρ)} {result : Except Stop Response}
  {acc : Accumulator}

/-- The response is what came in until its end, and within the limits. -/
structure Delivered (limits : ResponseLimits) (requestRef : ρ) (received : List (Entry ρ)) (response : Response) : Prop where
  complete : ∃ read rest, received = read ++ .done requestRef :: rest ∧ (∀ entry ∈ read, ¬ Ends requestRef entry) ∧
    response.status = (statuses requestRef read).getLast?.join ∧ response.headers = (headerLists requestRef read).flatten ∧
    response.body = (chunks requestRef read).flatten
  status : response.status.isSome = true
  bodyBytes : response.body.length ≤ limits.bodyBytes
  headerBytes : (response.headers.map headerSize).sum ≤ limits.headerBytes
  headerCount : response.headers.length ≤ limits.headerCount

theorem Delivered.of_accumulated {read rest : List (Entry ρ)} (h : Accumulated requestRef limits read acc)
    (hstatus : acc.status.isSome = true) :
    Delivered limits requestRef (read ++ .done requestRef :: rest) (ResponseAccumulator.response acc) where
  complete := ⟨read, rest, rfl, h.ongoing, h.status, h.headers, by rw [← h.body]; rfl⟩
  status := hstatus
  bodyBytes := h.bodyBytes ▸ h.bodyBytes_le
  headerBytes := h.headerBytes ▸ h.headerBytes_le
  headerCount := h.headerCount ▸ h.headerCount_le

/-- Neither a question to the resolver nor a connection nor a request. -/
def Receiving : Exchange γ ρ → Prop
  | .receive .. => True
  | .close .. => True
  | _ => False

omit [DecidableEq ρ] in
theorem Receiving.traces (h : ∀ exchange ∈ trace, Receiving exchange) :
    resolutions trace = [] ∧ connects trace = [] ∧ requests trace = [] := by
  refine ⟨?_, ?_, ?_⟩ <;>
    · refine List.filterMap_eq_nil_iff.2 fun exchange hmem => ?_
      have hreceiving := h exchange hmem
      cases exchange with
      | receive conn timeout outcome => rfl
      | close conn outcome => rfl
      | resolve host outcome => exact hreceiving.elim
      | connect call outcome => exact hreceiving.elim
      | request call outcome => exact hreceiving.elim

/-- What a request has left on its connection. -/
def Conversed (limits : ResponseLimits) (conn : γ) (trace : List (Exchange γ ρ)) (result : Except Stop Response) : Prop :=
  ((∀ exchange ∈ trace, Receiving exchange) ∧ ∀ response, result ≠ .ok response) ∨
    ∃ call outcome rest, trace = .request call outcome :: rest ∧ call.conn = conn ∧
      (∀ exchange ∈ rest, Receiving exchange) ∧ ∀ response, result = .ok response →
        ∃ nextConn requestRef, outcome = .sent nextConn requestRef ∧
          Delivered limits requestRef (batches rest).flatten response

/-- It does not connect again, and asks for one request at most. -/
theorem Conversed.traces {conn : γ} (h : Conversed limits conn trace result) :
    resolutions trace = [] ∧ connects trace = [] ∧ (requests trace).length ≤ 1 ∧
      ∀ asked ∈ requests trace, asked.1.conn = conn := by
  rcases h with ⟨hreceiving, -⟩ | ⟨call, outcome, rest, rfl, hconn, hreceiving, -⟩
  · obtain ⟨hresolutions, hconnects, hrequests⟩ := Receiving.traces hreceiving
    rw [hrequests]
    exact ⟨hresolutions, hconnects, Nat.zero_le _, nofun⟩
  · obtain ⟨hresolutions, hconnects, hrequests⟩ := Receiving.traces hreceiving
    have hone : requests (.request call outcome :: rest) = [(call, outcome)] := congrArg ((call, outcome) :: ·) hrequests
    rw [hone]
    exact ⟨hresolutions, hconnects, Nat.le_refl _, List.forall_mem_singleton.2 hconn⟩

/-- A connect of a destination that failed, but not with TLS. -/
def Failed (destination : HttpPolicy.Destination) (exchange : Exchange γ ρ) : Prop :=
  ∃ call reason, exchange = .connect call (.failed reason) ∧ call.hostname = destination.host ∧ call.port = destination.port ∧
    normalizeTransportError reason ≠ .outboundTlsError

/-- The last address that is tried, if one is; the request ends with it. -/
def LastTried (destination : HttpPolicy.Destination) (limits : ResponseLimits) (trace : List (Exchange γ ρ))
    (result : Except Stop Response) : Prop :=
  (trace = [] ∧ ∃ stop, result = .error stop) ∨
    ∃ call outcome rest, trace = .connect call outcome :: rest ∧ call.hostname = destination.host ∧
      call.port = destination.port ∧
      ((rest = [] ∧ ∃ stop, result = .error stop) ∨ ∃ conn, outcome = .connected conn ∧ Conversed limits conn rest result)

/-- What is left of a request whose addresses were tried. -/
structure Requested (destination : HttpPolicy.Destination) (limits : ResponseLimits) (addresses : List Address)
    (trace : List (Exchange γ ρ)) (result : Except Stop Response) : Prop where
  tried : ∃ failures last, trace = failures ++ last ∧ (∀ exchange ∈ failures, Failed destination exchange) ∧
    LastTried destination limits last result
  order : ((connects trace).map fun attempt => attempt.1.address) <+: addresses

theorem LastTried.requested {addresses : List Address} (h : LastTried destination limits trace result)
    (horder : ((connects trace).map fun attempt => attempt.1.address) <+: addresses) :
    Requested destination limits addresses trace result :=
  ⟨⟨[], trace, rfl, nofun, h⟩, horder⟩

/-- One more address that failed before the others. -/
theorem Requested.cons {addresses : List Address} {call : ConnectCall} {outcome : ConnectOutcome γ}
    (h : Requested destination limits addresses trace result)
    (hfailed : Failed destination (.connect call outcome : Exchange γ ρ)) :
    Requested destination limits (call.address :: addresses) (.connect call outcome :: trace) result := by
  obtain ⟨⟨failures, last, rfl, hfailures, hlast⟩, horder⟩ := h
  refine ⟨⟨.connect call outcome :: failures, last, rfl, List.forall_mem_cons.2 ⟨hfailed, hfailures⟩, hlast⟩, ?_⟩
  exact List.cons_prefix_cons.2 ⟨rfl, horder⟩

namespace MintTransport

variable (env : Environment σ γ ρ) (upcase : String → String)

omit [DecidableEq ρ] in
/-- Nothing but `close` is called, and it gives no value of its own. -/
theorem close_ensures {α : Type} (conn : γ) {f : Unit → Session σ (Exchange γ ρ) Stop α}
    {P : List (Exchange γ ρ) → Except Stop α → Prop}
    (hraised : ∀ outcome, P [.close conn outcome] (.error (.error .outboundTransportError)))
    (hclosed : ∀ outcome, (f ()).Ensures fun rest result => P (.close conn outcome :: rest) result) :
    (close env conn >>= f).Ensures P := by
  unfold close
  refine Session.Ensures.bind (P := fun trace result => ∃ outcome, trace = [.close conn outcome] ∧
    (result = .ok () ∨ result = .error (.error .outboundTransportError))) ?_ ?_ ?_
  · refine Session.Ensures.bind_call fun outcome => ?_
    cases outcome with
    | closed => exact Session.ensures_pure ⟨.closed, rfl, Or.inl rfl⟩
    | raised => exact Session.ensures_fail ⟨.raised, rfl, Or.inr rfl⟩
  · rintro trace stop ⟨outcome, rfl, hresult | hresult⟩
    · cases hresult
    · cases hresult
      exact hraised outcome
  · rintro trace ⟨⟩ ⟨outcome, rfl, -⟩
    exact hclosed outcome

/-- What `receiveResponse` leaves after `received`. -/
def Receives (limits : ResponseLimits) (requestRef : ρ) (received : List (Entry ρ)) (trace : List (Exchange γ ρ))
    (result : Except Stop Response) : Prop :=
  (∀ exchange ∈ trace, Receiving exchange) ∧
    ∀ response, result = .ok response → Delivered limits requestRef (received ++ (batches trace).flatten) response

/-- A session that fails after closing its connection. -/
theorem receives_closed {received : List (Entry ρ)} {before : List (Exchange γ ρ)}
    (hbefore : ∀ exchange ∈ before, Receiving exchange) (conn : γ) (stop : Stop) :
    (close env conn >>= fun _ => Session.fail stop : Session σ (Exchange γ ρ) Stop Response).Ensures fun rest result =>
      Receives limits requestRef received (before ++ rest) result := by
  have hclose : ∀ outcome, ∀ exchange ∈ before ++ [.close conn outcome], Receiving exchange := fun outcome =>
    List.forall_mem_append.2 ⟨hbefore, List.forall_mem_singleton.2 trivial⟩
  exact close_ensures env conn (fun outcome => ⟨hclose outcome, nofun⟩) fun outcome =>
    Session.ensures_fail ⟨hclose outcome, nofun⟩

/-- By induction on the steps; `received` came in before. -/
theorem receiveResponse_ensures (requestRef : ρ) (deadline : Int) (limits : ResponseLimits) (steps : Nat) (conn : γ)
    {received : List (Entry ρ)} (h : Accumulated requestRef limits received acc) :
    (receiveResponse env requestRef deadline limits steps conn acc).Ensures (Receives limits requestRef received) := by
  induction steps generalizing conn received acc with
  | zero => exact Session.ensures_fail ⟨nofun, nofun⟩
  | succ steps ih =>
    unfold receiveResponse
    refine (env.remainingMs_silent deadline).bind_silent ?_ ?_
    · rintro reason ⟨remaining, hremaining⟩
      cases hremaining
    intro remaining _
    have hnothing : ∀ exchange ∈ ([] : List (Exchange γ ρ)), Receiving exchange := nofun
    refine Session.ensures_ite (fun _ => receives_closed env hnothing conn _) fun _ => ?_
    refine Session.Ensures.bind_call fun outcome => ?_
    have hone : ∀ exchange ∈ [(Exchange.receive conn remaining outcome : Exchange γ ρ)], Receiving exchange :=
      List.forall_mem_singleton.2 trivial
    cases outcome with
    | raised => exact Session.ensures_fail ⟨hone, nofun⟩
    | failed nextConn reason entries =>
      dsimp only
      cases consume requestRef limits entries acc with
      | error boundaryReason => exact receives_closed env hone nextConn _
      | done completed => exact receives_closed env hone nextConn _
      | cont nextAcc => exact receives_closed env hone nextConn _
      | transportError reason => exact receives_closed env hone nextConn _
    | received nextConn entries =>
      have hread := consume_read entries h
      dsimp only
      cases hconsumed : consume requestRef limits entries acc with
      | transportError reason => exact receives_closed env hone nextConn _
      | error reason => exact receives_closed env hone nextConn _
      | cont nextAcc =>
        rw [hconsumed] at hread
        refine (ih nextConn hread).mono ?_
        rintro rest result ⟨hrest, hdelivered⟩
        refine ⟨List.forall_mem_append.2 ⟨hone, hrest⟩, fun response hresponse => ?_⟩
        have hflatten : received ++ (batches (Exchange.receive conn remaining (.received nextConn entries) :: rest)).flatten =
            (received ++ entries) ++ (batches rest).flatten := (List.append_assoc _ _ _).symm
        rw [hflatten]
        exact hdelivered response hresponse
      | done completed =>
        rw [hconsumed] at hread
        obtain ⟨read, rest, rfl, hacc, hstatus⟩ := hread
        have hclose : ∀ outcome, ∀ exchange ∈ [(Exchange.receive conn remaining (.received nextConn (read ++ .done requestRef ::
            rest)) : Exchange γ ρ), .close nextConn outcome], Receiving exchange := fun outcome =>
          List.forall_mem_cons.2 ⟨trivial, List.forall_mem_singleton.2 trivial⟩
        refine close_ensures env nextConn (fun outcome => ⟨hclose outcome, nofun⟩) fun outcome =>
          Session.ensures_pure ⟨hclose outcome, ?_⟩
        rintro response ⟨⟩
        have hdelivered : Delivered limits requestRef (_ ++ .done requestRef :: rest) _ := .of_accumulated hacc hstatus
        rw [List.append_assoc] at hdelivered
        simpa [batches] using hdelivered

/-- A session that closes its connection without a request and fails. -/
theorem conversed_closed (conn closing : γ) (stop : Stop) :
    (close env closing >>= fun _ => Session.fail stop : Session σ (Exchange γ ρ) Stop Response).Ensures
      (Conversed limits conn) := by
  refine close_ensures env closing (fun outcome => Or.inl ⟨List.forall_mem_singleton.2 trivial, nofun⟩) fun outcome =>
    Session.ensures_fail (Or.inl ⟨List.forall_mem_singleton.2 trivial, nofun⟩)

theorem requestConnected_ensures (destination : HttpPolicy.Destination) (message : Message) (deadline : Int)
    (limits : ResponseLimits) (steps : Nat) (conn : γ) :
    (requestConnected env upcase destination message deadline limits steps conn).Ensures (Conversed limits conn) := by
  unfold requestConnected
  refine (env.remainingMs_silent deadline).bind_silent ?_ ?_
  · rintro reason ⟨remaining, hremaining⟩
    cases hremaining
  intro remaining _
  refine Session.ensures_ite (fun _ => conversed_closed env conn conn _) fun _ => ?_
  refine Session.Ensures.bind_call fun outcome => ?_
  cases outcome with
  | raised => exact Session.ensures_fail (Or.inr ⟨_, _, [], rfl, rfl, nofun, nofun⟩)
  | failed nextConn reason =>
    refine close_ensures env nextConn (fun outcome => Or.inr ⟨_, _, _, rfl, rfl, List.forall_mem_singleton.2 trivial, nofun⟩)
      fun outcome => Session.ensures_fail (Or.inr ⟨_, _, _, rfl, rfl, List.forall_mem_singleton.2 trivial, nofun⟩)
  | sent nextConn requestRef =>
    refine (receiveResponse_ensures env requestRef deadline limits steps nextConn (accumulated_new requestRef limits)).mono ?_
    rintro rest result ⟨hrest, hdelivered⟩
    exact Or.inr ⟨_, _, rest, rfl, rfl, hrest, fun response hresponse => ⟨nextConn, requestRef, rfl, hdelivered response hresponse⟩⟩

/-- What an address that is tried leaves. -/
def Tried (destination : HttpPolicy.Destination) (limits : ResponseLimits) (address : Address) (trace : List (Exchange γ ρ))
    (result : Except Stop Attempt) : Prop :=
  (trace = [] ∧ ∃ stop, result = .error stop) ∨
    ∃ call outcome rest, trace = .connect call outcome :: rest ∧ call.address = address ∧ call.hostname = destination.host ∧
      call.port = destination.port ∧
      ((rest = [] ∧ ∃ stop, result = .error stop) ∨
        (rest = [] ∧ (∃ reason, outcome = .failed reason ∧ normalizeTransportError reason ≠ .outboundTlsError) ∧
          ∃ reason, result = .ok (.retry reason)) ∨
        ∃ conn final, outcome = .connected conn ∧ result = final.map Attempt.success ∧ Conversed limits conn rest final)

theorem requestAddress_ensures (destination : HttpPolicy.Destination) (message : Message)
    (deadline configuredConnectTimeout : Int) (limits : ResponseLimits) (protocols : List Protocol) (steps : Nat)
    (address : Address) :
    (requestAddress env upcase destination message deadline configuredConnectTimeout limits protocols steps address).Ensures
      (Tried destination limits address) := by
  unfold requestAddress
  refine (env.remainingMs_silent deadline).bind_silent ?_ ?_
  · rintro reason ⟨remaining, hremaining⟩
    cases hremaining
  intro remaining _
  refine Session.ensures_ite (fun _ => Session.ensures_fail (Or.inl ⟨rfl, _, rfl⟩)) fun _ => ?_
  refine Session.Ensures.bind_call fun outcome => ?_
  cases outcome with
  | raised => exact Session.ensures_fail (Or.inr ⟨_, _, [], rfl, rfl, rfl, rfl, Or.inl ⟨rfl, _, rfl⟩⟩)
  | connected conn =>
    refine (requestConnected_ensures env upcase destination message deadline limits steps conn).bind ?_ ?_
    · intro trace stop hconversed
      exact Or.inr ⟨_, _, trace, rfl, rfl, rfl, rfl, Or.inr (Or.inr ⟨conn, .error stop, rfl, rfl, hconversed⟩)⟩
    · intro trace response hconversed
      refine Session.ensures_pure ?_
      rw [List.append_nil]
      exact Or.inr ⟨_, _, trace, rfl, rfl, rfl, rfl, Or.inr (Or.inr ⟨conn, .ok response, rfl, rfl, hconversed⟩)⟩
  | failed reason =>
    show (connectError env reason deadline).Ensures _
    unfold connectError
    refine Session.ensures_ite (fun _ => Session.ensures_fail ?_) fun htls => ?_
    · exact Or.inr ⟨_, _, [], rfl, rfl, rfl, rfl, Or.inl ⟨rfl, _, rfl⟩⟩
    · refine (env.remainingMs_silent deadline).bind_silent ?_ ?_
      · rintro stop ⟨remaining, hremaining⟩
        cases hremaining
      intro remaining _
      refine Session.ensures_ite (fun _ => Session.ensures_pure ?_) fun _ => Session.ensures_pure ?_
      · exact Or.inr ⟨_, _, [], rfl, rfl, rfl, rfl, Or.inr (Or.inl ⟨rfl, ⟨reason, rfl, htls⟩, _, rfl⟩)⟩
      · exact Or.inr ⟨_, _, [], rfl, rfl, rfl, rfl, Or.inr (Or.inl ⟨rfl, ⟨reason, rfl, htls⟩, _, rfl⟩)⟩

/-- By induction on the addresses. -/
theorem requestAddresses_ensures (destination : HttpPolicy.Destination) (message : Message)
    (deadline configuredConnectTimeout : Int) (limits : ResponseLimits) (protocols : List Protocol) (steps : Nat)
    (addresses : List Address) :
    (requestAddresses env upcase destination message deadline configuredConnectTimeout limits protocols steps addresses).Ensures
      (Requested destination limits addresses) := by
  induction addresses with
  | nil => exact Session.ensures_fail (LastTried.requested (Or.inl ⟨rfl, _, rfl⟩) (List.nil_prefix))
  | cons address remainingAddresses ih =>
    unfold requestAddresses
    refine (requestAddress_ensures env upcase destination message deadline configuredConnectTimeout limits protocols steps
      address).bind ?_ ?_
    · rintro trace stop (⟨rfl, -⟩ | ⟨call, outcome, rest, rfl, rfl, hhost, hport, hrest⟩)
      · exact LastTried.requested (Or.inl ⟨rfl, _, rfl⟩) List.nil_prefix
      · have horder : connects rest = [] → ((connects (.connect call outcome :: rest : List (Exchange γ ρ))).map fun attempt =>
            attempt.1.address) <+: call.address :: remainingAddresses := by
          intro hrest
          show call.address :: (connects rest).map _ <+: _
          rw [hrest]
          exact List.cons_prefix_cons.2 ⟨rfl, List.nil_prefix⟩
        rcases hrest with ⟨rfl, -⟩ | ⟨-, -, reason, hresult⟩ | ⟨conn, final, rfl, hfinal, hconversed⟩
        · exact LastTried.requested (Or.inr ⟨call, outcome, [], rfl, hhost, hport, Or.inl ⟨rfl, _, rfl⟩⟩) (horder rfl)
        · cases hresult
        · cases final with
          | ok response => cases hfinal
          | error stop' =>
            cases hfinal
            exact LastTried.requested (Or.inr ⟨call, _, rest, rfl, hhost, hport, Or.inr ⟨conn, rfl, hconversed⟩⟩)
              (horder hconversed.traces.2.1)
    · rintro trace attempt (⟨-, stop, hstop⟩ | ⟨call, outcome, rest, rfl, rfl, hhost, hport, hrest⟩)
      · cases hstop
      · rcases hrest with ⟨-, stop, hstop⟩ | ⟨rfl, ⟨reason, rfl, htls⟩, retried, hresult⟩ | ⟨conn, final, rfl, hfinal, hconversed⟩
        · cases hstop
        · cases hresult
          have hfailed : Failed destination (.connect call (.failed reason) : Exchange γ ρ) := ⟨call, reason, rfl, hhost, hport, htls⟩
          have hstop : ∀ stop, Requested destination limits (call.address :: remainingAddresses)
              ([.connect call (.failed reason)] : List (Exchange γ ρ)) (.error stop) := fun stop =>
            (LastTried.requested (Or.inl ⟨rfl, stop, rfl⟩) List.nil_prefix).cons hfailed
          refine Session.ensures_ite (fun _ => Session.ensures_fail (hstop _)) fun _ => ?_
          refine (env.remainingMs_silent deadline).bind_silent ?_ ?_
          · rintro stop ⟨remaining, hremaining⟩
            cases hremaining
          intro remaining _
          refine Session.ensures_ite (fun _ => ?_) fun _ => Session.ensures_fail (hstop _)
          exact ih.mono fun rest result hrequested => hrequested.cons hfailed
        · cases final with
          | error stop' => cases hfinal
          | ok response =>
            cases hfinal
            refine Session.ensures_pure ?_
            rw [List.append_nil]
            refine LastTried.requested (Or.inr ⟨call, _, rest, rfl, hhost, hport, Or.inr ⟨conn, rfl, hconversed⟩⟩) ?_
            show call.address :: (connects rest).map _ <+: _
            rw [hconversed.traces.2.1]
            exact List.cons_prefix_cons.2 ⟨rfl, List.nil_prefix⟩

end MintTransport

omit [DecidableEq ρ] in
/-- Failed connects ask for nothing else. -/
theorem Failed.traces (h : ∀ exchange ∈ trace, Failed destination exchange) :
    resolutions trace = [] ∧ requests trace = [] ∧ batches trace = [] ∧
      ∀ attempt ∈ connects trace, attempt.1.hostname = destination.host ∧ attempt.1.port = destination.port ∧
        ∃ reason, attempt.2 = .failed reason ∧ normalizeTransportError reason ≠ .outboundTlsError := by
  induction trace with
  | nil => exact ⟨rfl, rfl, rfl, nofun⟩
  | cons exchange trace ih =>
    obtain ⟨⟨call, reason, rfl, hhost, hport, htls⟩, htrace⟩ := List.forall_mem_cons.1 h
    obtain ⟨hresolutions, hrequests, hbatches, hconnects⟩ := ih htrace
    exact ⟨hresolutions, hrequests, hbatches, List.forall_mem_cons.2 ⟨⟨hhost, hport, reason, rfl, htls⟩, hconnects⟩⟩

/-- The last address connects once at most, and what is asked for is asked for on its connection. -/
theorem LastTried.traces (h : LastTried destination limits trace result) :
    resolutions trace = [] ∧ (connects trace).length ≤ 1 ∧
      (∀ attempt ∈ connects trace, attempt.1.hostname = destination.host ∧ attempt.1.port = destination.port) ∧
      (requests trace).length ≤ 1 ∧
      (∀ asked ∈ requests trace, ∃ call, connects trace = [(call, .connected asked.1.conn)]) ∧
      ∀ response, result = .ok response → ∃ call conn requestRef, requests trace = [(call, .sent conn requestRef)] ∧
        Delivered limits requestRef (batches trace).flatten response := by
  rcases h with ⟨rfl, stop, rfl⟩ | ⟨call, outcome, rest, rfl, hhost, hport, ⟨rfl, stop, rfl⟩ | ⟨conn, rfl, hconversed⟩⟩
  · exact ⟨rfl, Nat.zero_le _, nofun, Nat.zero_le _, nofun, nofun⟩
  · exact ⟨rfl, Nat.le_refl _, List.forall_mem_singleton.2 ⟨hhost, hport⟩, Nat.zero_le _, nofun, nofun⟩
  · obtain ⟨hresolutions, hconnects, hrequests, hasked⟩ := hconversed.traces
    have hone : connects (.connect call (.connected conn) :: rest) = [(call, .connected conn)] :=
      congrArg ((call, ConnectOutcome.connected conn) :: ·) hconnects
    refine ⟨hresolutions, ?_, ?_, hrequests, fun asked hmem => ?_, ?_⟩
    · rw [hone]
      exact Nat.le_refl _
    · rw [hone]
      exact List.forall_mem_singleton.2 ⟨hhost, hport⟩
    · rw [hone, hasked asked hmem]
      exact ⟨call, rfl⟩
    · rintro response rfl
      rcases hconversed with ⟨-, hnone⟩ | ⟨asked, outcome, rest, rfl, -, hreceiving, hdelivered⟩
      · exact absurd rfl (hnone response)
      · obtain ⟨nextConn, requestRef, rfl, hresponse⟩ := hdelivered response rfl
        refine ⟨asked, nextConn, requestRef, ?_, hresponse⟩
        exact congrArg ((asked, RequestOutcome.sent nextConn requestRef) :: ·) (Receiving.traces hreceiving).2.2

/-- What every request is held to. -/
structure Pinned (downcase : String → String) (ipLiteral : String → Bool) (url : Option String) (opts : RequestOpts)
    (trace : List (Exchange γ ρ)) (result : Except Stop Response) : Prop where
  resolved_once : (resolutions trace).length ≤ 1
  /-- Connections are made to addresses of the answer, in their order, and only if all of them may be reached. -/
  connected : connects trace ≠ [] → ∃ uri host port answer addresses rest, trace = .resolve host answer :: rest ∧
    HttpPolicy.Permitted downcase ipLiteral url opts.allowedHosts opts.allowedPorts uri host port ∧
    HttpPolicy.taskAddresses answer = .ok addresses ∧ (∀ address ∈ addresses, ¬ HttpPolicy.Special address) ∧
    (∀ attempt ∈ connects trace, attempt.1.hostname = host ∧ attempt.1.port = port) ∧
    ((connects trace).map fun attempt => attempt.1.address) <+: addresses
  /-- An address after which another one is tried. -/
  retried : ∀ before attempt next after, connects trace = before ++ attempt :: next :: after →
    ∃ reason, attempt.2 = .failed reason ∧ normalizeTransportError reason ≠ .outboundTlsError
  requested_once : (requests trace).length ≤ 1
  requested_last : ∀ asked ∈ requests trace, ∃ before call, connects trace = before ++ [(call, .connected asked.1.conn)]
  responded : ∀ response, result = .ok response → ∃ call conn requestRef, requests trace = [(call, .sent conn requestRef)] ∧
    Delivered ⟨opts.maxResponseBytes, opts.maxResponseHeaderBytes, opts.maxResponseHeaderCount⟩ requestRef
      (batches trace).flatten response

variable {downcase : String → String} {ipLiteral : String → Bool} {url : Option String} {opts : RequestOpts}

/-- A request that ends before it connects. -/
theorem Pinned.unconnected {stop : Stop} (hresolutions : (resolutions trace).length ≤ 1)
    (hconnects : connects trace = []) (hrequests : requests trace = []) :
    Pinned downcase ipLiteral url opts trace (.error stop) where
  resolved_once := hresolutions
  connected := fun h => absurd hconnects h
  retried := by
    intro before attempt next after h
    rw [hconnects] at h
    exact absurd h.symm (List.append_ne_nil_of_right_ne_nil _ (List.cons_ne_nil _ _))
  requested_once := hrequests ▸ Nat.zero_le _
  requested_last := hrequests ▸ nofun
  responded := nofun

private theorem mem_of_append_eq {α : Type} {xs ys before after : List α} {a b : α} (hys : ys.length ≤ 1)
    (h : xs ++ ys = before ++ a :: b :: after) : a ∈ xs := by
  have hlength := congrArg List.length h
  simp only [List.length_append, List.length_cons] at hlength
  have hget : (xs ++ ys)[before.length]? = some a := by
    rw [h]
    simp
  rw [List.getElem?_append_left (by omega)] at hget
  exact List.mem_of_getElem? hget

/-- A request that tried the addresses of a destination it has found. -/
theorem Requested.pinned {uri : ElixirUri.Uri} {answer : TaskOutcome}
    (h : Requested destination ⟨opts.maxResponseBytes, opts.maxResponseHeaderBytes, opts.maxResponseHeaderCount⟩
      destination.addresses trace result)
    (hpermitted : HttpPolicy.Permitted downcase ipLiteral url opts.allowedHosts opts.allowedPorts uri destination.host
      destination.port) (hanswer : HttpPolicy.taskAddresses answer = .ok destination.addresses)
    (hpublic : destination.addresses.all HttpPolicy.publicAddress = true) :
    Pinned downcase ipLiteral url opts (.resolve destination.host answer :: trace) result := by
  obtain ⟨⟨failures, last, rfl, hfailures, hlast⟩, horder⟩ := h
  obtain ⟨hresolutions, hrequests, hbatches, hfailed⟩ := Failed.traces hfailures
  obtain ⟨hresolutions', hlength, hlastConnects, hrequested, hasked, hresponded⟩ := hlast.traces
  have hresolved : resolutions (.resolve destination.host answer :: (failures ++ last)) = [(destination.host, answer)] := by
    show (destination.host, answer) :: resolutions (failures ++ last) = _
    rw [resolutions_append, hresolutions, hresolutions', List.append_nil]
  have hconnects : connects (.resolve destination.host answer :: (failures ++ last)) = connects failures ++ connects last :=
    connects_append failures last
  have hrequests' : requests (.resolve destination.host answer :: (failures ++ last)) = requests last := by
    show requests (failures ++ last) = _
    rw [requests_append, hrequests, List.nil_append]
  have hbatches' : batches (.resolve destination.host answer :: (failures ++ last)) = batches last := by
    show batches (failures ++ last) = _
    rw [batches_append, hbatches, List.nil_append]
  refine
    { resolved_once := by rw [hresolved]; exact Nat.le_refl _
      connected := fun _ => ?_
      retried := fun before attempt next after hsplit => ?_
      requested_once := by rw [hrequests']; exact hrequested
      requested_last := fun asked hmem => ?_
      responded := by rw [hrequests', hbatches']; exact hresponded }
  · refine ⟨uri, destination.host, destination.port, answer, destination.addresses, failures ++ last, rfl, hpermitted, hanswer,
      fun address hmem => HttpPolicy.not_special_of_publicAddress (List.all_eq_true.1 hpublic address hmem), ?_, horder⟩
    rw [hconnects]
    exact List.forall_mem_append.2 ⟨fun attempt hmem => ⟨(hfailed attempt hmem).1, (hfailed attempt hmem).2.1⟩, hlastConnects⟩
  · rw [hconnects] at hsplit
    exact (hfailed attempt (mem_of_append_eq hlength hsplit)).2.2
  · rw [hrequests'] at hmem
    obtain ⟨call, hcall⟩ := hasked asked hmem
    rw [hconnects, hcall]
    exact ⟨_, call, rfl⟩

variable (env : Environment σ γ ρ) (upcase : String → String)

theorem request_ensures (message : Message) (steps : Nat) :
    (PinnedHttp.request env upcase downcase ipLiteral url message opts steps).Ensures (Pinned downcase ipLiteral url opts) := by
  unfold PinnedHttp.request
  refine env.now_silent.bind_silent ?_ ?_
  · rintro reason ⟨now, hnow⟩
    cases hnow
  intro started _
  have hdeadline : (PinnedHttp.requestDeadline env opts.deadlineMs (started + opts.timeoutMs)).Ensures fun trace result =>
      trace = [] ∧ ∃ deadline, result = .ok deadline := by
    cases opts.deadlineMs with
    | «at» ownerDeadline => exact Session.ensures_pure ⟨rfl, _, rfl⟩
    | absent => exact Session.ensures_pure ⟨rfl, _, rfl⟩
    | other => exact env.now_silent
  refine hdeadline.bind_silent ?_ ?_
  · rintro reason ⟨deadline, hreason⟩
    cases hreason
  intro deadline _
  refine (HttpPolicy.resolveHttpsDestination_ensures downcase ipLiteral env url opts.allowedHosts opts.allowedPorts
    (some deadline)).bind ?_ ?_
  · rintro trace stop (⟨rfl, -⟩ | ⟨uri, host, port, -, answer, rfl, -⟩)
    · exact Pinned.unconnected (Nat.zero_le _) rfl rfl
    · exact Pinned.unconnected (Nat.le_refl _) rfl rfl
  · rintro trace destination (⟨-, stop, hstop⟩ | ⟨uri, host, port, hpermitted, answer, rfl, hfound⟩)
    · cases hstop
    · obtain ⟨-, rfl, rfl, hanswer, hpublic⟩ := hfound destination rfl
      refine env.now_silent.bind_silent ?_ ?_
      · rintro reason ⟨now, hnow⟩
        cases hnow
      intro now _
      refine Session.ensures_ite (fun _ => ?_) fun _ =>
        Session.ensures_fail (Pinned.unconnected (Nat.le_refl _) rfl rfl)
      unfold MintTransport.request
      refine (MintTransport.requestAddresses_ensures env upcase destination message deadline _ _ _ steps
        destination.addresses).mono ?_
      exact fun rest result hrequested => hrequested.pinned hpermitted hanswer hpublic

/-- Whatever the environment answers, a request is pinned to the addresses of one resolution, asked for on one connection at
most, and its response is what came in on it. -/
theorem request_pinned (message : Message) (steps : Nat) (s : σ) :
    Pinned downcase ipLiteral url opts ((PinnedHttp.request env upcase downcase ipLiteral url message opts steps).trace s)
      ((PinnedHttp.request env upcase downcase ipLiteral url message opts steps).result s) :=
  request_ensures env upcase message steps s

end Pinned

end KComms.Integrations
