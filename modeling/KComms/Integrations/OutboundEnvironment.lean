import KComms.Lib.TracedSession
import KComms.Web.TrustedProxy

/-!
# The environment of an outbound request

What an outbound request asks of the clock, of the resolver and of `Mint.HTTP`, and the outcomes each of them can have.
Nothing is known of the answers.  The trace of a request keeps every call but those of the clock.
-/

namespace KComms.Integrations

open KComms.Web (Address)

abbrev Bytes := List UInt8

/-- The reasons of the errors that a request returns. -/
inductive Reason
  | outboundHttpsRequired
  | outboundHostRequired
  | outboundCredentialsForbidden
  | outboundFragmentForbidden
  | outboundPortNotAllowed
  | outboundHostNotAllowed
  | outboundIpLiteralForbidden
  | outboundDnsUnavailable
  | outboundPrivateAddressForbidden
  | outboundTimeout
  | outboundTransportError
  | outboundTlsError
  | outboundResponseHeadersTooLarge
  | outboundResponseTooLarge
  | outboundInvalidResponse
  deriving DecidableEq, Repr

/-- How a session ends that gives no value; `running` is one that is not over after the steps it was given. -/
inductive Stop
  | error (reason : Reason)
  | running
  deriving DecidableEq, Repr

/-! ### The resolver -/

/-- The value of a resolver function. -/
inductive ResolverValue
  | okAddresses (addresses : List Address)
  | addresses (addresses : List Address)
  | timeout
  | other
  deriving DecidableEq, Repr

/-- How a resolver ends; without a function `:inet.getaddrs` is asked for both families. -/
inductive ResolverOutcome
  | returned (value : ResolverValue)
  | raised
  | lookups (inet inet6 : Option (List Address))
  deriving DecidableEq, Repr

/-- How the task of a resolver ends within a deadline. -/
inductive TaskOutcome
  | finished (outcome : ResolverOutcome)
  | exited
  | late
  deriving DecidableEq, Repr

/-! ### `Mint.HTTP` -/

/-- The reasons of Mint's errors, as far as they are told apart. -/
inductive MintReason
  | transportError (reason : MintReason)
  | timeout
  | protocolNotNegotiated
  | badAlpnProtocol
  | tlsAlert
  | options
  | other
  deriving DecidableEq, Repr

inductive HeaderTerm
  | pair (name value : Bytes)
  | other
  deriving DecidableEq, Repr

/-- An entry of a response; a status that is no integer and headers that are no list are `none`. -/
inductive Entry (ρ : Type)
  | status (ref : ρ) (status : Option Int)
  | headers (ref : ρ) (headers : Option (List HeaderTerm))
  | data (ref : ρ) (data : Bytes)
  | done (ref : ρ)
  | error (ref : ρ) (reason : MintReason)
  | other
  deriving DecidableEq, Repr

inductive Protocol
  | http1 | http2
  deriving DecidableEq, Repr

structure ConnectCall where
  address : Address
  port : Nat
  hostname : String
  protocols : List Protocol
  connectTimeout : Int
  sendTimeout : Int
  inet6 : Bool
  deriving DecidableEq, Repr

inductive ConnectOutcome (γ : Type)
  | connected (conn : γ)
  | failed (reason : MintReason)
  | raised
  deriving DecidableEq, Repr

structure RequestCall (γ : Type) where
  conn : γ
  method : String
  target : String
  headers : List (String × String)
  body : Bytes
  deriving DecidableEq, Repr

inductive RequestOutcome (γ ρ : Type)
  | sent (conn : γ) (ref : ρ)
  | failed (conn : γ) (reason : MintReason)
  | raised
  deriving DecidableEq, Repr

inductive ReceiveOutcome (γ ρ : Type)
  | received (conn : γ) (entries : List (Entry ρ))
  | failed (conn : γ) (reason : MintReason) (entries : List (Entry ρ))
  | raised
  deriving DecidableEq, Repr

inductive CloseOutcome
  | closed
  | raised
  deriving DecidableEq, Repr

/-- A call and its outcome. -/
inductive Exchange (γ ρ : Type)
  | resolve (host : String) (outcome : TaskOutcome)
  | connect (call : ConnectCall) (outcome : ConnectOutcome γ)
  | request (call : RequestCall γ) (outcome : RequestOutcome γ ρ)
  | receive (conn : γ) (timeout : Int) (outcome : ReceiveOutcome γ ρ)
  | close (conn : γ) (outcome : CloseOutcome)
  deriving DecidableEq, Repr

/-- What answers the calls, with states `σ`, connections `γ` and references of requests `ρ`. -/
structure Environment (σ γ ρ : Type) where
  monotonicMs : σ → Int × σ
  resolve : String → σ → ResolverOutcome × σ
  resolveBefore : String → Int → σ → TaskOutcome × σ
  connect : ConnectCall → σ → ConnectOutcome γ × σ
  request : RequestCall γ → σ → RequestOutcome γ ρ × σ
  receive : γ → Int → σ → ReceiveOutcome γ ρ × σ
  close : γ → σ → CloseOutcome × σ

namespace Environment

variable {σ γ ρ : Type}

def now (env : Environment σ γ ρ) : Session σ (Exchange γ ρ) Stop Int := Session.ask env.monotonicMs

/-- `remaining_ms` -/
def remainingMs (env : Environment σ γ ρ) (deadline : Int) : Session σ (Exchange γ ρ) Stop Int := do
  let now ← env.now
  return max (deadline - now) 0

theorem now_silent (env : Environment σ γ ρ) : env.now.Ensures fun trace result => trace = [] ∧ ∃ now, result = .ok now :=
  Session.ensures_ask fun now => ⟨rfl, now, rfl⟩

theorem remainingMs_silent (env : Environment σ γ ρ) (deadline : Int) :
    (env.remainingMs deadline).Ensures fun trace result => trace = [] ∧ ∃ remaining, result = .ok remaining := by
  refine env.now_silent.bind_silent ?_ ?_
  · rintro reason ⟨now, hnow⟩
    cases hnow
  · intro now _
    exact Session.ensures_pure ⟨rfl, _, rfl⟩

end Environment

/-! ### Traces -/

section Traces

variable {γ ρ : Type}

def resolutions (trace : List (Exchange γ ρ)) : List (String × TaskOutcome) :=
  trace.filterMap fun
    | .resolve host outcome => some (host, outcome)
    | _ => none

def connects (trace : List (Exchange γ ρ)) : List (ConnectCall × ConnectOutcome γ) :=
  trace.filterMap fun
    | .connect call outcome => some (call, outcome)
    | _ => none

def requests (trace : List (Exchange γ ρ)) : List (RequestCall γ × RequestOutcome γ ρ) :=
  trace.filterMap fun
    | .request call outcome => some (call, outcome)
    | _ => none

/-- The batches of entries that came in. -/
def batches (trace : List (Exchange γ ρ)) : List (List (Entry ρ)) :=
  trace.filterMap fun
    | .receive _ _ (.received _ entries) => some entries
    | .receive _ _ (.failed _ _ entries) => some entries
    | _ => none

theorem resolutions_append (trace rest : List (Exchange γ ρ)) : resolutions (trace ++ rest) = resolutions trace ++ resolutions rest :=
  List.filterMap_append

theorem connects_append (trace rest : List (Exchange γ ρ)) : connects (trace ++ rest) = connects trace ++ connects rest :=
  List.filterMap_append

theorem requests_append (trace rest : List (Exchange γ ρ)) : requests (trace ++ rest) = requests trace ++ requests rest :=
  List.filterMap_append

theorem batches_append (trace rest : List (Exchange γ ρ)) : batches (trace ++ rest) = batches trace ++ batches rest :=
  List.filterMap_append

end Traces

end KComms.Integrations
