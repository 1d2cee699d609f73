import KComms.Integrations.OutboundEnvironment
import KComms.Lib.ElixirUri

/-!
# Destinations of outbound requests (`CommsIntegrations.HttpPolicy`)

A destination is an `https` URL of an allowed host and port, all addresses of which are public.  No address of the networks
that must not be reached is public, in either family and in no form that holds an address of the other
(`not_special_of_publicAddress`).  `ipLiteral` is `ip_literal?` (`:inet.parse_address`) and `downcase` is `String.downcase`.
-/

namespace KComms.Integrations.HttpPolicy

open KComms.Web (Address)
open ElixirUri (Uri)

/-! ### Public addresses -/

def publicIpv4 (a b c : Nat) : Bool :=
  if a = 0 then false
  else if a = 10 then false
  else if a = 100 ∧ 64 ≤ b ∧ b ≤ 127 then false
  else if a = 127 then false
  else if a = 169 ∧ b = 254 then false
  else if a = 172 ∧ 16 ≤ b ∧ b ≤ 31 then false
  else if a = 192 ∧ b = 168 then false
  else if a = 192 ∧ b = 0 ∧ (c = 0 ∨ c = 2) then false
  else if a = 198 ∧ (b = 18 ∨ b = 19) then false
  else if a = 198 ∧ b = 51 ∧ c = 100 then false
  else if a = 203 ∧ b = 0 ∧ c = 113 then false
  else if 224 ≤ a then false
  else true

def publicIpv6 (first second : Nat) : Bool :=
  if first &&& 0xFE00 = 0xFC00 then false
  else if first &&& 0xFFC0 = 0xFE80 then false
  else if first &&& 0xFFC0 = 0xFEC0 then false
  else if first &&& 0xE000 ≠ 0x2000 then false
  else if first = 0x2001 ∧ second = 0x0000 then false
  else if first = 0x2001 ∧ second = 0x0DB8 then false
  else if first = 0x2002 then false
  else if first &&& 0xFF00 = 0xFF00 then false
  else true

def publicAddress : Address → Bool
  | .ipv4 a b c _ => publicIpv4 a b c
  | .ipv6 0 0 0 0 0 0 0 0 => false
  | .ipv6 0 0 0 0 0 0 0 1 => false
  | .ipv6 0 0 0 0 0 0xFFFF high low => publicIpv4 (high.val / 256) (high.val % 256) (low.val / 256)
  | .ipv6 first second _ _ _ _ _ _ => publicIpv6 first second
  | .other => false

/-! ### Destinations -/

structure Destination where
  uri : Uri
  host : String
  port : Nat
  addresses : List Address
  deriving DecidableEq, Repr

/-- `remaining_ms` with the addresses that `normalize_addresses` makes of a value. -/
def normalizeAddresses : ResolverValue → Except Reason (List Address)
  | .okAddresses addresses => .ok addresses.eraseDups
  | .timeout => .error .outboundTimeout
  | .addresses addresses => .ok addresses.eraseDups
  | .other => .ok []

/-- `safe_invoke_resolver` -/
def safeInvokeResolver : ResolverOutcome → ResolverValue
  | .returned value => value
  | .raised => .addresses []
  | .lookups inet inet6 => .addresses (inet.getD [] ++ inet6.getD []).eraseDups

def taskAddresses : TaskOutcome → Except Reason (List Address)
  | .finished outcome => normalizeAddresses (safeInvokeResolver outcome)
  | .exited => .ok []
  | .late => .error .outboundTimeout

section Destinations

variable (downcase : String → String) (ipLiteral : String → Bool)

/-- `String.trim_trailing(value, ".")` -/
def trimTrailingDots (value : String) : String := String.ofList (value.toList.reverse.dropWhile (· == '.')).reverse

def normalizeHost (host : String) : String := downcase (trimTrailingDots (ElixirString.trim host))

variable {σ γ ρ : Type} (env : Environment σ γ ρ)

def resolveAddresses (host : String) (deadline : Option Int) : Session σ (Exchange γ ρ) Stop (List Address) :=
  match deadline with
  | some deadline => do
    let remaining ← env.remainingMs deadline
    if remaining = 0 then Session.fail (.error .outboundTimeout)
    else do
      let outcome ← Session.call (env.resolveBefore host deadline) fun outcome => .resolve host outcome
      Session.ofExcept ((taskAddresses outcome).mapError .error)
  | none => do
    let outcome ← Session.call (env.resolve host) fun outcome => .resolve host (.finished outcome)
    Session.ofExcept ((taskAddresses (.finished outcome)).mapError .error)

def resolveAndValidate (uri : Uri) (host : String) (port : Nat) (deadline : Option Int) :
    Session σ (Exchange γ ρ) Stop Destination := do
  let addresses ← resolveAddresses env host deadline
  if addresses = [] then Session.fail (.error .outboundDnsUnavailable)
  else if addresses.all publicAddress then pure { uri := uri, host := host, port := port, addresses := addresses }
  else Session.fail (.error .outboundPrivateAddressForbidden)

/-- The options of the policy; `resolve` is not given by `PinnedHttp`. -/
structure PolicyOpts where
  resolve : Bool := true
  deadlineMs : Option Int := none
  deriving DecidableEq, Repr

def resolveHttpsDestination (url : Option String) (allowedHosts : List String) (allowedPorts : List Nat) (opts : PolicyOpts) :
    Session σ (Exchange γ ρ) Stop Destination :=
  let uri := ElixirUri.parse (url.getD "")
  let host := uri.host.map (normalizeHost downcase)
  let port := uri.port.getD 443
  let allowedHosts := allowedHosts.map (normalizeHost downcase)
  if uri.scheme ≠ some "https" then Session.fail (.error .outboundHttpsRequired)
  else
    match host with
    | none => Session.fail (.error .outboundHostRequired)
    | some host =>
      if host = "" then Session.fail (.error .outboundHostRequired)
      else if uri.userinfo ≠ none then Session.fail (.error .outboundCredentialsForbidden)
      else if uri.fragment ≠ none then Session.fail (.error .outboundFragmentForbidden)
      else if port ∉ allowedPorts then Session.fail (.error .outboundPortNotAllowed)
      else if host ∉ allowedHosts then Session.fail (.error .outboundHostNotAllowed)
      else if ipLiteral host then Session.fail (.error .outboundIpLiteralForbidden)
      else if opts.resolve then resolveAndValidate env uri host port opts.deadlineMs
      else pure { uri := uri, host := host, port := port, addresses := [] }

/-- A URL that a request may be made for, with the host and the port that it names. -/
structure Permitted (url : Option String) (allowedHosts : List String) (allowedPorts : List Nat) (uri : Uri) (host : String)
    (port : Nat) : Prop where
  uri_eq : uri = ElixirUri.parse (url.getD "")
  https : uri.scheme = some "https"
  no_userinfo : uri.userinfo = none
  no_fragment : uri.fragment = none
  host_eq : uri.host.map (normalizeHost downcase) = some host
  host_ne : host ≠ ""
  host_allowed : host ∈ allowedHosts.map (normalizeHost downcase)
  port_eq : port = uri.port.getD 443
  port_allowed : port ∈ allowedPorts
  no_literal : ipLiteral host = false

/-- A failure that asked nothing. -/
def Silent {α : Type} (trace : List (Exchange γ ρ)) (result : Except Stop α) : Prop :=
  trace = [] ∧ ∃ stop, result = .error stop

private theorem call_ensures {α : Type} (host : String) (answer : σ → α × σ) (outcomeOf : α → TaskOutcome) :
    (Session.call answer (fun a => Exchange.resolve host (outcomeOf a)) >>= fun a =>
      Session.ofExcept ((taskAddresses (outcomeOf a)).mapError Stop.error) :
        Session σ (Exchange γ ρ) Stop (List Address)).Ensures fun trace result =>
      ∃ outcome, trace = [.resolve host outcome] ∧ ∀ addresses, result = .ok addresses → taskAddresses outcome = .ok addresses := by
  refine Session.Ensures.bind_call fun a => Session.ensures_ofExcept ⟨outcomeOf a, rfl, ?_⟩
  intro addresses haddresses
  cases htask : taskAddresses (outcomeOf a) with
  | ok found =>
    rw [htask] at haddresses
    cases haddresses
    rfl
  | error reason =>
    rw [htask] at haddresses
    cases haddresses

theorem resolveAddresses_ensures (host : String) (deadline : Option Int) :
    (resolveAddresses env host deadline).Ensures fun trace result => Silent trace result ∨
      ∃ outcome, trace = [.resolve host outcome] ∧ ∀ addresses, result = .ok addresses → taskAddresses outcome = .ok addresses := by
  cases deadline with
  | none => exact (call_ensures host (env.resolve host) .finished).mono fun _ _ => Or.inr
  | some deadline =>
    unfold resolveAddresses
    refine (env.remainingMs_silent deadline).bind_silent ?_ ?_
    · rintro reason ⟨remaining, hremaining⟩
      cases hremaining
    · intro remaining _
      refine Session.ensures_ite (fun _ => Session.ensures_fail (Or.inl ⟨rfl, _, rfl⟩)) fun _ => ?_
      exact (call_ensures host (env.resolveBefore host deadline) id).mono fun _ _ => Or.inr

/-- What a destination that was found says of the one question that was asked. -/
def Found (uri : Uri) (host : String) (port : Nat) (trace : List (Exchange γ ρ)) (result : Except Stop Destination) : Prop :=
  ∃ outcome, trace = [.resolve host outcome] ∧ ∀ destination, result = .ok destination →
    destination.uri = uri ∧ destination.host = host ∧ destination.port = port ∧
      taskAddresses outcome = .ok destination.addresses ∧ destination.addresses.all publicAddress = true

theorem resolveAndValidate_ensures (uri : Uri) (host : String) (port : Nat) (deadline : Option Int) :
    (resolveAndValidate env uri host port deadline).Ensures fun trace result =>
      Silent trace result ∨ Found uri host port trace result := by
  unfold resolveAndValidate
  refine (resolveAddresses_ensures env host deadline).bind ?_ ?_
  · rintro trace stop (⟨rfl, -⟩ | ⟨outcome, rfl, -⟩)
    · exact Or.inl ⟨rfl, stop, rfl⟩
    · exact Or.inr ⟨outcome, rfl, nofun⟩
  · rintro trace addresses (⟨-, stop, hstop⟩ | ⟨outcome, rfl, haddresses⟩)
    · cases hstop
    · have hfail : ∀ reason, (Session.fail (.error reason) : Session σ (Exchange γ ρ) Stop Destination).Ensures fun rest result =>
          Silent ([Exchange.resolve host outcome] ++ rest) result ∨
            Found uri host port ([Exchange.resolve host outcome] ++ rest) result :=
        fun reason => Session.ensures_fail (Or.inr ⟨outcome, rfl, nofun⟩)
      refine Session.ensures_ite (fun _ => hfail _) fun _ => Session.ensures_ite (fun hpublic => ?_) fun _ => hfail _
      refine Session.ensures_pure (Or.inr ⟨outcome, rfl, ?_⟩)
      rintro _ ⟨⟩
      exact ⟨rfl, rfl, rfl, haddresses _ rfl, hpublic⟩

theorem resolveHttpsDestination_ensures (url : Option String) (allowedHosts : List String) (allowedPorts : List Nat)
    (deadline : Option Int) :
    (resolveHttpsDestination downcase ipLiteral env url allowedHosts allowedPorts { deadlineMs := deadline }).Ensures
      fun trace result => Silent trace result ∨ ∃ uri host port,
        Permitted downcase ipLiteral url allowedHosts allowedPorts uri host port ∧ Found uri host port trace result := by
  have hfail : ∀ reason, (Session.fail (.error reason) : Session σ (Exchange γ ρ) Stop Destination).Ensures fun trace result =>
      Silent trace result ∨ ∃ uri host port,
        Permitted downcase ipLiteral url allowedHosts allowedPorts uri host port ∧ Found uri host port trace result :=
    fun reason => Session.ensures_fail (Or.inl ⟨rfl, _, rfl⟩)
  unfold resolveHttpsDestination
  dsimp only
  refine Session.ensures_ite (fun _ => hfail _) fun hscheme => ?_
  cases hhost : (ElixirUri.parse (url.getD "")).host.map (normalizeHost downcase) with
  | none => exact hfail _
  | some host =>
    refine Session.ensures_ite (fun _ => hfail _) fun hempty => ?_
    refine Session.ensures_ite (fun _ => hfail _) fun huserinfo => ?_
    refine Session.ensures_ite (fun _ => hfail _) fun hfragment => ?_
    refine Session.ensures_ite (fun _ => hfail _) fun hport => ?_
    refine Session.ensures_ite (fun _ => hfail _) fun hallowed => ?_
    refine Session.ensures_ite (fun _ => hfail _) fun hliteral => ?_
    have hpermitted : Permitted downcase ipLiteral url allowedHosts allowedPorts (ElixirUri.parse (url.getD "")) host
        ((ElixirUri.parse (url.getD "")).port.getD 443) :=
      { uri_eq := rfl
        https := not_not.1 hscheme
        no_userinfo := not_not.1 huserinfo
        no_fragment := not_not.1 hfragment
        host_eq := hhost
        host_ne := hempty
        host_allowed := not_not.1 hallowed
        port_eq := rfl
        port_allowed := not_not.1 hport
        no_literal := Bool.eq_false_iff.2 hliteral }
    refine (resolveAndValidate_ensures env _ host _ deadline).mono ?_
    rintro trace result (hsilent | hfound)
    · exact Or.inl hsilent
    · exact Or.inr ⟨_, host, _, hpermitted, hfound⟩

end Destinations

/-! ### Networks -/

def ipv4Number (a b c d : Nat) : Nat := ((a * 256 + b) * 256 + c) * 256 + d

def ipv6Number (a b c d e f g h : Nat) : Nat :=
  ((((((a * 65536 + b) * 65536 + c) * 65536 + d) * 65536 + e) * 65536 + f) * 65536 + g) * 65536 + h

/-- The leading bits of a value are those of a network. -/
def Within (width value : Nat) (network : Nat × Nat) : Prop :=
  value / 2 ^ (width - network.2) = network.1 / 2 ^ (width - network.2)

/-- The unspecified address, loopback, private, shared, link-local and multicast networks, and what is reserved. -/
def specialIpv4 : List (Nat × Nat) :=
  [(ipv4Number 0 0 0 0, 32), (ipv4Number 127 0 0 0, 8), (ipv4Number 10 0 0 0, 8), (ipv4Number 172 16 0 0, 12),
    (ipv4Number 192 168 0 0, 16), (ipv4Number 100 64 0 0, 10), (ipv4Number 169 254 0 0, 16), (ipv4Number 224 0 0 0, 4),
    (ipv4Number 240 0 0 0, 4)]

/-- The unspecified address, loopback, link-local, unique-local and multicast networks; 6to4, Teredo and NAT64. -/
def specialIpv6 : List (Nat × Nat) :=
  [(ipv6Number 0 0 0 0 0 0 0 0, 128), (ipv6Number 0 0 0 0 0 0 0 1, 128), (ipv6Number 0xFE80 0 0 0 0 0 0 0, 10),
    (ipv6Number 0xFC00 0 0 0 0 0 0 0, 7), (ipv6Number 0xFF00 0 0 0 0 0 0 0, 8), (ipv6Number 0x2002 0 0 0 0 0 0 0, 16),
    (ipv6Number 0x2001 0 0 0 0 0 0 0, 32), (ipv6Number 0x64 0xFF9B 0 0 0 0 0 0, 96),
    (ipv6Number 0x64 0xFF9B 1 0 0 0 0 0, 48)]

/-- IPv4 addresses in IPv6 form. -/
def mappedIpv4 : Nat × Nat := (ipv6Number 0 0 0 0 0 0xFFFF 0 0, 96)

/-- An address of a network that must not be reached; a term that is no address counts as one. -/
def Special : Address → Prop
  | .ipv4 a b c d => ∃ network ∈ specialIpv4, Within 32 (ipv4Number a b c d) network
  | .ipv6 a b c d e f g h =>
    (∃ network ∈ specialIpv6, Within 128 (ipv6Number a b c d e f g h) network) ∨
      (Within 128 (ipv6Number a b c d e f g h) mappedIpv4 ∧
        ∃ network ∈ specialIpv4, Within 32 (ipv6Number a b c d e f g h % 2 ^ 32) network)
  | .other => True

private theorem not_special_ipv4 {a b c d : Nat} (hb : b < 256) (hc : c < 256) (hd : d < 256)
    (h : publicIpv4 a b c = true) : ¬ ∃ network ∈ specialIpv4, Within 32 (ipv4Number a b c d) network := by
  rintro ⟨network, hmem, hwithin⟩
  unfold publicIpv4 at h
  simp only [specialIpv4, List.mem_cons, List.not_mem_nil, or_false] at hmem
  rcases hmem with rfl | rfl | rfl | rfl | rfl | rfl | rfl | rfl | rfl
  all_goals
    simp only [Within, ipv4Number, Nat.reduceSub, Nat.reducePow, Nat.reduceMul, Nat.reduceAdd, Nat.reduceDiv] at hwithin
  · have ha : a = 0 := by omega
    simp [ha] at h
  · have ha : a = 127 := by omega
    simp [ha] at h
  · have ha : a = 10 := by omega
    simp [ha] at h
  · have ha : a = 172 ∧ 16 ≤ b ∧ b ≤ 31 := by omega
    simp [ha] at h
  · have ha : a = 192 ∧ b = 168 := by omega
    simp [ha] at h
  · have ha : a = 100 ∧ 64 ≤ b ∧ b ≤ 127 := by omega
    simp [ha] at h
  · have ha : a = 169 ∧ b = 254 := by omega
    simp [ha] at h
  · have ha : 224 ≤ a := by omega
    simp [ha] at h
  · have ha : 224 ≤ a := by omega
    simp [ha] at h

/-- Only addresses of `2000::/3` are public. -/
private theorem publicIpv6_first {first second : Nat} (hfirst : first < 65536) (h : publicIpv6 first second = true) :
    0x2000 ≤ first ∧ first < 0x4000 ∧ first ≠ 0x2002 ∧ ¬ (first = 0x2001 ∧ second = 0) := by
  unfold publicIpv6 at h
  have hmask : first &&& 0xE000 = 0x2000 := by
    by_contra hne
    simp [hne] at h
  have hbits : (first &&& 0xE000) >>> 13 = first >>> 13 &&& 0xE000 >>> 13 := Nat.shiftRight_and_distrib
  have hthree : first >>> 13 &&& 2 ^ 3 - 1 = first >>> 13 % 2 ^ 3 := Nat.and_two_pow_sub_one_eq_mod _ 3
  rw [hmask, show 0xE000 >>> 13 = 2 ^ 3 - 1 by decide, hthree, Nat.shiftRight_eq_div_pow, Nat.shiftRight_eq_div_pow] at hbits
  have h6to4 : first ≠ 0x2002 := by
    intro heq
    simp [heq] at h
  have hteredo : ¬ (first = 0x2001 ∧ second = 0) := by
    intro heq
    simp [heq] at h
  exact ⟨by omega, by omega, h6to4, hteredo⟩

private theorem not_special_publicIpv6 {a b c d e f g h : Nat} (ha : a < 65536) (hb : b < 65536) (hc : c < 65536)
    (hd : d < 65536) (he : e < 65536) (hf : f < 65536) (hg : g < 65536) (hh : h < 65536) (hpublic : publicIpv6 a b = true) :
    (¬ ∃ network ∈ specialIpv6, Within 128 (ipv6Number a b c d e f g h) network) ∧
      ¬ Within 128 (ipv6Number a b c d e f g h) mappedIpv4 := by
  obtain ⟨hlow, hhigh, h6to4, hteredo⟩ := publicIpv6_first ha hpublic
  constructor
  · rintro ⟨network, hmem, hwithin⟩
    simp only [specialIpv6, List.mem_cons, List.not_mem_nil, or_false] at hmem
    rcases hmem with rfl | rfl | rfl | rfl | rfl | rfl | rfl | rfl | rfl
    all_goals
      simp only [Within, ipv6Number, Nat.reduceSub, Nat.reducePow, Nat.reduceMul, Nat.reduceAdd, Nat.reduceDiv] at hwithin
      omega
  · intro hwithin
    simp only [Within, ipv6Number, mappedIpv4, Nat.reduceSub, Nat.reducePow, Nat.reduceMul, Nat.reduceAdd, Nat.reduceDiv]
      at hwithin
    omega

/-- An IPv4 address in IPv6 form is none of the IPv6 networks, and its number ends with the other address. -/
private theorem not_special_mapped {high low : Nat} (hhigh : high < 65536) (hlow : low < 65536)
    (hpublic : publicIpv4 (high / 256) (high % 256) (low / 256) = true) :
    (¬ ∃ network ∈ specialIpv6, Within 128 (ipv6Number 0 0 0 0 0 0xFFFF high low) network) ∧
      ¬ ∃ network ∈ specialIpv4, Within 32 (ipv6Number 0 0 0 0 0 0xFFFF high low % 2 ^ 32) network := by
  constructor
  · rintro ⟨network, hmem, hwithin⟩
    simp only [specialIpv6, List.mem_cons, List.not_mem_nil, or_false] at hmem
    rcases hmem with rfl | rfl | rfl | rfl | rfl | rfl | rfl | rfl | rfl
    all_goals
      simp only [Within, ipv6Number, Nat.reduceSub, Nat.reducePow, Nat.reduceMul, Nat.reduceAdd, Nat.reduceDiv] at hwithin
      omega
  · have hnumber : ipv6Number 0 0 0 0 0 0xFFFF high low % 2 ^ 32 =
        ipv4Number (high / 256) (high % 256) (low / 256) (low % 256) := by
      simp only [ipv6Number, ipv4Number, Nat.reducePow]
      omega
    rw [hnumber]
    exact not_special_ipv4 (by omega) (by omega) (by omega) hpublic

theorem not_special_of_publicAddress {address : Address} (h : publicAddress address = true) : ¬ Special address := by
  cases address with
  | ipv4 a b c d => exact not_special_ipv4 b.isLt c.isLt d.isLt h
  | other => exact absurd h (by decide)
  | ipv6 a b c d e f g i =>
    have hg := g.isLt
    have hi := i.isLt
    unfold publicAddress at h
    split at h
    · rename_i heq
      cases heq
    · exact absurd h (by decide)
    · exact absurd h (by decide)
    · rename_i high low heq
      cases heq
      have hmapped := not_special_mapped hg hi h
      exact fun hspecial => hspecial.elim hmapped.1 fun hwithin => hmapped.2 hwithin.2
    · rename_i first second _ _ _ _ _ _ _ _ _ heq
      cases heq
      have hpublic := not_special_publicIpv6 a.isLt b.isLt c.isLt d.isLt e.isLt f.isLt hg hi h
      exact fun hspecial => hspecial.elim hpublic.1 fun hmapped => hpublic.2 hmapped.1
    · cases h

end KComms.Integrations.HttpPolicy
