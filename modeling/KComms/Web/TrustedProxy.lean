import KComms.Lib.ElixirString
import KComms.Lib.LeadingBits
import KComms.Lib.Utf8

/-!
# Forwarding metadata (`CommsWeb.Plugs.TrustedProxy`)

The right-most address of the chain that is no trusted proxy is the client.  What stands before a chain that a trusted
ingress has made can make the whole header invalid, but cannot choose another address.  The values of headers are octets;
where a trusted peer passes on a piece that is no UTF-8, the request raises (`client_address_forged`).  `parseAddress` is
`:inet.parse_address`.
-/

namespace KComms.Web

open ElixirString (trim trimOctets pieces splitOnce integerParse)
open LeadingBits (leadingBits)

/-- The address of a peer: a tuple of four or of eight numbers, or another term. -/
inductive Address
  | ipv4 (a b c d : Fin 256)
  | ipv6 (a b c d e f g h : Fin 65536)
  | other
  deriving DecidableEq, Repr

inductive Family
  | ipv4 | ipv6
  deriving DecidableEq, Repr

def Family.width : Family → Nat
  | .ipv4 => 32
  | .ipv6 => 128

def Address.family : Address → Option Family
  | .ipv4 .. => some .ipv4
  | .ipv6 .. => some .ipv6
  | .other => none

/-- The bits of an address, the first ones first. -/
def Address.bits : Address → List Bool
  | .ipv4 a b c d => [a, b, c, d].flatMap fun octet => leadingBits 8 octet.val
  | .ipv6 a b c d e f g h => [a, b, c, d, e, f, g, h].flatMap fun segment => leadingBits 16 segment.val
  | .other => []

namespace TrustedProxy

def maxForwardedAddresses : Nat := 20

/-- `address_integer`: the family, the value and the number of bits. -/
def addressInteger : Address → Option (Family × Nat × Nat)
  | .ipv4 a b c d => some (.ipv4, a * 16777216 + b * 65536 + c * 256 + d, 32)
  | .ipv6 a b c d e f g h =>
    some (.ipv6, [a, b, c, d, e, f, g, h].foldl (fun accumulator (segment : Fin 65536) => accumulator <<< 16 + segment.val) 0,
      128)
  | .other => none

/-- `{family, address, prefix}` -/
structure Network where
  family : Family
  address : Address
  prefixLength : Nat
  deriving DecidableEq, Repr

def parsePrefix (text : Option String) (bits : Nat) : Option Nat :=
  match text with
  | none => some bits
  | some text =>
    match integerParse text with
    | some (length, "") => if 0 ≤ length ∧ length ≤ bits then some length.toNat else none
    | _ => none

section Parsing

variable (parseAddress : String → Option Address)

def network (address : String) (prefixText : Option String) : List Network :=
  match parseAddress address with
  | none => []
  | some parsed =>
    match addressInteger parsed with
    | none => []
    | some (family, _, bits) =>
      match parsePrefix prefixText bits with
      | none => []
      | some length => [⟨family, parsed, length⟩]

/-- `parse_network`; a value of the configuration that is no text is `none`. -/
def parseNetwork : Option String → List Network
  | some value =>
    let (address, prefixText) := splitOnce (trim value) '/'
    network parseAddress address prefixText
  | none => []

def trustedNetworks (trustedProxyCidrs : List (Option String)) : List Network :=
  trustedProxyCidrs.flatMap (parseNetwork parseAddress)

/-- What `String.to_charlist` raises. -/
inductive ConversionError
  | unicodeConversionError
  deriving DecidableEq, Repr

/-- `String.to_charlist` -/
def toCharlist (value : List UInt8) : Except ConversionError String :=
  match String.fromUTF8? ⟨value.toArray⟩ with
  | some text => .ok text
  | none => .error .unicodeConversionError

def comma : UInt8 := 0x2C

/-- `String.split(header, ",", trim: true)` -/
def splitHeader (header : List UInt8) : List (List UInt8) := (pieces comma header).filter fun piece => piece ≠ []

/-- The address in a piece of a header. -/
def parsePiece (piece : List UInt8) : Except ConversionError (Option Address) :=
  (toCharlist (trimOctets piece)).map parseAddress

def forwardedChain (forwardedValues : List (List UInt8)) : Except ConversionError (Option (List Address)) :=
  match forwardedValues with
  | [header] => do
    let addresses ← (splitHeader header).mapM (parsePiece parseAddress)
    if addresses ≠ [] ∧ addresses.length ≤ maxForwardedAddresses ∧ addresses.all Option.isSome then
      pure (some (addresses.filterMap id))
    else pure none
  | _ => pure none

end Parsing

/-- `trusted?`; the address of a network of the same family always has a value. -/
def trusted (address : Address) (networks : List Network) : Bool :=
  match addressInteger address with
  | some (family, value, bits) =>
    networks.any fun network =>
      if network.family = family then
        match addressInteger network.address with
        | some (_, networkValue, _) => value >>> (bits - network.prefixLength) == networkValue >>> (bits - network.prefixLength)
        | none => false
      else false
  | none => false

def clientAddress (parseAddress : String → Option Address) (peerAddress : Address)
    (forwardedValues : List (List UInt8)) (trustedNetworks : List Network) : Except ConversionError Address :=
  if trusted peerAddress trustedNetworks then do
    match ← forwardedChain parseAddress forwardedValues with
    | some addresses => pure ((addresses.reverse.find? fun address => !trusted address trustedNetworks).getD peerAddress)
    | none => pure peerAddress
  else pure peerAddress

inductive Scheme
  | http | https
  deriving DecidableEq, Repr

/-- What the plug reads of a connection. -/
structure Conn where
  remoteIp : Address
  scheme : Scheme
  forwardedFor : List (List UInt8)
  forwardedProto : List (List UInt8)
  deriving DecidableEq, Repr

/-- `maybe_put_forwarded_scheme` -/
def forwardedScheme (scheme : Scheme) (trustedPeer : Bool) (forwardedValues : List (List UInt8)) : Scheme :=
  if trustedPeer ∧ forwardedValues = [Utf8.octets "https"] then .https else scheme

def call (parseAddress : String → Option Address) (trustedProxyCidrs : List (Option String)) (conn : Conn) :
    Except ConversionError Conn := do
  let networks := trustedNetworks parseAddress trustedProxyCidrs
  let remoteIp ← clientAddress parseAddress conn.remoteIp conn.forwardedFor networks
  pure { conn with
    remoteIp := remoteIp
    scheme := forwardedScheme conn.scheme (trusted conn.remoteIp networks) conn.forwardedProto }

/-! ### Networks -/

theorem addressInteger_ipv4 (a b c d : Fin 256) : ∃ value, addressInteger (.ipv4 a b c d) = some (.ipv4, value, 32) ∧
    value < 2 ^ 32 ∧ leadingBits 32 value = (Address.ipv4 a b c d).bits := by
  have hsegments : ∀ segment ∈ [a.val, b.val, c.val, d.val], segment < 2 ^ 8 := by
    intro segment hsegment
    simp only [List.mem_cons, List.not_mem_nil, or_false] at hsegment
    omega
  obtain ⟨hbits, hlt⟩ := LeadingBits.leadingBits_foldl hsegments (show 0 < 2 ^ 0 by decide)
  have hvalue : [a.val, b.val, c.val, d.val].foldl (fun value segment => value <<< 8 + segment) 0 =
      a * 16777216 + b * 65536 + c * 256 + d := by
    simp only [List.foldl_cons, List.foldl_nil, Nat.shiftLeft_eq]
    omega
  rw [hvalue] at hbits hlt
  exact ⟨_, rfl, hlt, hbits⟩

theorem addressInteger_ipv6 (a b c d e f g h : Fin 65536) : ∃ value,
    addressInteger (.ipv6 a b c d e f g h) = some (.ipv6, value, 128) ∧ value < 2 ^ 128 ∧
      leadingBits 128 value = (Address.ipv6 a b c d e f g h).bits := by
  have hsegments : ∀ segment ∈ [a.val, b.val, c.val, d.val, e.val, f.val, g.val, h.val], segment < 2 ^ 16 := by
    intro segment hsegment
    simp only [List.mem_cons, List.not_mem_nil, or_false] at hsegment
    omega
  obtain ⟨hbits, hlt⟩ := LeadingBits.leadingBits_foldl hsegments (show 0 < 2 ^ 0 by decide)
  exact ⟨_, rfl, hlt, hbits⟩

/-- What `address_integer` says of an address. -/
theorem addressInteger_eq (address : Address) : (address.family = none ∧ addressInteger address = none) ∨
    ∃ family value, address.family = some family ∧ addressInteger address = some (family, value, family.width) ∧
      value < 2 ^ family.width ∧ leadingBits family.width value = address.bits := by
  cases address with
  | ipv4 a b c d =>
    obtain ⟨value, hvalue, hlt, hbits⟩ := addressInteger_ipv4 a b c d
    exact Or.inr ⟨.ipv4, value, rfl, hvalue, hlt, hbits⟩
  | ipv6 a b c d e f g h =>
    obtain ⟨value, hvalue, hlt, hbits⟩ := addressInteger_ipv6 a b c d e f g h
    exact Or.inr ⟨.ipv6, value, rfl, hvalue, hlt, hbits⟩
  | other => exact Or.inl ⟨rfl, rfl⟩

/-- A network as `parse_network` makes it. -/
structure Network.Valid (network : Network) : Prop where
  family : network.address.family = some network.family
  bound : network.prefixLength ≤ network.family.width

theorem parsePrefix_le {text : Option String} {bits length : Nat} (h : parsePrefix text bits = some length) :
    length ≤ bits := by
  unfold parsePrefix at h
  split at h
  · exact Nat.le_of_eq (Option.some.inj h).symm
  · split at h
    · split at h
      · rename_i hbounds
        obtain rfl := Option.some.inj h
        omega
      · cases h
    · cases h

theorem valid_trustedNetworks {parseAddress : String → Option Address} {cidrs : List (Option String)} {n : Network}
    (h : n ∈ trustedNetworks parseAddress cidrs) : n.Valid := by
  obtain ⟨value, -, hn⟩ := List.mem_flatMap.1 h
  unfold parseNetwork at hn
  split at hn
  · dsimp only at hn
    unfold network at hn
    split at hn
    · cases hn
    · rename_i parsed _
      rcases addressInteger_eq parsed with ⟨-, hnone⟩ | ⟨family, number, hfamily, hsome, -⟩
      · rw [hnone] at hn
        cases hn
      · rw [hsome] at hn
        dsimp only at hn
        split at hn
        · cases hn
        · rename_i length hlength
          rw [List.mem_singleton.1 hn]
          exact ⟨hfamily, parsePrefix_le hlength⟩
  · cases hn

/-- A trusted address shares its leading bits with a network of its family. -/
theorem trusted_iff {networks : List Network} (h : ∀ n ∈ networks, n.Valid) (address : Address) :
    trusted address networks = true ↔ ∃ n ∈ networks, address.family = some n.family ∧
      address.bits.take n.prefixLength = n.address.bits.take n.prefixLength := by
  unfold trusted
  rcases addressInteger_eq address with ⟨hnone, hinteger⟩ | ⟨family, value, hfamily, hinteger, hlt, hbits⟩
  · rw [hinteger, hnone]
    simp
  · rw [hinteger, hfamily]
    dsimp only
    rw [List.any_eq_true]
    refine exists_congr fun n => and_congr_right fun hn => ?_
    by_cases hsame : n.family = family
    · subst hsame
      rcases addressInteger_eq n.address with ⟨hnone, -⟩ | ⟨family', value', hfamily', hinteger', hlt', hbits'⟩
      · rw [(h n hn).family] at hnone
        cases hnone
      · obtain rfl : n.family = family' := Option.some.inj ((h n hn).family.symm.trans hfamily')
        rw [if_pos rfl, hinteger']
        dsimp only
        rw [beq_iff_eq, LeadingBits.shiftRight_eq_iff hlt hlt' (h n hn).bound, hbits, hbits']
        simp
    · rw [if_neg hsame]
      have hother : some family ≠ some n.family := fun heq => hsame (Option.some.inj heq).symm
      simp [hother]

theorem length_bits {address : Address} {family : Family} (h : address.family = some family) :
    address.bits.length = family.width := by
  rcases addressInteger_eq address with ⟨hnone, -⟩ | ⟨family', value, hfamily, -, -, hbits⟩
  · rw [hnone] at h
    cases h
  · obtain rfl : family' = family := Option.some.inj (hfamily.symm.trans h)
    rw [← hbits, LeadingBits.length_leadingBits]

/-! ### The chain -/

theorem splitHeader_append (before after : List UInt8) :
    splitHeader (before ++ comma :: after) = splitHeader before ++ splitHeader after := by
  unfold splitHeader
  rw [ElixirString.pieces_append, List.filter_append]

/-- A piece that `String.to_charlist` takes. -/
def IsText (piece : List UInt8) : Prop := ∃ text, toCharlist (trimOctets piece) = .ok text

theorem isText_iff (parseAddress : String → Option Address) {piece : List UInt8} :
    IsText piece ↔ ∃ address, parsePiece parseAddress piece = .ok address := by
  unfold IsText parsePiece
  constructor
  · rintro ⟨text, htext⟩
    rw [htext]
    exact ⟨_, rfl⟩
  · rintro ⟨address, haddress⟩
    cases htext : toCharlist (trimOctets piece) with
    | ok text => exact ⟨text, rfl⟩
    | error e =>
      rw [htext] at haddress
      cases haddress

/-- The pieces are read, or one of them raises. -/
theorem mapM_parsePiece (parseAddress : String → Option Address) (pieces : List (List UInt8)) :
    (∀ piece ∈ pieces, IsText piece) ↔ ∃ addresses, pieces.mapM (parsePiece parseAddress) = .ok addresses := by
  induction pieces with
  | nil => exact ⟨fun _ => ⟨[], rfl⟩, fun _ piece hpiece => by cases hpiece⟩
  | cons piece pieces ih =>
    rw [List.forall_mem_cons, ih, isText_iff parseAddress, List.mapM_cons]
    cases parsePiece parseAddress piece with
    | error e => exact ⟨fun ⟨⟨_, h⟩, _⟩ => (by cases h), fun ⟨_, h⟩ => (by cases h)⟩
    | ok address =>
      cases pieces.mapM (parsePiece parseAddress) with
      | error e => exact ⟨fun ⟨_, _, h⟩ => (by cases h), fun ⟨_, h⟩ => (by cases h)⟩
      | ok addresses => exact ⟨fun _ => ⟨_, rfl⟩, fun _ => ⟨⟨_, rfl⟩, _, rfl⟩⟩

/-- The chain that a header gives, if all of it parses. -/
def ParsesTo (parseAddress : String → Option Address) (header : List UInt8) (addresses : List Address) : Prop :=
  (splitHeader header).mapM (parsePiece parseAddress) = .ok (addresses.map some)

/-- Before a chain that parses, a header that is text is invalid or makes the chain longer. -/
theorem forwardedChain_append {parseAddress : String → Option Address} {before after : List UInt8}
    {addresses : List Address} (hafter : ParsesTo parseAddress after addresses)
    (hbefore : ∀ piece ∈ splitHeader before, IsText piece) :
    forwardedChain parseAddress [before ++ comma :: after] = .ok none ∨
      ∃ others, forwardedChain parseAddress [before ++ comma :: after] = .ok (some (others ++ addresses)) := by
  obtain ⟨others, hothers⟩ := (mapM_parsePiece parseAddress _).1 hbefore
  have hsome : (addresses.map some).filterMap id = addresses := by
    rw [List.filterMap_map]
    exact List.filterMap_some
  have hall : (splitHeader (before ++ comma :: after)).mapM (parsePiece parseAddress) =
      .ok (others ++ addresses.map some) := by
    rw [splitHeader_append, List.mapM_append, hothers, hafter]
    rfl
  unfold forwardedChain
  dsimp only
  rw [hall]
  by_cases hvalid : others ++ addresses.map some ≠ [] ∧ (others ++ addresses.map some).length ≤ maxForwardedAddresses ∧
      (others ++ addresses.map some).all Option.isSome
  · refine Or.inr ⟨others.filterMap id, ?_⟩
    show (if _ then _ else _) = _
    rw [if_pos hvalid, List.filterMap_append, hsome]
    rfl
  · refine Or.inl ?_
    show (if _ then _ else _) = _
    rw [if_neg hvalid]
    rfl

/-- A header with a piece that is no text raises. -/
theorem forwardedChain_error {parseAddress : String → Option Address} {before after : List UInt8}
    (hbefore : ¬ ∀ piece ∈ splitHeader before, IsText piece) :
    ∃ e, forwardedChain parseAddress [before ++ comma :: after] = .error e := by
  cases hpieces : (splitHeader before).mapM (parsePiece parseAddress) with
  | ok addresses => exact absurd ((mapM_parsePiece parseAddress _).2 ⟨addresses, hpieces⟩) hbefore
  | error e =>
    refine ⟨e, ?_⟩
    unfold forwardedChain
    dsimp only
    rw [splitHeader_append, List.mapM_append, hpieces]
    rfl

/-- The client is the right-most untrusted address behind what was prepended, or the peer, if and only if what was
prepended is text or the peer is not trusted.  An untrusted peer, or another number of header lines than one, leaves the
peer.  And an address is trusted if and only if it has the leading bits of a configured network of its family. -/
theorem client_address_forged (parseAddress : String → Option Address) (cidrs : List (Option String)) (peer : Address) :
    (∀ (before after : List UInt8) (addresses : List Address), ParsesTo parseAddress after addresses →
      (∃ address ∈ addresses, trusted address (trustedNetworks parseAddress cidrs) = false) →
      ((∃ client, clientAddress parseAddress peer [before ++ comma :: after] (trustedNetworks parseAddress cidrs) =
          .ok client ∧ (client = peer ∨
            addresses.reverse.find? (fun address => !trusted address (trustedNetworks parseAddress cidrs)) =
              some client)) ↔
        (trusted peer (trustedNetworks parseAddress cidrs) = true → ∀ piece ∈ splitHeader before, IsText piece))) ∧
    (∀ forwardedValues : List (List UInt8),
      trusted peer (trustedNetworks parseAddress cidrs) = false ∨ forwardedValues.length ≠ 1 →
      clientAddress parseAddress peer forwardedValues (trustedNetworks parseAddress cidrs) = .ok peer) ∧
    ∀ address : Address, trusted address (trustedNetworks parseAddress cidrs) = true ↔
      ∃ n ∈ trustedNetworks parseAddress cidrs, address.family = some n.family ∧ n.address.family = some n.family ∧
        n.prefixLength ≤ n.address.bits.length ∧
        address.bits.take n.prefixLength = n.address.bits.take n.prefixLength := by
  refine ⟨fun before after addresses hafter huntrusted => ?_, fun forwardedValues h => ?_, fun address => ?_⟩
  · unfold clientAddress
    by_cases hpeer : trusted peer (trustedNetworks parseAddress cidrs) = true
    · rw [if_pos hpeer]
      constructor
      · rintro ⟨client, hclient, -⟩ -
        by_contra hbefore
        obtain ⟨e, herror⟩ : ∃ e, forwardedChain parseAddress [before ++ comma :: after] = .error e :=
          forwardedChain_error hbefore
        rw [herror] at hclient
        cases hclient
      · intro hbefore
        rcases forwardedChain_append hafter (hbefore hpeer) with hchain | ⟨others, hchain⟩
        · rw [hchain]
          exact ⟨peer, rfl, Or.inl rfl⟩
        · obtain ⟨address, hmem, hnot⟩ := huntrusted
          have hfound : (addresses.reverse.find? fun address =>
              !trusted address (trustedNetworks parseAddress cidrs)).isSome = true := by
            rw [List.find?_isSome]
            exact ⟨address, List.mem_reverse.2 hmem, by rw [hnot]; rfl⟩
          obtain ⟨client, hclient⟩ := Option.isSome_iff_exists.1 hfound
          rw [hchain]
          refine ⟨client, ?_, Or.inr hclient⟩
          show (Except.ok (((others ++ addresses).reverse.find? _).getD peer) : Except ConversionError Address) = _
          rw [List.reverse_append, List.find?_append, hclient]
          rfl
    · rw [if_neg hpeer]
      exact ⟨fun _ htrusted => absurd htrusted hpeer, fun _ => ⟨peer, rfl, Or.inl rfl⟩⟩
  · unfold clientAddress
    rcases h with hpeer | hcount
    · rw [hpeer]
      rfl
    · have hchain : forwardedChain parseAddress forwardedValues = .ok none := by
        unfold forwardedChain
        split
        · exact absurd rfl hcount
        · rfl
      rw [hchain]
      exact ite_self _
  · have hvalid : ∀ n ∈ trustedNetworks parseAddress cidrs, n.Valid := fun n hn => valid_trustedNetworks hn
    rw [trusted_iff hvalid]
    refine exists_congr fun n => and_congr_right fun hn => and_congr_right fun _ => ?_
    rw [length_bits (hvalid n hn).family]
    exact ⟨fun h => ⟨(hvalid n hn).family, (hvalid n hn).bound, h⟩, fun h => h.2.2⟩

private def knownAddress (text : String) : Option Address :=
  if text = "10.0.0.0" then some (.ipv4 10 0 0 0)
  else if text = "198.51.100.9" then some (.ipv4 198 51 100 9)
  else if text = "203.0.113.7" then some (.ipv4 203 0 113 7)
  else none

private theorem known_parses : ParsesTo knownAddress (Utf8.octets "203.0.113.7") [.ipv4 203 0 113 7] := by
  unfold ParsesTo
  decide

private theorem known_untrusted : ∃ address ∈ [Address.ipv4 203 0 113 7],
    trusted address (trustedNetworks knownAddress [some "10.0.0.0/8"]) = false :=
  ⟨_, List.mem_singleton_self _, by decide⟩

/-- Behind one trusted proxy, a header that was prepended to. -/
theorem client_address_prepended : ∃ client, clientAddress knownAddress (.ipv4 10 0 0 1)
    [Utf8.octets "198.51.100.9" ++ comma :: Utf8.octets "203.0.113.7"]
      (trustedNetworks knownAddress [some "10.0.0.0/8"]) = .ok client ∧
    (client = .ipv4 10 0 0 1 ∨ [Address.ipv4 203 0 113 7].reverse.find?
      (fun address => !trusted address (trustedNetworks knownAddress [some "10.0.0.0/8"])) = some client) := by
  have htext : ∀ piece ∈ splitHeader (Utf8.octets "198.51.100.9"), IsText piece := by
    intro piece hpiece
    have hone : splitHeader (Utf8.octets "198.51.100.9") = [Utf8.octets "198.51.100.9"] := by decide
    rw [hone, List.mem_singleton] at hpiece
    rw [hpiece]
    exact ⟨"198.51.100.9", by decide⟩
  exact ((client_address_forged knownAddress [some "10.0.0.0/8"] (.ipv4 10 0 0 1)).1 _ _ _ known_parses known_untrusted).2
    fun _ => htext

/-- An octet that begins no character, before an address from outside. -/
theorem client_address_raises : ParsesTo knownAddress (Utf8.octets "203.0.113.7") [.ipv4 203 0 113 7] ∧
    (∃ address ∈ [Address.ipv4 203 0 113 7],
      trusted address (trustedNetworks knownAddress [some "10.0.0.0/8"]) = false) ∧
    clientAddress knownAddress (.ipv4 10 0 0 1) [[0xFF] ++ comma :: Utf8.octets "203.0.113.7"]
      (trustedNetworks knownAddress [some "10.0.0.0/8"]) = .error .unicodeConversionError :=
  ⟨known_parses, known_untrusted, by decide⟩

end TrustedProxy

end KComms.Web
