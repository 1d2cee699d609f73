import KComms.Lib.CodePattern
import KComms.Lib.ElixirString
import KComms.Lib.Json

/-!
# Signals of a direct call (`CommsWeb.DirectAudioSignal`, `audioOnlySdp`)

The server relays a session description that it finds to be audio only; the client that receives it checks it again.  Both
read the same lines, and patterns of ASCII characters match alike on octets and on UTF-16 units.  What differs is the
count of an ICE credential and the white space in it (`audioOnly_agree`).
-/

namespace KComms.Web.DirectAudioSignal

open CodePattern (Pattern codes utf8 utf16 utf8_transparent utf16_transparent isMatch_codes codes_eq_append)
open ElixirString (replace splitTrim)

def maxSdpBytes : Nat := 16384
def maxCandidateBytes : Nat := 2048

/-! ### Lines and patterns -/

/-- The lines that are not empty.  `replaceAll`, `split` and `filter(Boolean)` give the same ones. -/
def linesOf (sdp : String) : List String := splitTrim (replace sdp "\r\n" "\n") '\n'

variable {a : Nat} {encode : Char → List Nat} {sdp kind : String} {signal : List (String × Json)}

/-- Lines that end in `\r\n` are read back. -/
theorem linesOf_join {lines : List String}
    (h : ∀ line ∈ lines, line.toList ≠ [] ∧ ∀ c ∈ line.toList, c ≠ '\r' ∧ c ≠ '\n') :
    linesOf (String.join (lines.map fun line => line ++ "\r\n")) = lines := by
  induction lines with
  | nil => decide
  | cons line lines ih =>
    obtain ⟨⟨hline, hcodes⟩, hlines⟩ := List.forall_mem_cons.1 h
    have hcr : ∀ c ∈ line.toList, c ≠ '\r' := fun c hc => (hcodes c hc).1
    have hlf : ∀ c ∈ line.toList, c ≠ '\n' := fun c hc => (hcodes c hc).2
    have hpieces : ElixirString.pieces '\n' line.toList = [line.toList] :=
      ElixirString.pieces_of_no_separator hlf
    have htext : (String.join ((line :: lines).map fun line => line ++ "\r\n")).toList =
        line.toList ++ '\r' :: '\n' :: (String.join (lines.map fun line => line ++ "\r\n")).toList := by
      rw [List.map_cons, String.join_cons, String.toList_append, String.toList_append]
      simp
    have hrest := ih hlines
    unfold linesOf splitTrim replace at hrest ⊢
    rw [String.toList_ofList] at hrest ⊢
    rw [htext, show "\r\n".toList = ['\r', '\n'] from rfl, show "\n".toList = ['\n'] from rfl,
      ElixirString.replaceFrom_pair_append hcr, ElixirString.replaceFrom_pair, List.singleton_append,
      ElixirString.pieces_append, hpieces, List.singleton_append, List.filter_cons_of_pos (by simpa using hline),
      List.map_cons, String.ofList_toList]
    exact congrArg (line :: ·) hrest

def startsWith (line start : String) : Bool := start.toList.isPrefixOf line.toList

def literal (text : String) : Pattern := .literal (text.toList.map Char.toNat)

def digit : Pattern := .code fun a => 48 ≤ a && a ≤ 57

def hexDigit : Pattern := .code fun a => (48 ≤ a && a ≤ 57) || (65 ≤ a && a ≤ 70) || (97 ≤ a && a ≤ 102)

/-- `m=audio \d{1,5} UDP\/TLS\/RTP\/SAVPF(?: \d{1,3})+` -/
def mediaPattern : Pattern :=
  .seq (literal "m=audio ")
    (.seq (.between digit 1 5) (.seq (literal " UDP/TLS/RTP/SAVPF") (.plus (.seq (literal " ") (.between digit 1 3)))))

/-- `a=fingerprint:sha-256 (?:[0-9A-Fa-f]{2}:){31}[0-9A-Fa-f]{2}` -/
def fingerprintPattern : Pattern :=
  .seq (literal "a=fingerprint:sha-256 ")
    (.seq (.between (.seq (.between hexDigit 2 2) (literal ":")) 31 31) (.between hexDigit 2 2))

/-- The pattern of a credential: a name and `\S{least,256}`. -/
def credentialPattern (isSpace : Nat → Bool) (name : String) (least : Nat) : Pattern :=
  .seq (literal name) (.between (.code fun a => !isSpace a) least 256)

def setupLines : List String := ["a=setup:actpass", "a=setup:active", "a=setup:passive"]

/-! ### The server -/

/-- `\s` of a pattern over octets.  The octets from 128 on that are white space come from the tables of the matcher. -/
def octetSpace (highSpace : Nat → Bool) (a : Nat) : Bool :=
  (9 ≤ a && a ≤ 13) || a == 32 || (128 ≤ a && highSpace a)

def requiredAudioAttributes? (highSpace : Nat → Bool) (lines : List String) : Bool :=
  (lines.any fun line => (credentialPattern (octetSpace highSpace) "a=ice-ufrag:" 4).isMatch (codes utf8 line)) &&
    (lines.any fun line => (credentialPattern (octetSpace highSpace) "a=ice-pwd:" 22).isMatch (codes utf8 line)) &&
    (lines.any fun line => fingerprintPattern.isMatch (codes utf8 line)) &&
    (lines.any fun line => setupLines.contains line) &&
    lines.contains "a=rtcp-mux"

def audioOnlySdp? (highSpace : Nat → Bool) (sdp : String) : Bool :=
  let lines := linesOf sdp
  let mediaLines := lines.filter fun line => startsWith line "m="
  lines.head? == some "v=0" &&
    mediaLines.length == 1 &&
    (mediaLines.all fun line => mediaPattern.isMatch (codes utf8 line)) &&
    requiredAudioAttributes? highSpace lines &&
    !(lines.any fun line =>
      startsWith line "a=sctp-port:" || startsWith line "a=sctpmap:" || line.toList.contains '\x00')

/-- A signal as it is relayed. -/
inductive Signal
  | description (kind sdp : String)
  | ice (candidate : String) (sdpMid : Option String) (sdpMlineIndex : Option Int)
  | media (enabled : Bool)
  | fallback
  deriving DecidableEq, Repr

inductive Error
  | invalidSignal
  deriving DecidableEq, Repr

def member (signal : List (String × Json)) (name : String) : Option Json := Json.get? (.object signal) name

/-- An optional text of at most 256 octets. -/
def sdpMid (signal : List (String × Json)) : Option (Option String) :=
  match member signal "sdp_mid" with
  | none | some .null => some none
  | some (.string mid) => if mid.utf8ByteSize ≤ 256 then some (some mid) else none
  | _ => none

def sdpMlineIndex (signal : List (String × Json)) : Option (Option Int) :=
  match member signal "sdp_mline_index" with
  | none | some .null => some none
  | some (.int index) => if 0 ≤ index ∧ index ≤ 65535 then some (some index) else none
  | _ => none

def validateDescription (highSpace : Nat → Bool) (kind : String) (signal : List (String × Json)) :
    Except Error Signal :=
  match member signal "sdp" with
  | some (.string sdp) =>
    if signal.length = 2 ∧ 1 ≤ sdp.utf8ByteSize ∧ sdp.utf8ByteSize ≤ maxSdpBytes then
      if audioOnlySdp? highSpace sdp then .ok (.description kind sdp) else .error .invalidSignal
    else .error .invalidSignal
  | _ => .error .invalidSignal

def validateIce (signal : List (String × Json)) : Except Error Signal :=
  match member signal "candidate" with
  | some (.string candidate) =>
    if 1 ≤ candidate.utf8ByteSize ∧ candidate.utf8ByteSize ≤ maxCandidateBytes ∧
        signal.all (fun entry => ["kind", "candidate", "sdp_mid", "sdp_mline_index"].contains entry.1) then
      match sdpMid signal, sdpMlineIndex signal with
      | some mid, some index => .ok (.ice candidate mid index)
      | _, _ => .error .invalidSignal
    else .error .invalidSignal
  | _ => .error .invalidSignal

def validateMedia (signal : List (String × Json)) : Except Error Signal :=
  match member signal "enabled" with
  | some (.bool enabled) => if signal.length = 2 then .ok (.media enabled) else .error .invalidSignal
  | _ => .error .invalidSignal

def validate (highSpace : Nat → Bool) (signal : List (String × Json)) : Except Error Signal :=
  match member signal "kind" with
  | some (.string kind) =>
    if kind = "offer" ∨ kind = "answer" then validateDescription highSpace kind signal
    else if kind = "ice" then validateIce signal
    else if kind = "media" then validateMedia signal
    else if kind = "fallback" ∧ signal.length = 1 then .ok .fallback
    else .error .invalidSignal
  | _ => .error .invalidSignal

/-! ### The client -/

/-- `\s` of a pattern over UTF-16 units. -/
def unitSpace (a : Nat) : Bool :=
  (9 ≤ a && a ≤ 13) || a == 32 || a == 0xA0 || a == 0x1680 || (0x2000 ≤ a && a ≤ 0x200A) || a == 0x2028 ||
    a == 0x2029 || a == 0x202F || a == 0x205F || a == 0x3000 || a == 0xFEFF

def audioOnlySdp (sdp : String) : Bool :=
  if sdp.isEmpty || maxSdpBytes < sdp.utf8ByteSize || sdp.toList.contains '\x00' then false
  else
    let lines := linesOf sdp
    let mediaLines := lines.filter fun line => startsWith line "m="
    lines.head? == some "v=0" &&
      mediaLines.length == 1 &&
      mediaPattern.isMatch (codes utf16 (mediaLines.head?.getD "")) &&
      (lines.any fun line => (credentialPattern unitSpace "a=ice-ufrag:" 4).isMatch (codes utf16 line)) &&
      (lines.any fun line => (credentialPattern unitSpace "a=ice-pwd:" 22).isMatch (codes utf16 line)) &&
      (lines.any fun line => fingerprintPattern.isMatch (codes utf16 line)) &&
      (lines.any fun line => setupLines.contains line) &&
      lines.contains "a=rtcp-mux" &&
      !(lines.any fun line => startsWith line "a=sctp-port:" || startsWith line "a=sctpmap:")

/-! ### What both check -/

/-- The text behind a name. -/
def valueOf (name line : String) : Option String :=
  if name.toList.isPrefixOf line.toList then some (String.ofList (line.toList.drop name.toList.length)) else none

/-- A line gives the named credential between `least` and 256 codes, none of which is white space. -/
def carries (encode : Char → List Nat) (isSpace : Nat → Bool) (name : String) (least : Nat) (sdp : String) : Bool :=
  (linesOf sdp).any fun line =>
    match valueOf name line with
    | some value =>
      let value := codes encode value
      least ≤ value.length && value.length ≤ 256 && value.all fun a => !isSpace a
    | none => false

def credentials (encode : Char → List Nat) (isSpace : Nat → Bool) (sdp : String) : Bool :=
  carries encode isSpace "a=ice-ufrag:" 4 sdp && carries encode isSpace "a=ice-pwd:" 22 sdp

/-- The checks on characters. -/
def describesAudio (sdp : String) : Bool :=
  let lines := linesOf sdp
  let mediaLines := lines.filter fun line => startsWith line "m="
  !sdp.toList.contains '\x00' &&
    lines.head? == some "v=0" &&
    mediaLines.length == 1 &&
    (mediaLines.all fun line => mediaPattern.isMatch (line.toList.map Char.toNat)) &&
    (lines.any fun line => fingerprintPattern.isMatch (line.toList.map Char.toNat)) &&
    (lines.any fun line => setupLines.contains line) &&
    lines.contains "a=rtcp-mux" &&
    !(lines.any fun line => startsWith line "a=sctp-port:" || startsWith line "a=sctpmap:")

private theorem literal_ascii {text : String} (h : (text.toList.all fun c => c.toNat < 128) = true)
    (ha : (literal text).Reads a) : a < 128 := by
  obtain ⟨c, hc, rfl⟩ := List.mem_map.1 ha
  simpa using List.all_eq_true.1 h c hc

private theorem digit_ascii (ha : digit.Reads a) : a < 128 := by
  have h : (48 ≤ a && a ≤ 57) = true := ha
  simp only [Bool.and_eq_true, decide_eq_true_eq] at h
  omega

private theorem hexDigit_ascii (ha : hexDigit.Reads a) : a < 128 := by
  have h : ((48 ≤ a && a ≤ 57) || (65 ≤ a && a ≤ 70) || (97 ≤ a && a ≤ 102)) = true := ha
  simp only [Bool.or_eq_true, Bool.and_eq_true, decide_eq_true_eq] at h
  omega

private theorem mediaPattern_ascii (ha : mediaPattern.Reads a) : a < 128 := by
  rcases ha with ha | ha | ha | ha | ha
  · exact literal_ascii (by decide) ha
  · exact digit_ascii ha
  · exact literal_ascii (by decide) ha
  · exact literal_ascii (by decide) ha
  · exact digit_ascii ha

private theorem fingerprintPattern_ascii (ha : fingerprintPattern.Reads a) : a < 128 := by
  rcases ha with ha | (ha | ha) | ha
  · exact literal_ascii (by decide) ha
  · exact hexDigit_ascii ha
  · exact literal_ascii (by decide) ha
  · exact hexDigit_ascii ha

theorem mediaPattern_isMatch (he : CodePattern.Transparent encode) (line : String) :
    mediaPattern.isMatch (codes encode line) = mediaPattern.isMatch (line.toList.map Char.toNat) :=
  isMatch_codes he (fun _ => mediaPattern_ascii) line

theorem fingerprintPattern_isMatch (he : CodePattern.Transparent encode) (line : String) :
    fingerprintPattern.isMatch (codes encode line) = fingerprintPattern.isMatch (line.toList.map Char.toNat) :=
  isMatch_codes he (fun _ => fingerprintPattern_ascii) line

private theorem valueOf_eq_some {name line value : String} :
    valueOf name line = some value ↔ line.toList = name.toList ++ value.toList := by
  unfold valueOf
  split
  · rename_i h
    obtain ⟨rest, hrest⟩ := List.isPrefixOf_iff_prefix.1 h
    rw [← hrest, List.drop_left, Option.some_inj, List.append_cancel_left_eq]
    constructor
    · intro hvalue
      rw [← hvalue, String.toList_ofList]
    · intro hvalue
      rw [hvalue, String.ofList_toList]
  · rename_i h
    constructor
    · intro hnone
      cases hnone
    · intro hline
      exact absurd (List.isPrefixOf_iff_prefix.2 ⟨value.toList, hline.symm⟩) h

/-- A credential is matched by what stands behind its name. -/
theorem credentialPattern_isMatch (he : CodePattern.Transparent encode) (isSpace : Nat → Bool) {name : String}
    (hname : (name.toList.all fun c => c.toNat < 128) = true) {least : Nat} (hleast : least ≤ 256) (sdp : String) :
    ((linesOf sdp).any fun line => (credentialPattern isSpace name least).isMatch (codes encode line)) =
      carries encode isSpace name least sdp := by
  have hascii : ∀ c ∈ name.toList, c.toNat < 128 := fun c hc => by simpa using List.all_eq_true.1 hname c hc
  unfold carries
  congr 1
  funext line
  rw [Bool.eq_iff_iff, credentialPattern, literal, CodePattern.isMatch_value hleast]
  constructor
  · rintro ⟨w, hcodes, ⟨hlow, hhigh⟩, hspace⟩
    obtain ⟨value, hline, hvalue⟩ := (codes_eq_append he hascii).1 hcodes
    have hsome : valueOf name line = some (String.ofList value) :=
      valueOf_eq_some.2 (by rw [String.toList_ofList, hline])
    have hw : codes encode (String.ofList value) = w := by rw [codes, String.toList_ofList, hvalue]
    simp only [hsome, hw, Bool.and_eq_true, decide_eq_true_eq, List.all_eq_true]
    exact ⟨⟨hlow, hhigh⟩, hspace⟩
  · intro h
    cases hvalue : valueOf name line with
    | none => rw [hvalue] at h; cases h
    | some value =>
      simp only [hvalue, Bool.and_eq_true, decide_eq_true_eq, List.all_eq_true] at h
      refine ⟨codes encode value, ?_, h.1, h.2⟩
      exact (codes_eq_append he hascii).2 ⟨value.toList, valueOf_eq_some.1 hvalue, rfl⟩

/-- The lines have every NUL of the text. -/
private theorem contains_nul (sdp : String) :
    ((linesOf sdp).any fun line => line.toList.contains '\x00') = sdp.toList.contains '\x00' := by
  rw [Bool.eq_iff_iff, List.any_eq_true, List.contains_iff_mem]
  have hreplace : '\x00' ∈ (replace sdp "\r\n" "\n").toList ↔ '\x00' ∈ sdp.toList := by
    rw [replace, String.toList_ofList]
    exact ElixirString.mem_replaceFrom_pair (by decide) (by decide) (by decide) sdp.toList
  have hlines : (∃ line ∈ linesOf sdp, '\x00' ∈ line.toList) ↔ '\x00' ∈ (replace sdp "\r\n" "\n").toList :=
    ElixirString.mem_splitTrim (by decide) _
  rw [← hreplace, ← hlines]
  simp only [List.contains_iff_mem]

theorem ufrag_isMatch (he : CodePattern.Transparent encode) (isSpace : Nat → Bool) (sdp : String) :
    ((linesOf sdp).any fun line => (credentialPattern isSpace "a=ice-ufrag:" 4).isMatch (codes encode line)) =
      carries encode isSpace "a=ice-ufrag:" 4 sdp :=
  credentialPattern_isMatch he isSpace (by decide) (by decide) sdp

theorem pwd_isMatch (he : CodePattern.Transparent encode) (isSpace : Nat → Bool) (sdp : String) :
    ((linesOf sdp).any fun line => (credentialPattern isSpace "a=ice-pwd:" 22).isMatch (codes encode line)) =
      carries encode isSpace "a=ice-pwd:" 22 sdp :=
  credentialPattern_isMatch he isSpace (by decide) (by decide) sdp

private theorem any_or {α : Type} (l : List α) (p q : α → Bool) :
    (l.any fun x => p x || q x) = (l.any p || l.any q) := by
  induction l with
  | nil => rfl
  | cons x l ih =>
    rw [List.any_cons, List.any_cons, List.any_cons, ih]
    cases p x <;> cases q x <;> simp

private theorem reorder_server (first single media ufrag pwd fingerprint setup mux port map nul : Bool) :
    (first && single && media && (ufrag && pwd && fingerprint && setup && mux) && !(port || map || nul)) =
      ((!nul && first && single && media && fingerprint && setup && mux && !(port || map)) && (ufrag && pwd)) := by
  simp only [Bool.not_or]
  ac_rfl

private theorem reorder_client (first single media ufrag pwd fingerprint setup mux sctp : Bool) :
    (first && single && media && ufrag && pwd && fingerprint && setup && mux && !sctp) =
      ((!false && first && single && media && fingerprint && setup && mux && !sctp) && (ufrag && pwd)) := by
  rw [Bool.not_false, Bool.true_and]
  ac_rfl

theorem audioOnlySdp?_eq (highSpace : Nat → Bool) (sdp : String) :
    audioOnlySdp? highSpace sdp = (describesAudio sdp && credentials utf8 (octetSpace highSpace) sdp) := by
  have hnul := contains_nul sdp
  unfold audioOnlySdp? requiredAudioAttributes? describesAudio credentials
  simp only [mediaPattern_isMatch utf8_transparent, fingerprintPattern_isMatch utf8_transparent,
    ufrag_isMatch utf8_transparent, pwd_isMatch utf8_transparent, any_or, hnul]
  exact reorder_server ..

/-- One media line is the first one and all of them. -/
private theorem all_of_length_one {mediaLines : List String} (h : (mediaLines.length == 1) = true)
    (p : String → Bool) : p (mediaLines.head?.getD "") = mediaLines.all p := by
  obtain ⟨line, rfl⟩ := List.length_eq_one_iff.1 (beq_iff_eq.1 h)
  simp

theorem audioOnlySdp_eq (hmax : sdp.utf8ByteSize ≤ maxSdpBytes) :
    audioOnlySdp sdp = (describesAudio sdp && credentials utf16 unitSpace sdp) := by
  unfold audioOnlySdp describesAudio credentials
  simp only [mediaPattern_isMatch utf16_transparent, fingerprintPattern_isMatch utf16_transparent,
    ufrag_isMatch utf16_transparent, pwd_isMatch utf16_transparent]
  by_cases hempty : sdp.isEmpty = true
  · have hsdp : sdp = "" := by simpa using hempty
    subst hsdp
    have hlines : linesOf "" = [] := by decide
    rw [if_pos (by simp), hlines]
    simp
  · by_cases hnul : sdp.toList.contains '\x00' = true
    · rw [if_pos (by rw [hnul, Bool.or_true]), hnul]
      simp
    · have hfits : ¬ maxSdpBytes < sdp.utf8ByteSize := by omega
      rw [Bool.not_eq_true] at hempty hnul
      rw [if_neg (by rw [hempty, hnul, decide_eq_false hfits]; decide), hnul]
      by_cases hmedia : (((linesOf sdp).filter fun line => startsWith line "m=").length == 1) = true
      · rw [all_of_length_one hmedia fun line => mediaPattern.isMatch (line.toList.map Char.toNat)]
        exact reorder_client ..
      · rw [Bool.not_eq_true] at hmedia
        simp [hmedia]

/-- Octets 133 and 160 are white space in Latin-1. -/
def latin1Space (a : Nat) : Bool := a == 0x85 || a == 0xA0

/-- The lines of a session description with the given user fragment. -/
def sampleLines (ufrag : String) : List String :=
  ["v=0", "o=- 0 0 IN IP4 127.0.0.1", "s=-", "t=0 0", "m=audio 9 UDP/TLS/RTP/SAVPF 111", "a=ice-ufrag:" ++ ufrag,
    "a=ice-pwd:abcdefghijklmnopqrstuv",
    "a=fingerprint:sha-256 00:00:00:00:00:00:00:00:00:00:00:00:00:00:00:00:" ++
      "00:00:00:00:00:00:00:00:00:00:00:00:00:00:00:00",
    "a=setup:actpass", "a=rtcp-mux"]

def sample (ufrag : String) : String := String.join ((sampleLines ufrag).map fun line => line ++ "\r\n")

private theorem utf8ByteSize_join (lines : List String) :
    (String.join lines).utf8ByteSize = (lines.map String.utf8ByteSize).sum := by
  induction lines with
  | nil => rfl
  | cons line lines ih =>
    rw [String.join_cons, String.utf8ByteSize_append, ih, List.map_cons, List.sum_cons]

/-- What the samples are, with the user fragment `abcd` and with one of two letters of two octets. -/
private theorem linesOf_plain : linesOf (sample "abcd") = sampleLines "abcd" := by
  rw [sample]
  exact linesOf_join (by decide +kernel)

private theorem sample_facts :
    ((sample "abcd").utf8ByteSize ≤ maxSdpBytes ∧ describesAudio (sample "abcd") = true ∧
      credentials utf8 (octetSpace latin1Space) (sample "abcd") = true ∧
      credentials utf16 unitSpace (sample "abcd") = true) ∧
    (1 ≤ (sample "éé").utf8ByteSize ∧ (sample "éé").utf8ByteSize ≤ maxSdpBytes) ∧
      describesAudio (sample "éé") = true ∧ credentials utf8 (octetSpace latin1Space) (sample "éé") = true ∧
      credentials utf16 unitSpace (sample "éé") = false := by
  have haccented : linesOf (sample "éé") = sampleLines "éé" := by
    rw [sample]
    exact linesOf_join (by decide +kernel)
  refine ⟨⟨?_, ?_, ?_, ?_⟩, ?_, ?_, ?_, ?_⟩
  · rw [sample, utf8ByteSize_join]
    decide +kernel
  · unfold describesAudio
    rw [← contains_nul, linesOf_plain]
    decide +kernel
  · unfold credentials carries
    rw [linesOf_plain]
    decide
  · unfold credentials carries
    rw [linesOf_plain]
    decide
  · rw [sample, utf8ByteSize_join]
    decide +kernel
  · unfold describesAudio
    rw [← contains_nul, haccented]
    decide +kernel
  · unfold credentials carries
    rw [haccented]
    decide
  · unfold credentials carries
    rw [haccented]
    decide +kernel

/-- The server and the client agree unless a description that is audio otherwise has credentials that only one of them
counts as such. -/
theorem audioOnly_agree (highSpace : Nat → Bool) {sdp : String} (hmax : sdp.utf8ByteSize ≤ maxSdpBytes) :
    audioOnlySdp? highSpace sdp = audioOnlySdp sdp ↔
      (describesAudio sdp = true →
        credentials utf8 (octetSpace highSpace) sdp = credentials utf16 unitSpace sdp) := by
  rw [audioOnlySdp?_eq, audioOnlySdp_eq hmax]
  cases describesAudio sdp with
  | false => simp
  | true => simp

theorem audioOnly_agree_plain :
    audioOnlySdp? latin1Space (sample "abcd") = audioOnlySdp (sample "abcd") ∧ audioOnlySdp (sample "abcd") = true := by
  obtain ⟨hsize, haudio, hserver, hclient⟩ := sample_facts.1
  refine ⟨(audioOnly_agree latin1Space hsize).2 fun _ => ?_, ?_⟩
  · rw [hserver, hclient]
  · rw [audioOnlySdp_eq hsize, haudio, hclient]
    rfl

/-- Two letters of two octets each are long enough for the server and too short for the client. -/
theorem accented_ufrag :
    1 ≤ (sample "éé").utf8ByteSize ∧ (sample "éé").utf8ByteSize ≤ maxSdpBytes ∧
      audioOnlySdp? latin1Space (sample "éé") = true ∧ audioOnlySdp (sample "éé") = false := by
  obtain ⟨hsize, haudio, hserver, hclient⟩ := sample_facts.2
  refine ⟨hsize.1, hsize.2, ?_, ?_⟩
  · rw [audioOnlySdp?_eq, haudio, hserver]
    rfl
  · rw [audioOnlySdp_eq hsize.2, haudio, hclient]
    rfl

/-- Credentials of ASCII characters are counted alike. -/
theorem carries_ascii (highSpace : Nat → Bool) {name : String} (least : Nat)
    (h : ∀ line ∈ linesOf sdp, ∀ value, valueOf name line = some value → ∀ c ∈ value.toList, c.toNat < 128) :
    carries utf8 (octetSpace highSpace) name least sdp = carries utf16 unitSpace name least sdp := by
  unfold carries
  rw [Bool.eq_iff_iff, List.any_eq_true, List.any_eq_true]
  refine exists_congr fun line => and_congr_right fun hline => ?_
  cases hvalue : valueOf name line with
  | none => rfl
  | some value =>
    have hascii := h line hline value hvalue
    have hutf8 : codes utf8 value = value.toList.map Char.toNat := CodePattern.codes_ascii utf8_transparent hascii
    have hutf16 : codes utf16 value = value.toList.map Char.toNat := CodePattern.codes_ascii utf16_transparent hascii
    have hspace : ∀ a ∈ value.toList.map Char.toNat, octetSpace highSpace a = unitSpace a := by
      intro a ha
      obtain ⟨c, hc, rfl⟩ := List.mem_map.1 ha
      have hlow := hascii c hc
      have hnot : ¬ 128 ≤ c.toNat := by omega
      rw [octetSpace, decide_eq_false hnot, Bool.false_and, Bool.or_false, Bool.eq_iff_iff]
      simp only [unitSpace, Bool.or_eq_true, Bool.and_eq_true, decide_eq_true_eq, beq_iff_eq]
      omega
    have hall : ((value.toList.map Char.toNat).all fun a => !octetSpace highSpace a) =
        (value.toList.map Char.toNat).all fun a => !unitSpace a := by
      rw [Bool.eq_iff_iff, List.all_eq_true, List.all_eq_true]
      exact forall₂_congr fun a ha => by rw [hspace a ha]
    dsimp only
    rw [hutf8, hutf16, hall]

private theorem validateDescription_ok {highSpace : Nat → Bool} {relayed : Signal}
    (h : validateDescription highSpace kind signal = .ok relayed) :
    ∃ sdp, relayed = .description kind sdp ∧ member signal "sdp" = some (.string sdp) ∧ signal.length = 2 ∧
      1 ≤ sdp.utf8ByteSize ∧ sdp.utf8ByteSize ≤ maxSdpBytes ∧ audioOnlySdp? highSpace sdp = true := by
  unfold validateDescription at h
  split at h
  · rename_i sdp hmember
    split at h
    · rename_i hsize
      split at h
      · rename_i haudio
        cases h
        exact ⟨sdp, rfl, hmember, hsize.1, hsize.2.1, hsize.2.2, haudio⟩
      · cases h
    · cases h
  · cases h

private theorem validateIce_ne_description :
    validateIce signal ≠ .ok (.description kind sdp) := by
  intro h
  unfold validateIce at h
  split at h
  · split at h
    · split at h <;> cases h
    · cases h
  · cases h

private theorem validateMedia_ne_description :
    validateMedia signal ≠ .ok (.description kind sdp) := by
  intro h
  unfold validateMedia at h
  split at h
  · split at h <;> cases h
  · cases h

/-- A description is relayed as it came, with its size and its lines checked. -/
theorem validate_description {highSpace : Nat → Bool} (h : validate highSpace signal = .ok (.description kind sdp)) :
    member signal "kind" = some (.string kind) ∧ member signal "sdp" = some (.string sdp) ∧
      (kind = "offer" ∨ kind = "answer") ∧ sdp.utf8ByteSize ≤ maxSdpBytes ∧ audioOnlySdp? highSpace sdp = true := by
  unfold validate at h
  split at h
  · rename_i given hkind
    split at h
    · rename_i hdescription
      obtain ⟨text, hrelayed, hmember, -, -, hmax, haudio⟩ := validateDescription_ok h
      cases hrelayed
      exact ⟨hkind, hmember, hdescription, hmax, haudio⟩
    · split at h
      · exact absurd h validateIce_ne_description
      · split at h
        · exact absurd h validateMedia_ne_description
        · split at h <;> cases h
  · cases h

/-- What the server relays as an offer or an answer with ASCII credentials is accepted by the client that receives it. -/
theorem relayed_description {highSpace : Nat → Bool} {signal : List (String × Json)} {kind sdp : String}
    (hvalid : validate highSpace signal = .ok (.description kind sdp))
    (hascii : ∀ name ∈ ["a=ice-ufrag:", "a=ice-pwd:"], ∀ line ∈ linesOf sdp, ∀ value, valueOf name line = some value →
      ∀ c ∈ value.toList, c.toNat < 128) : audioOnlySdp sdp = true := by
  obtain ⟨-, -, -, hmax, haudio⟩ := validate_description hvalid
  have hufrag := carries_ascii highSpace 4 (hascii "a=ice-ufrag:" List.mem_cons_self)
  have hpwd := carries_ascii highSpace 22 (hascii "a=ice-pwd:" (List.mem_cons_of_mem _ List.mem_cons_self))
  rw [audioOnlySdp?_eq, credentials, hufrag, hpwd] at haudio
  rw [audioOnlySdp_eq hmax, credentials]
  exact haudio

/-- The sample as an offer, through the server to the client. -/
theorem relayed_description_plain : audioOnlySdp (sample "abcd") = true := by
  obtain ⟨hsize, haudio, hserver, -⟩ := sample_facts.1
  refine @relayed_description latin1Space [("kind", .string "offer"), ("sdp", .string (sample "abcd"))] "offer"
    (sample "abcd") ?_ ?_
  · have hnonempty : 1 ≤ (sample "abcd").utf8ByteSize := by
      rw [sample, utf8ByteSize_join]
      decide +kernel
    have hchecked : audioOnlySdp? latin1Space (sample "abcd") = true := by
      rw [audioOnlySdp?_eq, haudio, hserver]
      rfl
    simp [validate, validateDescription, member, Json.get?, hnonempty, hsize, hchecked]
  · have hplain : ∀ line ∈ sampleLines "abcd", ∀ c ∈ line.toList, c.toNat < 128 := by decide +kernel
    rw [linesOf_plain]
    intro name _ line hline value hvalue c hc
    unfold valueOf at hvalue
    split at hvalue
    · cases hvalue
      rw [String.toList_ofList] at hc
      exact hplain line hline c (List.mem_of_mem_drop hc)
    · cases hvalue

end KComms.Web.DirectAudioSignal
