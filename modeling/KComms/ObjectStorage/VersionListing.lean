import KComms.Lib.ElixirString
import KComms.Lib.FallibleLoop
import KComms.Lib.Utf8

/-!
# Listings of object versions (`ObjectStorage.S3.VersionListing`)

A listing is read from the events of an XML parser, which is a parameter, `sax`; so is `String.upcase`.  The parser drops
what it finds incomplete.  Of a document that lists versions with ASCII keys and identifiers it keeps every one of them
(`parse_entries`).
-/

namespace KComms.ObjectStorage

def maxXmlBytes : Nat := 262144

inductive EntryKind
  | version | deleteMarker
  deriving DecidableEq, Repr

/-- A finished entry; its texts are binaries. -/
structure Entry where
  kind : EntryKind
  key : List UInt8
  versionId : List UInt8
  deriving DecidableEq, Repr

inductive StorageError
  | objectStorageStatus (status : Nat)
  | objectVersionListingFailed | objectVersionListingInvalid | objectVersionListingTooLarge
  | objectDeletionFailed | objectStoragePurgeTimeout | objectStorageUnavailable
  | invalidObjectTenant | invalidObjectKey | objectTenantMismatch
  | missingS3Config
  deriving DecidableEq, Repr

namespace VersionListing

inductive SaxEvent
  | startElement (localName : String)
  | characters (text : List Char)
  | endElement (localName : String)
  | other
  deriving DecidableEq, Repr

inductive Field
  | key | versionId | isTruncated | nextKeyMarker | nextVersionIdMarker
  deriving DecidableEq, Repr

/-- `@entry_elements` -/
def entryElement (name : String) : Option EntryKind :=
  if name = "Version" then some .version else if name = "DeleteMarker" then some .deleteMarker else none

/-- `@capture_elements` -/
def captureElement (name : String) : Option Field :=
  if name = "Key" then some .key
  else if name = "VersionId" then some .versionId
  else if name = "IsTruncated" then some .isTruncated
  else if name = "NextKeyMarker" then some .nextKeyMarker
  else if name = "NextVersionIdMarker" then some .nextVersionIdMarker
  else none

structure CurrentEntry where
  kind : EntryKind
  key : Option (List UInt8)
  versionId : Option (List UInt8)
  deriving DecidableEq, Repr

structure ParserState where
  capture : Option Field
  captureChunks : List Char
  current : Option CurrentEntry
  entries : List Entry
  isTruncated : List UInt8
  nextKeyMarker : Option (List UInt8)
  nextVersionIdMarker : Option (List UInt8)
  deriving DecidableEq, Repr

/-- `IO.iodata_to_binary` of a charlist: one octet a character, and no character above 255. -/
def iodataToBinary (text : List Char) : Option (List UInt8) :=
  if text.all fun c => c.toNat < 256 then some (text.map fun c => UInt8.ofNat c.toNat) else none

def isBlank (octet : UInt8) : Bool := (9 ≤ octet && octet ≤ 13) || octet == 32

/-- `String.trim` and `String.downcase` of the octets of an ASCII text. -/
def trimDowncase (value : List UInt8) : List UInt8 :=
  (((value.dropWhile isBlank).reverse.dropWhile isBlank).reverse).map fun octet =>
    if 65 ≤ octet && octet ≤ 90 then octet + 32 else octet

def emptyToNil (value : List UInt8) : Option (List UInt8) := if value = [] then none else some value

def putCapture (state : ParserState) (field : Field) (value : List UInt8) : ParserState :=
  match field, state.current with
  | .key, some current => { state with current := some { current with key := some value } }
  | .versionId, some current => { state with current := some { current with versionId := some value } }
  | .isTruncated, _ => { state with isTruncated := trimDowncase value }
  | .nextKeyMarker, _ => { state with nextKeyMarker := emptyToNil value }
  | .nextVersionIdMarker, _ => { state with nextVersionIdMarker := emptyToNil value }
  | _, none => state

def finishEntry (state : ParserState) : ParserState :=
  match state.current with
  | some ⟨kind, some key, some versionId⟩ =>
    if versionId ≠ [] then { state with current := none, entries := ⟨kind, key, versionId⟩ :: state.entries }
    else { state with current := none }
  | _ => { state with current := none }

/-- `handle_event`.  What it raises is rescued by `parse`. -/
def handleEvent (state : ParserState) : SaxEvent → Except StorageError ParserState
  | .startElement name =>
    match entryElement name with
    | some kind => .ok { state with current := some ⟨kind, none, none⟩ }
    | none =>
      match captureElement name with
      | some field => .ok { state with capture := some field, captureChunks := [] }
      | none => .ok state
  | .characters text =>
    match state.capture with
    | some _ => .ok { state with captureChunks := state.captureChunks ++ text }
    | none => .ok state
  | .endElement name =>
    match captureElement name, state.capture with
    | some named, some field =>
      if named = field then
        match iodataToBinary state.captureChunks with
        | some value => .ok { putCapture state field value with capture := none, captureChunks := [] }
        | none => .error .objectVersionListingInvalid
      else .ok state
    | _, _ => if (entryElement name).isSome then .ok (finishEntry state) else .ok state
  | .other => .ok state

structure Listing where
  entries : List Entry
  truncated : Bool
  nextKeyMarker : Option (List UInt8)
  nextVersionIdMarker : Option (List UInt8)
  deriving DecidableEq, Repr

def initial : ParserState where
  capture := none
  captureChunks := []
  current := none
  entries := []
  isTruncated := "false".toList.map fun c => UInt8.ofNat c.toNat
  nextKeyMarker := none
  nextVersionIdMarker := none

/-- `String.trim_leading` -/
def trimLeading (body : String) : String := String.ofList (body.toList.dropWhile ElixirString.isWhitespace)

def forbiddenDeclaration (upcase : String → String) (body : String) : Bool :=
  ["<!DOCTYPE", "<!ENTITY"].any fun declaration => (upcase body).toList.tails.any declaration.toList.isPrefixOf

def parse (sax : String → Option (List SaxEvent × String)) (upcase : String → String) (body : String) :
    Except StorageError Listing :=
  if maxXmlBytes < body.utf8ByteSize then .error .objectVersionListingTooLarge
  else
    let body := trimLeading body
    if forbiddenDeclaration upcase body then .error .objectVersionListingInvalid
    else
      match sax body with
      | none => .error .objectVersionListingInvalid
      | some (events, rest) =>
        match events.foldlM handleEvent initial with
        | .error reason => .error reason
        | .ok state =>
          if ElixirString.trim rest = "" then
            .ok
              { entries := state.entries.reverse
                truncated := state.isTruncated = "true".toList.map fun c => UInt8.ofNat c.toNat
                nextKeyMarker := state.nextKeyMarker
                nextVersionIdMarker := state.nextVersionIdMarker }
          else .error .objectVersionListingInvalid

/-! ### What a listing says -/

/-- A version or a delete marker in the store. -/
structure StoredVersion where
  kind : EntryKind
  key : String
  versionId : String
  key_ascii : ∀ c ∈ key.toList, c.toNat < 128
  versionId_ascii : ∀ c ∈ versionId.toList, c.toNat < 128
  versionId_nonempty : versionId ≠ ""
  deriving DecidableEq, Repr

def StoredVersion.entry (stored : StoredVersion) : Entry :=
  ⟨stored.kind, Utf8.octets stored.key, Utf8.octets stored.versionId⟩

def elementName : EntryKind → String
  | .version => "Version"
  | .deleteMarker => "DeleteMarker"

/-- Events that mean nothing outside of a captured element. -/
def SaxEvent.isNoise : SaxEvent → Prop
  | .startElement name | .endElement name => entryElement name = none ∧ captureElement name = none
  | .characters _ | .other => True

def SaxEvent.text : SaxEvent → List Char
  | .characters text => text
  | _ => []

def SaxEvent.isText : SaxEvent → Prop
  | .startElement _ | .endElement _ => False
  | .characters _ | .other => True

/-- An element with a text, which may come in pieces. -/
def TextElement (name : String) (text : List Char) (events : List SaxEvent) : Prop :=
  ∃ inner, events = .startElement name :: (inner ++ [.endElement name]) ∧ (∀ event ∈ inner, event.isText) ∧
    inner.flatMap SaxEvent.text = text

def Noise (events : List SaxEvent) : Prop := ∀ event ∈ events, event.isNoise

/-- The element of a stored version: its key and its identifier in any order, and whatever else. -/
def EntryElement (stored : StoredVersion) (events : List SaxEvent) : Prop :=
  ∃ before first between second after,
    events = .startElement (elementName stored.kind) ::
      (before ++ (first ++ (between ++ (second ++ (after ++ [.endElement (elementName stored.kind)]))))) ∧
    (Noise before ∧ Noise between ∧ Noise after) ∧
    ((TextElement "Key" stored.key.toList first ∧ TextElement "VersionId" stored.versionId.toList second) ∨
      (TextElement "VersionId" stored.versionId.toList first ∧ TextElement "Key" stored.key.toList second))

/-- The events of a document that lists versions. -/
inductive ListingEvents : List StoredVersion → List SaxEvent → Prop
  | done : ListingEvents [] []
  | noise {page : List StoredVersion} {event : SaxEvent} {events : List SaxEvent} :
    event.isNoise → ListingEvents page events → ListingEvents page (event :: events)
  | field {page : List StoredVersion} {name : String} {text : List Char} {element events : List SaxEvent} :
    name ∈ ["IsTruncated", "NextKeyMarker", "NextVersionIdMarker"] → TextElement name text element →
    ListingEvents page events → ListingEvents page (element ++ events)
  | entry {stored : StoredVersion} {page : List StoredVersion} {element events : List SaxEvent} :
    EntryElement stored element → ListingEvents page events → ListingEvents (stored :: page) (element ++ events)

open FallibleLoop

/-- Between the elements nothing is captured. -/
def ParserState.Idle (state : ParserState) : Prop := state.capture = none ∧ state.captureChunks = []

variable {state : ParserState} {events : List SaxEvent} {field : Field} {name : String}

private theorem noise_run (h : Noise events) (hidle : state.Idle) :
    events.foldlM handleEvent state = .ok state := by
  induction events with
  | nil => rfl
  | cons event events ih =>
    obtain ⟨hevent, hrest⟩ := List.forall_mem_cons.1 h
    have hstep : handleEvent state event = .ok state := by
      cases event with
      | startElement name =>
        obtain ⟨hentry, hcapture⟩ := hevent
        simp only [handleEvent, hentry, hcapture]
      | characters text => simp only [handleEvent, hidle.1]
      | endElement name =>
        obtain ⟨hentry, hcapture⟩ := hevent
        simp only [handleEvent, hentry, hcapture]
        rfl
      | other => rfl
    rw [List.foldlM_cons, hstep]
    exact ih hrest

private theorem text_run {inner : List SaxEvent} (h : ∀ event ∈ inner, event.isText)
    (hfield : state.capture = some field) :
    inner.foldlM handleEvent state =
      .ok { state with captureChunks := state.captureChunks ++ inner.flatMap SaxEvent.text } := by
  induction inner generalizing state with
  | nil =>
    rw [List.flatMap_nil, List.append_nil]
    rfl
  | cons event inner ih =>
    obtain ⟨hevent, hrest⟩ := List.forall_mem_cons.1 h
    cases event with
    | startElement name => exact hevent.elim
    | characters text =>
      have hstep : handleEvent state (.characters text) =
          .ok { state with captureChunks := state.captureChunks ++ text } := by
        simp only [handleEvent, hfield]
      rw [List.foldlM_cons, hstep]
      show inner.foldlM handleEvent { state with captureChunks := state.captureChunks ++ text } = _
      have hnext : { state with captureChunks := state.captureChunks ++ text }.capture = some field := hfield
      rw [ih hrest hnext, List.flatMap_cons, List.append_assoc]
      rfl
    | endElement name => exact hevent.elim
    | other =>
      rw [List.foldlM_cons]
      exact ih hrest hfield

private theorem captureElement_entry (h : captureElement name = some field) :
    entryElement name = none := by
  by_cases hversion : name = "Version"
  · have hnone : captureElement "Version" = none := by decide
    rw [hversion, hnone] at h
    cases h
  · by_cases hmarker : name = "DeleteMarker"
    · have hnone : captureElement "DeleteMarker" = none := by decide
      rw [hmarker, hnone] at h
      cases h
    · rw [entryElement, if_neg hversion, if_neg hmarker]

/-- A captured element puts its text into the state, if the text is a binary. -/
private theorem element_run (hname : captureElement name = some field) {text : List Char}
    (h : TextElement name text events) (hidle : state.Idle) :
    events.foldlM handleEvent state =
      match iodataToBinary text with
      | some value => .ok (putCapture state field value)
      | none => .error .objectVersionListingInvalid := by
  obtain ⟨inner, rfl, hinner, rfl⟩ := h
  have hstart : handleEvent state (.startElement name) = .ok { state with capture := some field, captureChunks := [] } := by
    simp only [handleEvent, captureElement_entry hname, hname]
  rw [List.foldlM_cons, hstart]
  show (inner ++ [SaxEvent.endElement name]).foldlM handleEvent { state with capture := some field, captureChunks := [] } = _
  rw [List.foldlM_append, text_run hinner rfl, List.nil_append]
  show ([SaxEvent.endElement name].foldlM handleEvent
    { state with capture := some field, captureChunks := inner.flatMap SaxEvent.text }) = _
  rw [List.foldlM_cons]
  simp only [handleEvent, hname, if_true]
  cases iodataToBinary (inner.flatMap SaxEvent.text) with
  | none => rfl
  | some value =>
    obtain ⟨hcapture, hchunks⟩ := hidle
    obtain ⟨capture, captureChunks, current, entries, isTruncated, nextKeyMarker, nextVersionIdMarker⟩ := state
    subst hcapture hchunks
    cases field <;> cases current <;> rfl

theorem iodataToBinary_ascii {text : String} (h : ∀ c ∈ text.toList, c.toNat < 128) :
    iodataToBinary text.toList = some (Utf8.octets text) := by
  have hall : (text.toList.all fun c => c.toNat < 256) = true := by
    refine List.all_eq_true.2 fun c hc => decide_eq_true ?_
    have := h c hc
    omega
  rw [iodataToBinary, if_pos hall, Utf8.octets_ascii h]

private theorem putCapture_idle (hidle : state.Idle) (field : Field) (value : List UInt8) :
    (putCapture state field value).Idle := by
  unfold putCapture
  split <;> exact hidle

private theorem element_run_ascii (hname : captureElement name = some field) {text : String}
    (htext : ∀ c ∈ text.toList, c.toNat < 128) (h : TextElement name text.toList events) (hidle : state.Idle) :
    events.foldlM handleEvent state = .ok (putCapture state field (Utf8.octets text)) := by
  rw [element_run hname h hidle, iodataToBinary_ascii htext]

private theorem run_append {events' : List SaxEvent} {mid : ParserState}
    (h : events.foldlM handleEvent state = .ok mid) :
    (events ++ events').foldlM handleEvent state = events'.foldlM handleEvent mid := by
  rw [List.foldlM_append, h]
  rfl

/-- The texts of an element, in either order. -/
private theorem texts_run {stored : StoredVersion} {first between second : List SaxEvent} (hbetween : Noise between)
    (h : (TextElement "Key" stored.key.toList first ∧ TextElement "VersionId" stored.versionId.toList second) ∨
      (TextElement "VersionId" stored.versionId.toList first ∧ TextElement "Key" stored.key.toList second))
    (hidle : state.Idle) (hcurrent : state.current = some ⟨stored.kind, none, none⟩) :
    (first ++ (between ++ second)).foldlM handleEvent state =
      .ok { state with
        current := some ⟨stored.kind, some (Utf8.octets stored.key), some (Utf8.octets stored.versionId)⟩ } := by
  have hkey : captureElement "Key" = some .key := rfl
  have hversion : captureElement "VersionId" = some .versionId := by decide
  rcases h with ⟨hfirst, hsecond⟩ | ⟨hfirst, hsecond⟩
  · have hmid := putCapture_idle hidle .key (Utf8.octets stored.key)
    rw [run_append (element_run_ascii hkey stored.key_ascii hfirst hidle), run_append (noise_run hbetween hmid),
      element_run_ascii hversion stored.versionId_ascii hsecond hmid]
    simp only [putCapture, hcurrent]
  · have hmid := putCapture_idle hidle .versionId (Utf8.octets stored.versionId)
    rw [run_append (element_run_ascii hversion stored.versionId_ascii hfirst hidle),
      run_append (noise_run hbetween hmid), element_run_ascii hkey stored.key_ascii hsecond hmid]
    simp only [putCapture, hcurrent]

private theorem entryElement_elementName (kind : EntryKind) : entryElement (elementName kind) = some kind := by
  cases kind <;> decide

private theorem captureElement_elementName (kind : EntryKind) : captureElement (elementName kind) = none := by
  cases kind <;> decide

/-- The entry of an element is kept. -/
private theorem entry_run {stored : StoredVersion} (h : EntryElement stored events) (hidle : state.Idle) :
    events.foldlM handleEvent state =
      .ok { state with current := none, entries := stored.entry :: state.entries } := by
  obtain ⟨before, first, between, second, after, rfl, ⟨hbefore, hbetween, hafter⟩, htexts⟩ := h
  have hstart : [SaxEvent.startElement (elementName stored.kind)].foldlM handleEvent state =
      .ok { state with current := some ⟨stored.kind, none, none⟩ } := by
    rw [List.foldlM_cons]
    simp only [handleEvent, entryElement_elementName]
    rfl
  have hopen : { state with current := some ⟨stored.kind, none, none⟩ }.Idle := hidle
  have hread := texts_run hbetween htexts hopen rfl
  have hfull : { state with
      current := some ⟨stored.kind, some (Utf8.octets stored.key), some (Utf8.octets stored.versionId)⟩ }.Idle := hidle
  rw [← List.singleton_append, run_append hstart, run_append (noise_run hbefore hopen), ← List.append_assoc between,
    ← List.append_assoc first, run_append hread, run_append (noise_run hafter hfull), List.foldlM_cons]
  simp only [handleEvent, captureElement_elementName, entryElement_elementName, finishEntry, Option.isSome_some, if_true,
    ne_eq, Utf8.octets_nonempty stored.versionId_nonempty, not_false_eq_true]
  rfl

private theorem putCapture_entries (state : ParserState) (field : Field) (value : List UInt8) :
    (putCapture state field value).entries = state.entries := by
  unfold putCapture
  split <;> rfl

private theorem field_captured (h : name ∈ ["IsTruncated", "NextKeyMarker", "NextVersionIdMarker"]) :
    ∃ field, captureElement name = some field := by
  simp only [List.mem_cons, List.not_mem_nil, or_false] at h
  rcases h with rfl | rfl | rfl
  · exact ⟨.isTruncated, by decide⟩
  · exact ⟨.nextKeyMarker, by decide⟩
  · exact ⟨.nextVersionIdMarker, by decide⟩

/-- Every entry is kept, in the order of the listing. -/
theorem listing_entries {page : List StoredVersion} (h : ListingEvents page events) {state' : ParserState}
    (hidle : state.Idle) (hrun : events.foldlM handleEvent state = .ok state') :
    state'.entries = (page.map StoredVersion.entry).reverse ++ state.entries := by
  induction h generalizing state with
  | done =>
    cases hrun
    rfl
  | noise hnoise _ ih =>
    rw [← List.singleton_append, run_append (noise_run (List.forall_mem_singleton.2 hnoise) hidle)] at hrun
    exact ih hidle hrun
  | field hname helement _ ih =>
    obtain ⟨field, hfield⟩ := field_captured hname
    obtain ⟨mid, hmid, hrest⟩ := foldlM_append_ok.1 hrun
    rw [element_run hfield helement hidle] at hmid
    split at hmid
    · cases hmid
      rw [ih (putCapture_idle hidle _ _) hrest, putCapture_entries]
    · cases hmid
  | entry helement _ ih =>
    rw [run_append (entry_run helement hidle)] at hrun
    rw [ih (by exact hidle) hrun, List.map_cons, List.reverse_cons, List.append_assoc]
    rfl

/-- The parser reads a document faithfully: its events are those of the listing. -/
def Reads (sax : String → Option (List SaxEvent × String)) (page : List StoredVersion) (body : String) : Prop :=
  ∃ events rest, sax (trimLeading body) = some (events, rest) ∧ ListingEvents page events

theorem parse_entries {sax : String → Option (List SaxEvent × String)} {upcase : String → String}
    {page : List StoredVersion} {body : String} {listing : Listing} (hreads : Reads sax page body)
    (h : parse sax upcase body = .ok listing) : listing.entries = page.map StoredVersion.entry := by
  obtain ⟨events, rest, hsax, hevents⟩ := hreads
  unfold parse at h
  dsimp only at h
  rw [hsax] at h
  split at h
  · cases h
  · split at h
    · cases h
    · dsimp only at h
      split at h
      · cases h
      · rename_i state hrun
        split at h
        · cases h
          have hentries := listing_entries hevents ⟨rfl, rfl⟩ hrun
          rw [hentries]
          simp [initial]
        · cases h

end VersionListing

end KComms.ObjectStorage
