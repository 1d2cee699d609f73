import KComms.AudioCalls.MeetingCalendar
import KComms.Lib.ContentLines
import KComms.Lib.ElixirString
import KComms.Lib.Utf8

/-!
# The text of a calendar (`MeetingCalendar.render`)

Text of the user stands in a calendar only escaped, and every line is folded before the lines are joined.  So the octets
of the calendar unfold and split into the lines again, and the title comes back from its line (`render_lines`).
-/

namespace KComms.AudioCalls.MeetingCalendar

open ContentLines (splitLines unfolded folded physical)
open ElixirString (replace replaceFrom)
open Utf8 (octets)

/-! ### Dates -/

/-- Year, month and day of a day, counted from the first of January 1970. -/
def civilDate (days : Int) : Int × Nat × Nat :=
  let z := days + 719468
  let era := z / 146097
  let doe := (z - era * 146097).toNat
  let yoe := (doe - doe / 1460 + doe / 36524 - doe / 146096) / 365
  let doy := doe - (365 * yoe + yoe / 4 - yoe / 100)
  let mp := (5 * doy + 2) / 153
  let month := if mp < 10 then mp + 3 else mp - 9
  (yoe + era * 400 + (if month ≤ 2 then 1 else 0), month, doy - (153 * mp + 2) / 5 + 1)

def zeroPadded (width n : Nat) : String :=
  String.ofList (List.replicate (width - (toString n).length) '0') ++ toString n

/-- `Calendar.strftime(datetime, "%Y%m%dT%H%M%SZ")` -/
def stamp (time : Int) : String :=
  let seconds := time / 1000000
  let (year, month, day) := civilDate (seconds / 86400)
  let clock := (seconds % 86400).toNat
  (if year < 0 then "-" else "") ++ zeroPadded 4 year.natAbs ++ zeroPadded 2 month ++ zeroPadded 2 day ++ "T" ++
    zeroPadded 2 (clock / 3600) ++ zeroPadded 2 (clock / 60 % 60) ++ zeroPadded 2 (clock % 60) ++ "Z"

example : stamp 1805029200000000 = "20270314T130000Z" := by decide

/-! ### Escaping and folding -/

def escape (text : String) : String :=
  let text := replace text "\\" "\\\\"
  let text := replace text "\r\n" "\\n"
  let text := replace text "\n" "\\n"
  let text := replace text "\r" "\\n"
  let text := replace text ";" "\\;"
  replace text "," "\\,"

/-- `fold` of the code points of a line; the parts, before they are joined. -/
def foldLoop : List Char → List String → String → Nat → List String
  | [], acc, current, _ => (current :: acc).reverse
  | part :: rest, acc, current, bytes =>
    if bytes + part.utf8Size > 74 then foldLoop rest (current :: acc) (String.singleton part) part.utf8Size
    else foldLoop rest acc (current ++ String.singleton part) (bytes + part.utf8Size)

def fold (line : String) : String := "\r\n ".intercalate (foldLoop line.toList [] "" 0)

/-! ### The calendar -/

/-- The lines of one event; `now` is what the clock says. -/
def eventLines (now : Int) (meeting : MeetingView) (occurrence : OccurrenceView) : List String :=
  ["BEGIN:VEVENT",
   "UID:" ++ meeting.id ++ "-" ++ toString occurrence.sequence ++ "@k-comms",
   "DTSTAMP:" ++ stamp now,
   "SEQUENCE:" ++ toString meeting.version,
   "DTSTART:" ++ stamp occurrence.startsAt,
   "DTEND:" ++ stamp occurrence.endsAt,
   "SUMMARY:" ++ escape meeting.schedule.title,
   "STATUS:" ++ (if meeting.status = .cancelled ∨ occurrence.status = .cancelled then "CANCELLED" else "CONFIRMED"),
   "DESCRIPTION:" ++ escape ("K-Comms meeting. Open the authenticated workspace meeting calendar to join. Timezone: " ++
     meeting.schedule.timezone ++ "."),
   "X-K-COMMS-MEETING-ID:" ++ meeting.id,
   "END:VEVENT"]

/-- The lines before they are folded; the clock is read once for each event. -/
def lines (clock : Nat → Int) (meeting : MeetingView) : List String :=
  ["BEGIN:VCALENDAR",
   "VERSION:2.0",
   "PRODID:-//K-Comms//Meetings//EN",
   "CALSCALE:GREGORIAN",
   "METHOD:" ++ (if meeting.status = .cancelled then "CANCEL" else "PUBLISH")] ++
  (meeting.occurrences.zipIdx.flatMap fun entry => eventLines (clock entry.2) meeting entry.1) ++
  ["END:VCALENDAR"]

def render (clock : Nat → Int) (meeting : MeetingView) : String :=
  "\r\n".intercalate ((lines clock meeting).map fold) ++ "\r\n"

/-! ### Escaped text -/

/-- Each line break as one newline. -/
def newlines : List Char → List Char
  | '\r' :: '\n' :: rest => '\n' :: newlines rest
  | '\r' :: rest => '\n' :: newlines rest
  | c :: rest => c :: newlines rest
  | [] => []

variable {clock : Nat → Int} {meeting : MeetingView}

theorem newlines_cons {c : Char} (h : c ≠ '\r') (rest : List Char) : newlines (c :: rest) = c :: newlines rest := by
  rw [newlines]
  · exact fun _ hc => absurd hc h
  · exact h

/-- A text value of a content line. -/
def unescape : List Char → List Char
  | '\\' :: 'n' :: rest => '\n' :: unescape rest
  | '\\' :: 'N' :: rest => '\n' :: unescape rest
  | '\\' :: c :: rest => c :: unescape rest
  | c :: rest => c :: unescape rest
  | [] => []

/-- What becomes of one character. -/
def escapeChar (c : Char) : List Char :=
  if c = '\\' then ['\\', '\\']
  else if c = '\n' then ['\\', 'n']
  else if c = ';' then ['\\', ';']
  else if c = ',' then ['\\', ',']
  else [c]

private theorem toList_replace (text pattern replacement : String) : (replace text pattern replacement).toList =
    replaceFrom pattern.toList replacement.toList text.toList 0 := String.toList_ofList

/-- The steps after the line breaks of two characters. -/
private def later (l : List Char) : List Char :=
  (((l.flatMap fun c => if c = '\n' then ['\\', 'n'] else [c]).flatMap fun c => if c = '\r' then ['\\', 'n'] else [c]).flatMap
    fun c => if c = ';' then ['\\', ';'] else [c]).flatMap fun c => if c = ',' then ['\\', ','] else [c]

private theorem later_append (l l' : List Char) : later (l ++ l') = later l ++ later l' := by
  unfold later
  simp only [List.flatMap_append]

private def doubled (l : List Char) : List Char := l.flatMap fun c => if c = '\\' then ['\\', '\\'] else [c]

private theorem escape_steps (l : List Char) :
    later (replaceFrom ['\r', '\n'] ['\\', 'n'] (doubled l) 0) = (newlines l).flatMap escapeChar := by
  induction l using newlines.induct with
  | case1 rest ih =>
    have hdoubled : doubled ('\r' :: '\n' :: rest) = '\r' :: '\n' :: doubled rest := by simp [doubled]
    rw [hdoubled, ElixirString.replaceFrom_pair, later_append, ih, newlines, List.flatMap_cons]
    rfl
  | case2 rest hrest ih =>
    have hdoubled : doubled ('\r' :: rest) = '\r' :: doubled rest := by simp [doubled]
    have hhead : (doubled rest).head? ≠ some '\n' := by
      cases rest with
      | nil => simp [doubled]
      | cons d rest =>
        have hd : d ≠ '\n' := fun heq => hrest rest (by rw [heq])
        unfold doubled
        rw [List.flatMap_cons]
        split
        · simp
        · simpa using hd
    have hlater : later ['\r'] = escapeChar '\n' := by decide
    rw [hdoubled, ElixirString.replaceFrom_pair_other (fun _ => hhead),
      show ∀ l : List Char, '\r' :: l = ['\r'] ++ l from fun _ => rfl, later_append, ih, hlater, newlines,
      List.flatMap_cons]
    exact hrest
  | case3 c rest hpair hcr ih =>
    have hother : ∀ l : List Char, replaceFrom ['\r', '\n'] ['\\', 'n'] (c :: l) 0 =
        [c] ++ replaceFrom ['\r', '\n'] ['\\', 'n'] l 0 :=
      fun l => ElixirString.replaceFrom_pair_other (fun heq => absurd heq hcr) _
    rw [newlines_cons hcr, List.flatMap_cons, ← ih]
    by_cases hslash : c = '\\'
    · have hdoubled : doubled (c :: rest) = c :: c :: doubled rest := by simp [doubled, hslash]
      have hlater : later [c] ++ later [c] = escapeChar c := by rw [hslash]; decide
      rw [hdoubled, hother, hother, later_append, later_append, ← List.append_assoc, hlater]
    · have hdoubled : doubled (c :: rest) = c :: doubled rest := by simp [doubled, hslash]
      have hlater : later [c] = escapeChar c := by
        have hsingle : ∀ f : Char → List Char, [c].flatMap f = f c := fun f => by simp
        unfold later escapeChar
        rw [hsingle, if_neg hslash]
        by_cases hnewline : c = '\n'
        · rw [hnewline]
          decide
        · rw [if_neg hnewline, if_neg hnewline, hsingle, if_neg hcr, hsingle]
          by_cases hsemicolon : c = ';'
          · rw [hsemicolon]
            decide
          · rw [if_neg hsemicolon, if_neg hsemicolon, hsingle]
      rw [hdoubled, hother, later_append, hlater]
  | case4 => rfl

theorem toList_escape (text : String) : (escape text).toList = (newlines text.toList).flatMap escapeChar := by
  rw [← escape_steps]
  unfold escape
  simp only [toList_replace]
  have hslash : "\\".toList = ['\\'] := rfl
  have hpair : "\r\n".toList = ['\r', '\n'] := rfl
  have hlf : "\n".toList = ['\n'] := rfl
  have hcr : "\r".toList = ['\r'] := rfl
  have hsemicolon : ";".toList = [';'] := rfl
  have hcomma : ",".toList = [','] := rfl
  rw [hslash, hpair, hlf, hcr, hsemicolon, hcomma]
  simp only [ElixirString.replaceFrom_character]
  rfl

theorem unescape_escapeChar (c : Char) (rest : List Char) : unescape (escapeChar c ++ rest) = c :: unescape rest := by
  unfold escapeChar
  by_cases hslash : c = '\\'
  · subst hslash
    simp [unescape]
  · rw [if_neg hslash]
    by_cases hnewline : c = '\n'
    · subst hnewline
      simp [unescape]
    · rw [if_neg hnewline]
      by_cases hsemicolon : c = ';'
      · subst hsemicolon
        simp [unescape]
      · rw [if_neg hsemicolon]
        by_cases hcomma : c = ','
        · subst hcomma
          simp [unescape]
        · rw [if_neg hcomma, List.singleton_append]
          simp [unescape, hslash]

/-- Unescaped, the text has one newline for each line break. -/
theorem unescape_escape (text : String) : unescape (escape text).toList = newlines text.toList := by
  rw [toList_escape]
  generalize newlines text.toList = l
  induction l with
  | nil => rfl
  | cons c l ih => rw [List.flatMap_cons, unescape_escapeChar, ih]

/-! ### Text without line breaks -/

def Plain (text : String) : Prop := ∀ c ∈ text.toList, c ≠ '\r' ∧ c ≠ '\n'

instance (text : String) : Decidable (Plain text) := inferInstanceAs (Decidable (∀ c ∈ text.toList, c ≠ '\r' ∧ c ≠ '\n'))

theorem Plain.append {s t : String} (hs : Plain s) (ht : Plain t) : Plain (s ++ t) := by
  intro c hc
  rw [String.toList_append, List.mem_append] at hc
  exact hc.elim (hs c) (ht c)

theorem plain_toString (n : Nat) : Plain (toString n) := by
  intro c hc
  rw [Nat.toString_eq_repr, Nat.toList_repr] at hc
  have hdigit := Nat.isDigit_of_mem_toDigits (by decide) (by decide) hc
  constructor <;> rintro rfl <;> simp at hdigit

theorem plain_zeroPadded (width n : Nat) : Plain (zeroPadded width n) := by
  refine Plain.append (fun c hc => ?_) (plain_toString n)
  rw [String.toList_ofList] at hc
  rw [List.eq_of_mem_replicate hc]
  decide

theorem plain_stamp (time : Int) : Plain (stamp time) := by
  have hsign : ∀ year : Int, Plain (if year < 0 then "-" else "") := by
    intro year
    split <;> decide
  have hT : Plain "T" := by decide
  have hZ : Plain "Z" := by decide
  unfold stamp
  dsimp only
  exact ((((((((hsign _).append (plain_zeroPadded _ _)).append (plain_zeroPadded _ _)).append
    (plain_zeroPadded _ _)).append hT).append (plain_zeroPadded _ _)).append (plain_zeroPadded _ _)).append
    (plain_zeroPadded _ _)).append hZ

theorem not_mem_newlines (l : List Char) : '\r' ∉ newlines l := by
  induction l using newlines.induct with
  | case1 rest ih =>
    rw [newlines]
    simpa using ih
  | case2 rest hrest ih =>
    rw [newlines]
    · simpa using ih
    · exact hrest
  | case3 c rest hpair hcr ih =>
    rw [newlines_cons hcr]
    intro hmem
    rcases List.mem_cons.1 hmem with heq | hmem
    · exact hcr heq.symm
    · exact ih hmem
  | case4 => simp [newlines]

theorem plain_escape (text : String) : Plain (escape text) := by
  intro c hc
  rw [toList_escape, List.mem_flatMap] at hc
  obtain ⟨d, hd, hc⟩ := hc
  have hcr : d ≠ '\r' := fun heq => not_mem_newlines text.toList (heq ▸ hd)
  unfold escapeChar at hc
  split at hc
  · simp only [List.mem_cons, List.not_mem_nil, or_false, or_self] at hc
    rw [hc]
    decide
  · split at hc
    · simp only [List.mem_cons, List.not_mem_nil, or_false] at hc
      rcases hc with rfl | rfl <;> decide
    · rename_i hnewline
      split at hc
      · simp only [List.mem_cons, List.not_mem_nil, or_false] at hc
        rcases hc with rfl | rfl <;> decide
      · split at hc
        · simp only [List.mem_cons, List.not_mem_nil, or_false] at hc
          rcases hc with rfl | rfl <;> decide
        · rw [List.mem_singleton.1 hc]
          exact ⟨hcr, hnewline⟩

theorem plain_lines (hid : Plain meeting.id) :
    ∀ line ∈ lines clock meeting, Plain line := by
  have hevent : ∀ (now : Int) (occurrence : OccurrenceView), ∀ line ∈ eventLines now meeting occurrence, Plain line := by
    intro now occurrence line hline
    have huid : Plain ("UID:" ++ meeting.id ++ "-" ++ toString occurrence.sequence ++ "@k-comms") :=
      ((((show Plain "UID:" by decide).append hid).append (by decide)).append (plain_toString _)).append (by decide)
    have hstamp : ∀ (name : String) (time : Int), Plain name → Plain (name ++ stamp time) :=
      fun name time hname => hname.append (plain_stamp time)
    have hescape : ∀ name text : String, Plain name → Plain (name ++ escape text) :=
      fun name text hname => hname.append (plain_escape text)
    have hversion : Plain ("SEQUENCE:" ++ toString meeting.version) :=
      (show Plain "SEQUENCE:" by decide).append (plain_toString _)
    have hmeeting : Plain ("X-K-COMMS-MEETING-ID:" ++ meeting.id) :=
      (show Plain "X-K-COMMS-MEETING-ID:" by decide).append hid
    unfold eventLines at hline
    simp only [List.mem_cons, List.not_mem_nil, or_false] at hline
    rcases hline with rfl | rfl | rfl | rfl | rfl | rfl | rfl | rfl | rfl | rfl | rfl
    · decide
    · exact huid
    · exact hstamp _ _ (by decide)
    · exact hversion
    · exact hstamp _ _ (by decide)
    · exact hstamp _ _ (by decide)
    · exact hescape _ _ (by decide)
    · split <;> decide
    · exact hescape _ _ (by decide)
    · exact hmeeting
    · decide
  intro line hline
  unfold lines at hline
  rw [List.mem_append, List.mem_append] at hline
  rcases hline with (hline | hline) | hline
  · simp only [List.mem_cons, List.not_mem_nil, or_false] at hline
    rcases hline with rfl | rfl | rfl | rfl | rfl
    · decide
    · decide
    · decide
    · decide
    · split <;> decide
  · obtain ⟨entry, -, hline⟩ := List.mem_flatMap.1 hline
    exact hevent _ _ line hline
  · rw [List.mem_singleton.1 hline]
    decide

/-! ### The parts of a line -/

/-- The parts are the line, have at most 74 octets each, and the first one begins with what was read first. -/
theorem foldLoop_spec (rest : List Char) : ∀ (acc : List String) (current : String) (bytes : Nat),
    bytes = (octets current).length → bytes ≤ 74 → (∀ part ∈ acc, (octets part).length ≤ 74) →
    (foldLoop rest acc current bytes).flatMap String.toList =
      acc.reverse.flatMap String.toList ++ current.toList ++ rest ∧
    (∀ part ∈ foldLoop rest acc current bytes, (octets part).length ≤ 74) ∧
    ∃ part parts, foldLoop rest acc current bytes = acc.reverse ++ part :: parts ∧ current.toList <+: part.toList := by
  induction rest with
  | nil =>
    intro acc current bytes hbytes hbound hacc
    have hloop : foldLoop [] acc current bytes = acc.reverse ++ [current] := List.reverse_cons ..
    rw [hloop]
    refine ⟨?_, fun part hpart => ?_, current, [], rfl, List.prefix_rfl⟩
    · rw [List.flatMap_append, List.flatMap_singleton, List.append_nil]
    · rcases List.mem_append.1 hpart with hpart | hpart
      · exact hacc part (List.mem_reverse.1 hpart)
      · rw [List.mem_singleton.1 hpart]
        omega
  | cons c rest ih =>
    intro acc current bytes hbytes hbound hacc
    have hsize := c.utf8Size_le_four
    by_cases hfull : bytes + c.utf8Size > 74
    · have hnext := ih (current :: acc) (String.singleton c) c.utf8Size
        (by rw [Utf8.octets_singleton, String.length_utf8EncodeChar]) (by omega) (fun part hpart => by
          rcases List.mem_cons.1 hpart with rfl | hpart
          · omega
          · exact hacc part hpart)
      rw [foldLoop, if_pos hfull]
      obtain ⟨hflat, hparts, part, parts, hsplit, -⟩ := hnext
      refine ⟨?_, hparts, current, part :: parts, ?_, List.prefix_rfl⟩
      · rw [hflat, List.reverse_cons, List.flatMap_append, List.flatMap_singleton, String.toList_singleton,
          List.append_assoc _ [c], List.singleton_append]
      · rw [hsplit, List.reverse_cons, List.append_assoc]
        rfl
    · have hnext := ih acc (current ++ String.singleton c) (bytes + c.utf8Size)
        (by rw [Utf8.octets_append, Utf8.octets_singleton, List.length_append, String.length_utf8EncodeChar, hbytes])
        (by omega) hacc
      rw [foldLoop, if_neg hfull]
      obtain ⟨hflat, hparts, part, parts, hsplit, hstart⟩ := hnext
      rw [String.toList_append] at hstart
      refine ⟨?_, hparts, part, parts, hsplit, (List.prefix_append _ _).trans hstart⟩
      rw [hflat, String.toList_append, String.toList_singleton, List.append_assoc, List.append_assoc, List.append_assoc,
        List.singleton_append]

/-- The parts of a line that is not empty. -/
theorem foldLoop_line {line : String} {c : Char} {rest : List Char} (h : line.toList = c :: rest) :
    (foldLoop line.toList [] "" 0).flatMap String.toList = line.toList ∧
    (∀ part ∈ foldLoop line.toList [] "" 0, (octets part).length ≤ 74) ∧
    ∃ part parts, foldLoop line.toList [] "" 0 = part :: parts ∧ part.toList.head? = some c := by
  have hsize := c.utf8Size_le_four
  have hfirst : foldLoop line.toList [] "" 0 = foldLoop rest [] (String.singleton c) c.utf8Size := by
    rw [h, foldLoop, if_neg (by omega), Nat.zero_add]
    rfl
  obtain ⟨hflat, hparts, part, parts, hsplit, hstart⟩ := foldLoop_spec rest [] (String.singleton c) c.utf8Size
    (by rw [Utf8.octets_singleton, String.length_utf8EncodeChar]) (by omega) (fun part hpart => by cases hpart)
  rw [hfirst]
  refine ⟨?_, hparts, part, parts, hsplit, ?_⟩
  · rw [hflat, h, String.toList_singleton]
    rfl
  · rw [String.toList_singleton] at hstart
    obtain ⟨tail, htail⟩ := hstart
    rw [← htail]
    rfl

/-! ### The octets of the calendar -/

/-- The octets of the parts of a line. -/
def partsOf (line : String) : List (List UInt8) := (foldLoop line.toList [] "" 0).map octets

theorem octets_plain {text : String} (h : Plain text) : ∀ b ∈ octets text, b ≠ 13 ∧ b ≠ 10 := by
  have hnot : ∀ (c : Char) (b : UInt8), b.toNat < 128 → c.toNat = b.toNat → c ∉ text.toList → b ∉ octets text := by
    intro c b hlow hcode hc hb
    obtain ⟨d, hd, hdb⟩ := Utf8.mem_octets_ascii hb hlow
    have hsame : d = c := Char.toNat_inj.1 (hdb.trans hcode.symm)
    exact hc (hsame ▸ hd)
  intro b hb
  constructor
  · rintro rfl
    exact hnot '\r' 13 (by decide) (by decide) (fun hc => (h _ hc).1 rfl) hb
  · rintro rfl
    exact hnot '\n' 10 (by decide) (by decide) (fun hc => (h _ hc).2 rfl) hb

theorem partsOf_spec {line : String} (hplain : Plain line) {c : Char} {rest : List Char} (h : line.toList = c :: rest)
    (hc : c ≠ ' ') : ContentLines.Parts 13 10 32 (partsOf line) ∧ (partsOf line).flatten = octets line ∧
      ∀ part ∈ partsOf line, part.length ≤ 74 ∧ ∃ text : String, part = octets text := by
  obtain ⟨hflat, hparts, part, parts, hsplit, hhead⟩ := foldLoop_line h
  have hflatten : (partsOf line).flatten = octets line := by
    have hoctets : octets line = (foldLoop line.toList [] "" 0).flatMap octets := by
      unfold octets
      rw [← List.flatMap_assoc, hflat]
    rw [hoctets, List.flatMap_def]
    rfl
  have hpart : ∀ text ∈ foldLoop line.toList [] "" 0, Plain text := by
    intro text htext d hd
    exact hplain d (by rw [← hflat]; exact List.mem_flatMap.2 ⟨text, htext, hd⟩)
  refine ⟨⟨fun part hmem => ?_, ?_⟩, hflatten, fun part hmem => ?_⟩
  · obtain ⟨text, htext, rfl⟩ := List.mem_map.1 hmem
    exact octets_plain (hpart text htext)
  · have hcode : c.toNat ≠ (32 : UInt8).toNat := fun heq => hc (Char.toNat_inj.1 heq)
    obtain ⟨a, tail, htail, ha⟩ := Utf8.head?_octets_ne hhead (show (32 : UInt8).toNat < 128 by decide) hcode
    refine ⟨a, tail, parts.map octets, ?_, ha⟩
    unfold partsOf
    rw [hsplit, List.map_cons, htail]
  · obtain ⟨text, htext, rfl⟩ := List.mem_map.1 hmem
    exact ⟨hparts text htext, text, rfl⟩

theorem octets_fold (line : String) : octets (fold line) = folded 13 10 32 (partsOf line) := by
  unfold fold
  rw [Utf8.octets_intercalate]
  rfl

theorem lines_ne_nil (clock : Nat → Int) (meeting : MeetingView) : lines clock meeting ≠ [] := by simp [lines]

theorem octets_render (clock : Nat → Int) (meeting : MeetingView) :
    octets (render clock meeting) = ContentLines.text 13 10 32 ((lines clock meeting).map partsOf) := by
  have hjoin : ∀ l : List String, l ≠ [] → octets ("\r\n".intercalate (l.map fold) ++ "\r\n") =
      ContentLines.text 13 10 32 (l.map partsOf) := by
    intro l
    induction l with
    | nil => exact fun hne => absurd rfl hne
    | cons line l ih =>
      intro _
      have hcrlf : octets "\r\n" = [13, 10] := by decide
      cases l with
      | nil =>
        rw [List.map_singleton, String.intercalate_singleton, Utf8.octets_append, octets_fold, hcrlf]
        simp [ContentLines.text]
      | cons next l =>
        have hrest := ih (List.cons_ne_nil _ _)
        rw [List.map_cons] at hrest
        rw [List.map_cons, List.map_cons, String.intercalate_cons_cons, String.append_assoc, Utf8.octets_append, hrest,
          Utf8.octets_append, octets_fold, hcrlf]
        rfl
  exact hjoin _ (lines_ne_nil clock meeting)

/-- The text begins with a letter. -/
def Starts (text : String) : Prop := ∃ c rest, text.toList = c :: rest ∧ c ≠ ' '

theorem Starts.append {s : String} (h : Starts s) (t : String) : Starts (s ++ t) := by
  obtain ⟨c, rest, hs, hc⟩ := h
  exact ⟨c, rest ++ t.toList, by rw [String.toList_append, hs]; rfl, hc⟩

theorem starts_lines : ∀ line ∈ lines clock meeting, Starts line := by
  intro line hline
  unfold lines at hline
  rw [List.mem_append, List.mem_append] at hline
  rcases hline with (hline | hline) | hline
  · simp only [List.mem_cons, List.not_mem_nil, or_false] at hline
    rcases hline with rfl | rfl | rfl | rfl | rfl
    · exact ⟨'B', _, rfl, by decide⟩
    · exact ⟨'V', _, rfl, by decide⟩
    · exact ⟨'P', _, rfl, by decide⟩
    · exact ⟨'C', _, rfl, by decide⟩
    · exact Starts.append ⟨'M', _, rfl, by decide⟩ _
  · obtain ⟨entry, -, hline⟩ := List.mem_flatMap.1 hline
    unfold eventLines at hline
    simp only [List.mem_cons, List.not_mem_nil, or_false] at hline
    rcases hline with rfl | rfl | rfl | rfl | rfl | rfl | rfl | rfl | rfl | rfl | rfl
    · exact ⟨'B', _, rfl, by decide⟩
    · exact (((Starts.append ⟨'U', _, rfl, by decide⟩ _).append _).append _).append _
    · exact Starts.append ⟨'D', _, rfl, by decide⟩ _
    · exact Starts.append ⟨'S', _, rfl, by decide⟩ _
    · exact Starts.append ⟨'D', _, rfl, by decide⟩ _
    · exact Starts.append ⟨'D', _, rfl, by decide⟩ _
    · exact Starts.append ⟨'S', _, rfl, by decide⟩ _
    · exact Starts.append ⟨'S', _, rfl, by decide⟩ _
    · exact Starts.append ⟨'D', _, rfl, by decide⟩ _
    · exact Starts.append ⟨'X', _, rfl, by decide⟩ _
    · exact ⟨'E', _, rfl, by decide⟩
  · rw [List.mem_singleton.1 hline]
    exact ⟨'E', _, rfl, by decide⟩

theorem length_lines (clock : Nat → Int) (meeting : MeetingView) :
    (lines clock meeting).length = 6 + 11 * meeting.occurrences.length := by
  have hevents : (meeting.occurrences.zipIdx.flatMap fun entry => eventLines (clock entry.2) meeting entry.1).length =
      11 * meeting.occurrences.length := by
    rw [List.length_flatMap]
    have hconst : (meeting.occurrences.zipIdx.map fun entry => (eventLines (clock entry.2) meeting entry.1).length) =
        List.replicate meeting.occurrences.length 11 := by
      rw [List.eq_replicate_iff]
      refine ⟨by simp, fun n hn => ?_⟩
      obtain ⟨entry, -, rfl⟩ := List.mem_map.1 hn
      rfl
    have hsum : ∀ n : Nat, (List.replicate n 11).sum = 11 * n := by
      intro n
      induction n with
      | zero => rfl
      | succ n ih =>
        rw [List.replicate_succ, List.sum_cons, ih]
        omega
    rw [hconst, hsum]
  unfold lines
  rw [List.length_append, List.length_append, hevents]
  simp only [List.length_cons, List.length_nil]
  omega

private theorem take_append {s : String} (h : 2 ≤ s.toList.length) (t : String) :
    (s ++ t).toList.take 2 = s.toList.take 2 := by
  rw [String.toList_append, List.take_append_of_le_length h]

/-- The summaries are the escaped title. -/
theorem summary_lines {value : String}
    (h : "SUMMARY:" ++ value ∈ lines clock meeting) : value = escape meeting.schedule.title := by
  generalize hline : "SUMMARY:" ++ value = line at h
  have htake : line.toList.take 2 = ['S', 'U'] := by
    rw [← hline, take_append (by decide)]
    decide
  have hname : ∀ (name text : String), line = name ++ text → 2 ≤ name.toList.length → name.toList.take 2 ≠ ['S', 'U'] →
      value = escape meeting.schedule.title := by
    intro name text heq hlength hne
    rw [heq, take_append hlength] at htake
    exact absurd htake hne
  unfold lines at h
  rw [List.mem_append, List.mem_append] at h
  rcases h with (h | h) | h
  · simp only [List.mem_cons, List.not_mem_nil, or_false] at h
    rcases h with rfl | rfl | rfl | rfl | rfl
    · exact absurd htake (by decide)
    · exact absurd htake (by decide)
    · exact absurd htake (by decide)
    · exact absurd htake (by decide)
    · exact hname _ _ rfl (by decide) (by decide)
  · obtain ⟨entry, -, h⟩ := List.mem_flatMap.1 h
    unfold eventLines at h
    simp only [List.mem_cons, List.not_mem_nil, or_false] at h
    rcases h with rfl | heq | heq | heq | heq | heq | heq | heq | heq | heq | rfl
    · exact absurd htake (by decide)
    · rw [String.append_assoc, String.append_assoc, String.append_assoc] at heq
      exact hname _ _ heq (by decide) (by decide)
    · exact hname _ _ heq (by decide) (by decide)
    · exact hname _ _ heq (by decide) (by decide)
    · exact hname _ _ heq (by decide) (by decide)
    · exact hname _ _ heq (by decide) (by decide)
    · rw [← hline] at heq
      exact (String.append_right_inj _).1 heq
    · exact hname _ _ heq (by decide) (by decide)
    · exact hname _ _ heq (by decide) (by decide)
    · exact hname _ _ heq (by decide) (by decide)
    · exact absurd htake (by decide)
  · rw [List.mem_singleton.1 h] at htake
    exact absurd htake (by decide)

/-- The octets of a calendar unfold and split into its lines, whatever the title and the time zone are; physical lines
are short and whole texts; and the title comes back with one newline for each of its line breaks. -/
theorem render_lines (clock : Nat → Int) (meeting : MeetingView) (hid : Plain meeting.id) :
    splitLines 13 10 (unfolded 13 10 32 (octets (render clock meeting))) = (lines clock meeting).map octets ++ [[]] ∧
    (lines clock meeting).length = 6 + 11 * meeting.occurrences.length ∧
    (∀ line ∈ splitLines 13 10 (unfolded 13 10 32 (octets (render clock meeting))), 13 ∉ line ∧ 10 ∉ line) ∧
    (∀ line ∈ splitLines 13 10 (octets (render clock meeting)), line.length ≤ 75 ∧
      ∃ text : String, line = octets text) ∧
    ∀ value : String, "SUMMARY:" ++ value ∈ lines clock meeting →
      unescape value.toList = newlines meeting.schedule.title.toList := by
  have hspec : ∀ line ∈ lines clock meeting, ContentLines.Parts 13 10 32 (partsOf line) ∧
      (partsOf line).flatten = octets line ∧ ∀ part ∈ partsOf line, part.length ≤ 74 ∧ ∃ text : String, part = octets text := by
    intro line hline
    obtain ⟨c, rest, hstart, hc⟩ := starts_lines line hline
    exact partsOf_spec (plain_lines hid line hline) hstart hc
  have hparts : ∀ parts ∈ (lines clock meeting).map partsOf, ContentLines.Parts 13 10 32 parts := by
    intro parts hmem
    obtain ⟨line, hline, rfl⟩ := List.mem_map.1 hmem
    exact (hspec line hline).1
  have hunfold : splitLines 13 10 (unfolded 13 10 32 (octets (render clock meeting))) =
      (lines clock meeting).map octets ++ [[]] := by
    rw [octets_render, ContentLines.splitLines_unfold hparts (by decide), List.map_map]
    exact congrArg (fun l => l ++ [[]]) (List.map_congr_left fun line hline => (hspec line hline).2.1)
  refine ⟨hunfold, length_lines clock meeting, fun line hline => ?_, fun line hline => ?_, fun value hvalue => ?_⟩
  · rw [hunfold] at hline
    rcases List.mem_append.1 hline with hline | hline
    · obtain ⟨text, htext, rfl⟩ := List.mem_map.1 hline
      have hplain := octets_plain (plain_lines hid text htext)
      exact ⟨fun hmem => (hplain 13 hmem).1 rfl, fun hmem => (hplain 10 hmem).2 rfl⟩
    · rw [List.mem_singleton.1 hline]
      exact ⟨List.not_mem_nil, List.not_mem_nil⟩
  · rw [octets_render, ContentLines.splitLines_text hparts (by decide)] at hline
    rcases List.mem_append.1 hline with hline | hline
    · obtain ⟨parts, hmem, hline⟩ := List.mem_flatMap.1 hline
      obtain ⟨text, htext, rfl⟩ := List.mem_map.1 hmem
      obtain ⟨-, -, hshort⟩ := hspec text htext
      cases hsplit : partsOf text with
      | nil =>
        rw [hsplit] at hline
        cases hline
      | cons part parts =>
        rw [hsplit] at hline hshort
        rcases List.mem_cons.1 hline with rfl | hline
        · obtain ⟨hlength, htext⟩ := hshort line List.mem_cons_self
          exact ⟨by omega, htext⟩
        · -- behind the first part each physical line begins with a space
          obtain ⟨part', hpart', rfl⟩ := List.mem_map.1 hline
          obtain ⟨hlength, text', rfl⟩ := hshort part' (List.mem_cons_of_mem _ hpart')
          refine ⟨by rw [List.length_cons]; omega, " " ++ text', ?_⟩
          rw [Utf8.octets_append]
          rfl
    · rw [List.mem_singleton.1 hline]
      exact ⟨Nat.zero_le _, "", rfl⟩
  · rw [summary_lines hvalue]
    exact unescape_escape _

/-- A title that tries to add a line. -/
private def injecting : MeetingView :=
  { id := "meeting-id", conversationId := "conversation-1", hostUserId := "user-1",
    schedule :=
      { title := "Planning, roadmap; next\r\nATTENDEE:evil", timezone := "America/New_York", localStart := 0,
        durationMinutes := 60, reminderMinutes := 10, recurrence := ⟨.none_, 1, 1⟩, hostPolicy := ⟨false, false⟩ },
    status := .cancelled, version := 3, canManage := true,
    occurrences := [⟨"occurrence-1", 1, 1805029200000000, 1805032800000000, .cancelled, none⟩] }

theorem render_lines_injecting :
    splitLines 13 10 (unfolded 13 10 32 (octets (render (fun _ => 0) injecting))) =
      (lines (fun _ => 0) injecting).map octets ++ [[]] ∧
    (lines (fun _ => 0) injecting).length = 17 ∧
    "SUMMARY:Planning\\, roadmap\\; next\\nATTENDEE:evil" ∈ lines (fun _ => 0) injecting ∧
    unescape "Planning\\, roadmap\\; next\\nATTENDEE:evil".toList = "Planning, roadmap; next\nATTENDEE:evil".toList := by
  obtain ⟨hlines, hlength, -, -, hsummary⟩ := render_lines (fun _ => 0) injecting (by decide)
  have hmem : "SUMMARY:" ++ "Planning\\, roadmap\\; next\\nATTENDEE:evil" ∈ lines (fun _ => 0) injecting := by
    decide
  exact ⟨hlines, hlength, hmem, (hsummary _ hmem).trans (by decide)⟩

end KComms.AudioCalls.MeetingCalendar
