import Mathlib.Algebra.Order.Group.Int
import KComms.Lib.FallibleLoop
import KComms.Lib.LatestWins
import Mathlib.Algebra.Ring.Nat

/-!
# A bounded map in which the latest revision wins

A map as in `LatestWins` whose entries record the position at which their key came in and the size of their value, with
the sum of the sizes.  A merge is accepted if the number of entries and the sum pass a test.  Positions and sizes follow
from the values (`Wf.ext`), so a map depends only on what was merged and not on how it was cut into merges
(`foldlM_merge`), and it is rebuilt from its values (`Wf.new`).
-/

namespace SizedMap

structure Entry (α : Type) where
  position : Nat
  value : α
  bytes : Nat
  deriving DecidableEq, Repr

end SizedMap

structure SizedMap (κ α : Type) where
  entries : OrderedMap κ (SizedMap.Entry α)
  total : Int

namespace SizedMap

open FallibleLoop (foldlM_cons_ok)

variable {κ α ε : Type} [DecidableEq κ]

def empty : SizedMap κ α := ⟨OrderedMap.empty, 0⟩

section Operations

variable (key : α → κ) (wins : α → α → Bool) (bytes : α → Nat)

def replace (m : SizedMap κ α) (position : Nat) (a : α) (oldBytes : Nat) : SizedMap κ α :=
  { entries := m.entries.set (key a) ⟨position, a, bytes a⟩, total := m.total - oldBytes + bytes a }

/-- Let a revision in. -/
def put (m : SizedMap κ α) (a : α) : SizedMap κ α :=
  match m.entries.get? (key a) with
  | some entry => if wins entry.value a then replace key bytes m entry.position a entry.bytes else m
  | none => replace key bytes m m.entries.size a 0

variable (accepts : Nat → Int → Bool) (refused : ε)

def merge (m : SizedMap κ α) (l : List α) : Except ε (SizedMap κ α) :=
  let merged := l.foldl (put key wins bytes) m
  if accepts merged.entries.size merged.total then .ok merged else .error refused

/-- The values in the order in which their keys came in. -/
def values (order : Enumeration κ (Entry α)) (m : SizedMap κ α) : List α :=
  (((order.enumerate m.entries.entries).map Prod.snd).insertionSort fun e e' => e.position ≤ e'.position).map Entry.value

/-- What the map shows. -/
def board (m : SizedMap κ α) : OrderedMap κ α := m.entries.map Entry.value

end Operations

section Lemmas

variable {key : α → κ} {wins : α → α → Bool} {bytes : α → Nat}

/-- Keys are those of the values, positions count the entries and the sizes add up. -/
structure Wf (key : α → κ) (bytes : α → Nat) (m : SizedMap κ α) : Prop where
  keyed : LatestWins.Keyed (fun e : Entry α => key e.value) m.entries
  positions : m.entries.values.map Entry.position = List.range m.entries.size
  bytes : ∀ e ∈ m.entries.values, e.bytes = bytes e.value
  total : m.total = ((m.entries.values.map Entry.bytes).sum : Nat)

omit [DecidableEq κ] in
theorem wf_empty : Wf key bytes empty := ⟨LatestWins.keyed_empty, rfl, (fun _ he => by cases he), rfl⟩

/-- Letting a revision in is what it is for the map of values. -/
theorem put_board (m : SizedMap κ α) (a : α) :
    (put key wins bytes m a).board = LatestWins.put key wins m.board a := by
  unfold put LatestWins.put board
  rw [OrderedMap.get?_map]
  cases h : m.entries.get? (key a) with
  | none => exact OrderedMap.map_set ..
  | some entry =>
    simp only [Option.map_some]
    split
    · exact OrderedMap.map_set ..
    · rfl

theorem foldl_put_board (l : List α) : ∀ m : SizedMap κ α,
    (l.foldl (put key wins bytes) m).board = LatestWins.merge key wins m.board l := by
  induction l with
  | nil => intro m; rfl
  | cons a l ih =>
    intro m
    rw [List.foldl_cons, ih, put_board]
    rfl

private theorem Wf.replaced {m : SizedMap κ α} (h : Wf key bytes m) {a : α} {entry : Entry α}
    (hget : m.entries.get? (key a) = some entry) : Wf key bytes (replace key bytes m entry.position a entry.bytes) := by
  obtain ⟨l, l', hl, hset⟩ := OrderedMap.values_set_of_get? hget
  have hset : (m.entries.set (key a) ⟨entry.position, a, bytes a⟩).values = l ++ ⟨entry.position, a, bytes a⟩ :: l' :=
    hset _
  have hsize := OrderedMap.size_set m.entries (key a) ⟨entry.position, a, bytes a⟩
  rw [if_pos (OrderedMap.mem_keys_iff.2 ⟨entry, hget⟩)] at hsize
  have hpositions := h.positions
  have hbytes := h.bytes
  have htotal := h.total
  rw [hl] at hpositions hbytes htotal
  refine ⟨h.keyed.set (⟨entry.position, a, bytes a⟩ : Entry α), ?_, ?_, ?_⟩ <;> simp only [replace]
  · rw [hset, hsize, ← hpositions]
    simp
  · intro e he
    rw [hset, List.mem_append, List.mem_cons] at he
    rcases he with he | rfl | he
    · exact hbytes e (by simp [he])
    · rfl
    · exact hbytes e (by simp [he])
  · rw [hset, htotal]
    simp only [List.map_append, List.map_cons, List.sum_append, List.sum_cons]
    omega

private theorem Wf.added {m : SizedMap κ α} (h : Wf key bytes m) {a : α} (hget : m.entries.get? (key a) = none) :
    Wf key bytes (replace key bytes m m.entries.size a 0) := by
  have hnew : key a ∉ m.entries.keys := OrderedMap.get?_eq_none.1 hget
  have hsize := OrderedMap.size_set m.entries (key a) ⟨m.entries.size, a, bytes a⟩
  rw [if_neg hnew] at hsize
  refine ⟨h.keyed.set (⟨m.entries.size, a, bytes a⟩ : Entry α), ?_, ?_, ?_⟩ <;> simp only [replace]
  · rw [OrderedMap.values_set_of_not_mem hnew, hsize, List.map_append, h.positions, List.range_succ]
    rfl
  · intro e he
    rw [OrderedMap.values_set_of_not_mem hnew, List.mem_append, List.mem_singleton] at he
    rcases he with he | rfl
    · exact h.bytes e he
    · rfl
  · rw [OrderedMap.values_set_of_not_mem hnew, h.total]
    simp

theorem Wf.put {m : SizedMap κ α} (h : Wf key bytes m) (a : α) : Wf key bytes (put key wins bytes m a) := by
  unfold SizedMap.put
  split
  · rename_i entry hget
    split
    · exact h.replaced hget
    · exact h
  · rename_i hget
    exact h.added hget

theorem Wf.foldl_put {l : List α} : ∀ {m : SizedMap κ α}, Wf key bytes m →
    Wf key bytes (l.foldl (SizedMap.put key wins bytes) m) := by
  induction l with
  | nil => intro m h; exact h
  | cons a l ih => intro m h; exact ih (h.put a)

omit [DecidableEq κ] in
theorem board_values (m : SizedMap κ α) : m.board.values = m.entries.values.map Entry.value := OrderedMap.values_map ..

omit [DecidableEq κ] in
theorem Wf.keyed_board {m : SizedMap κ α} (h : Wf key bytes m) : LatestWins.Keyed key m.board := by
  rintro ⟨k, a⟩ ha
  obtain ⟨e, he, heq⟩ := List.mem_map.1 ha
  obtain ⟨rfl, rfl⟩ := Prod.mk.inj heq
  exact h.keyed e he

omit [DecidableEq κ] in
/-- The entries have no choice. -/
theorem Wf.entries_values {m : SizedMap κ α} (h : Wf key bytes m) :
    m.entries.values = m.board.values.zipIdx.map fun p => ⟨p.2, p.1, bytes p.1⟩ := by
  rw [board_values]
  apply List.ext_getElem
  · simp
  intro i hi hi'
  have hposition : (m.entries.values[i]).position = i := by
    have hget := List.getElem_map Entry.position (l := m.entries.values) (i := i) (h := by simpa using hi)
    rw [← hget]
    simp [h.positions]
  have hbytes := h.bytes _ (List.getElem_mem hi)
  simp only [List.getElem_map, List.getElem_zipIdx, Nat.zero_add]
  generalize m.entries.values[i] = entry at hposition hbytes ⊢
  subst hposition
  rw [← hbytes]

/-- Positions and sizes follow from the values. -/
theorem Wf.ext {m m' : SizedMap κ α} (h : Wf key bytes m) (h' : Wf key bytes m') (hboard : m.board = m'.board) :
    m = m' := by
  have hvalues : m.entries.values = m'.entries.values := by rw [h.entries_values, h'.entries_values, hboard]
  have hentries : ∀ {s : SizedMap κ α}, Wf key bytes s →
      s.entries.entries = s.entries.values.map fun e => (key e.value, e) := by
    intro s hs
    unfold OrderedMap.values
    rw [List.map_map]
    conv_lhs => rw [← List.map_id s.entries.entries]
    apply List.map_congr_left
    intro e he
    exact Prod.ext (hs.keyed e he) rfl
  have htotal := h.total
  rw [hvalues, ← h'.total] at htotal
  have hmap : m.entries = m'.entries := OrderedMap.ext_entries (by rw [hentries h, hentries h', hvalues])
  cases m; cases m'
  simp only at hmap htotal
  rw [hmap, htotal]

omit [DecidableEq κ] in
theorem Wf.values {m : SizedMap κ α} (h : Wf key bytes m) (order : Enumeration κ (Entry α)) :
    values order m = m.board.values := by
  have hsorted : m.entries.values.Pairwise fun e e' => e.position < e'.position := by
    have hrange : (m.entries.values.map Entry.position).Pairwise (· < ·) := by
      rw [h.positions]
      exact List.pairwise_lt_range
    exact List.pairwise_map.1 hrange
  have hperm : (((order.enumerate m.entries.entries).map Prod.snd).insertionSort
      fun e e' => e.position ≤ e'.position).Perm m.entries.values :=
    (List.perm_insertionSort _ _).trans ((order.perm _).map _)
  have : Std.Total fun e e' : Entry α => e.position ≤ e'.position := ⟨fun e e' => le_total e.position e'.position⟩
  have : IsTrans (Entry α) fun e e' => e.position ≤ e'.position := ⟨fun _ _ _ => le_trans⟩
  have heq := hperm.eq_of_pairwise (fun e e' he he' hle hle' => ?_) (List.pairwise_insertionSort _ _)
    (hsorted.imp fun hlt => le_of_lt hlt)
  · unfold SizedMap.values
    rw [heq, board_values]
  · have hnodup : (m.entries.values.map Entry.position).Nodup := by
      rw [h.positions]
      exact List.nodup_range
    exact List.inj_on_of_nodup_map hnodup (hperm.mem_iff.1 he) he' (le_antisymm hle hle')

omit [DecidableEq κ] in
theorem entries_size (m : SizedMap κ α) : m.entries.size = m.board.values.length := by
  rw [board_values, List.length_map, OrderedMap.length_values]

omit [DecidableEq κ] in
theorem Wf.total_board {m : SizedMap κ α} (h : Wf key bytes m) : m.total = ((m.board.values.map bytes).sum : Nat) := by
  have hbytes : m.entries.values.map Entry.bytes = m.board.values.map bytes := by
    rw [board_values, List.map_map]
    exact List.map_congr_left h.bytes
  rw [h.total, hbytes]

/-! ### Merges -/

variable {accepts : Nat → Int → Bool} {refused : ε}

/-- What the test depends on. -/
def Fits (bytes : α → Nat) (accepts : Nat → Int → Bool) (l : List α) : Prop :=
  accepts l.length ((l.map bytes).sum : Nat) = true

/-- A merge is refused for its result alone. -/
theorem Wf.merge {m : SizedMap κ α} (h : Wf key bytes m) {l : List α} {merged : SizedMap κ α} :
    merge key wins bytes accepts refused m l = .ok merged ↔ Wf key bytes merged ∧
      merged.board = LatestWins.merge key wins m.board l ∧ Fits bytes accepts merged.board.values := by
  have hwf : Wf key bytes (l.foldl (SizedMap.put key wins bytes) m) := h.foldl_put
  unfold SizedMap.merge Fits
  dsimp only
  rw [entries_size, hwf.total_board]
  constructor
  · intro hmerge
    split at hmerge
    · rename_i haccepted
      obtain rfl := Except.ok.inj hmerge
      exact ⟨hwf, foldl_put_board l m, haccepted⟩
    · cases hmerge
  · rintro ⟨hmerged, hboard, haccepted⟩
    obtain rfl : merged = l.foldl (SizedMap.put key wins bytes) m :=
      hmerged.ext hwf (hboard.trans (foldl_put_board l m).symm)
    rw [if_pos haccepted]

/-- After accepted merges the map is what one merge of all revisions gives. -/
theorem foldlM_merge {calls : List (List α)} : ∀ {m m' : SizedMap κ α}, Wf key bytes m →
    calls.foldlM (merge key wins bytes accepts refused) m = .ok m' →
    Wf key bytes m' ∧ m'.board = LatestWins.merge key wins m.board calls.flatten ∧
      (Fits bytes accepts m.board.values → Fits bytes accepts m'.board.values) := by
  induction calls with
  | nil =>
    intro m m' h hcalls
    obtain rfl := Except.ok.inj hcalls
    exact ⟨h, rfl, id⟩
  | cons l calls ih =>
    intro m m' h hcalls
    obtain ⟨next, hnext, hcalls⟩ := foldlM_cons_ok.1 hcalls
    obtain ⟨hwf, hboard, hfits⟩ := h.merge.1 hnext
    obtain ⟨hwf', hboard', hfits'⟩ := ih hwf hcalls
    refine ⟨hwf', ?_, fun _ => hfits' hfits⟩
    rw [hboard', hboard, List.flatten_cons, LatestWins.merge_append]

/-- A map is rebuilt from its values, one at a time. -/
theorem Wf.new {m : SizedMap κ α} (h : Wf key bytes m)
    (hmono : ∀ l l' : List α, Fits bytes accepts (l ++ l') → Fits bytes accepts l)
    (hfits : Fits bytes accepts m.board.values) :
    (m.board.values.map fun a => [a]).foldlM (SizedMap.merge key wins bytes accepts refused) empty = .ok m := by
  have hrun : ∀ (l : List α) (s : SizedMap κ α), Wf key bytes s →
      (∀ l₁ l₂, l = l₁ ++ l₂ → Fits bytes accepts (LatestWins.merge key wins s.board l₁).values) →
      ∃ s', (l.map fun a => [a]).foldlM (SizedMap.merge key wins bytes accepts refused) s = .ok s' := by
    intro l
    induction l with
    | nil => intro s _ _; exact ⟨s, rfl⟩
    | cons a l ih =>
      intro s hs hstart
      have hput : (SizedMap.put key wins bytes s a).board = LatestWins.merge key wins s.board [a] := put_board s a
      have hmid : SizedMap.merge key wins bytes accepts refused s [a] = .ok (SizedMap.put key wins bytes s a) :=
        hs.merge.2 ⟨hs.put a, hput, hput ▸ hstart [a] l rfl⟩
      obtain ⟨s', hs'⟩ := ih _ (hs.put a) fun l₁ l₂ hl => by
        have hstep := hstart (a :: l₁) l₂ (by rw [hl]; rfl)
        rw [LatestWins.merge_cons] at hstep
        rw [put_board]
        exact hstep
      exact ⟨s', foldlM_cons_ok.2 ⟨_, hmid, hs'⟩⟩
  have hempty : (empty : SizedMap κ α).board = OrderedMap.empty := rfl
  obtain ⟨s', hs'⟩ := hrun m.board.values empty wf_empty fun l₁ l₂ hl => by
    have hnodup : ((l₁ ++ l₂).map key).Nodup := by
      rw [← hl, h.keyed_board.map_key]
      exact m.board.keys_nodup
    rw [hl] at hfits
    rw [List.map_append, List.nodup_append] at hnodup
    rw [hempty, LatestWins.values_merge_of_new hnodup.1]
    exact hmono l₁ l₂ hfits
  obtain ⟨hwf, hboard, -⟩ := foldlM_merge wf_empty hs'
  have hflat : (m.board.values.map fun a => [a]).flatten = m.board.values := by
    induction m.board.values with
    | nil => rfl
    | cons a l ih => rw [List.map_cons, List.flatten_cons, ih]; rfl
  rw [hflat, hempty, LatestWins.merge_values h.keyed_board] at hboard
  rw [hwf.ext h hboard] at hs'
  exact hs'

end Lemmas

end SizedMap
