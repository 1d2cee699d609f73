import Mathlib.Data.List.Basic

/-!
# Folded content lines

A text of lines, each closed by `cr lf`.  A long line is folded: `cr lf sp` stands between its parts.  Unfolding removes
every `cr lf sp`.  If neither `cr` nor `lf` occurs in a part and no line starts with `sp`, the lines come back
(`splitLines_unfold`), and the physical lines are the parts (`splitLines_text`).
-/

namespace ContentLines

variable {α : Type} [DecidableEq α] (cr lf sp : α)

/-- The pieces between the occurrences of `cr lf`. -/
def splitLines : List α → List (List α)
  | [] => [[]]
  | [a] => [[a]]
  | a :: b :: rest =>
    if a = cr ∧ b = lf then [] :: splitLines rest
    else
      match splitLines (b :: rest) with
      | [] => [[a]]
      | line :: lines => (a :: line) :: lines

/-- The text without the occurrences of `cr lf sp`. -/
def unfolded : List α → List α
  | a :: b :: c :: rest =>
    if a = cr ∧ b = lf ∧ c = sp then unfolded rest else a :: unfolded (b :: c :: rest)
  | rest => rest

/-- A folded line. -/
def folded (parts : List (List α)) : List α := [cr, lf, sp].intercalate parts

/-- The text of some folded lines. -/
def text (lines : List (List (List α))) : List α := lines.flatMap fun parts => folded cr lf sp parts ++ [cr, lf]

/-- The physical lines of a folded line. -/
def physical : List (List α) → List (List α)
  | [] => []
  | part :: parts => part :: parts.map (sp :: ·)

/-- The parts of a folded line: without line breaks, and the first one starts with something else than `sp`. -/
structure Parts (parts : List (List α)) : Prop where
  plain : ∀ part ∈ parts, ∀ a ∈ part, a ≠ cr ∧ a ≠ lf
  start : ∃ a part rest, parts = (a :: part) :: rest ∧ a ≠ sp

variable {cr lf sp} {lines : List (List (List α))}

omit [DecidableEq α] in
theorem folded_cons (part part' : List α) (parts : List (List α)) :
    folded cr lf sp (part :: part' :: parts) = part ++ cr :: lf :: sp :: folded cr lf sp (part' :: parts) := by
  simp [folded, List.intercalate]

omit [DecidableEq α] in
@[simp] theorem folded_singleton (part : List α) : folded cr lf sp [part] = part := by simp [folded, List.intercalate]

/-! ### Splitting -/

theorem splitLines_line {line : List α} (h : ∀ a ∈ line, a ≠ cr ∧ a ≠ lf) (rest : List α) :
    splitLines cr lf (line ++ cr :: lf :: rest) = line :: splitLines cr lf rest := by
  induction line with
  | nil => rw [List.nil_append, splitLines, if_pos ⟨rfl, rfl⟩]
  | cons a line ih =>
    have ha := (h a List.mem_cons_self).1
    have hrest := ih fun b hb => h b (List.mem_cons_of_mem _ hb)
    cases line with
    | nil =>
      rw [List.nil_append] at hrest
      rw [List.singleton_append, splitLines, if_neg (fun hand => ha hand.1), hrest]
    | cons b line =>
      rw [List.cons_append] at hrest
      rw [List.cons_append, List.cons_append, splitLines, if_neg (fun hand => ha hand.1), hrest]

theorem splitLines_flatMap {lines : List (List α)} (h : ∀ line ∈ lines, ∀ a ∈ line, a ≠ cr ∧ a ≠ lf) :
    splitLines cr lf (lines.flatMap fun line => line ++ [cr, lf]) = lines ++ [[]] := by
  induction lines with
  | nil => rfl
  | cons line lines ih =>
    rw [List.flatMap_cons, List.append_assoc, List.cons_append, List.singleton_append,
      splitLines_line (h line List.mem_cons_self), ih fun line' h' => h line' (List.mem_cons_of_mem _ h'),
      List.cons_append]

theorem splitLines_folded {parts : List (List α)} (hplain : ∀ part ∈ parts, ∀ a ∈ part, a ≠ cr ∧ a ≠ lf)
    (hsp : sp ≠ cr ∧ sp ≠ lf) (hne : parts ≠ []) (rest : List α) :
    splitLines cr lf (folded cr lf sp parts ++ cr :: lf :: rest) = physical sp parts ++ splitLines cr lf rest := by
  -- a part behind the first one is a physical line with `sp` before it
  have htail : ∀ (parts : List (List α)) (lead : List α), (∀ a ∈ lead, a ≠ cr ∧ a ≠ lf) →
      (∀ part ∈ parts, ∀ a ∈ part, a ≠ cr ∧ a ≠ lf) → ∀ part, (∀ a ∈ part, a ≠ cr ∧ a ≠ lf) →
      splitLines cr lf (lead ++ folded cr lf sp (part :: parts) ++ cr :: lf :: rest) =
        (lead ++ part) :: (parts.map (sp :: ·) ++ splitLines cr lf rest) := by
    intro parts
    induction parts with
    | nil =>
      intro lead hlead _ part hpart
      rw [folded_singleton, splitLines_line fun a ha => (List.mem_append.1 ha).elim (hlead a) (hpart a)]
      rfl
    | cons next parts ih =>
      intro lead hlead hparts part hpart
      have hnext := ih [sp] (fun a ha => by rw [List.mem_singleton.1 ha]; exact hsp)
        (fun p hp => hparts p (List.mem_cons_of_mem _ hp)) next (hparts next List.mem_cons_self)
      have hshape : lead ++ folded cr lf sp (part :: next :: parts) ++ cr :: lf :: rest =
          (lead ++ part) ++ cr :: lf :: ([sp] ++ folded cr lf sp (next :: parts) ++ cr :: lf :: rest) := by
        rw [folded_cons]
        simp
      rw [hshape, splitLines_line (fun a ha => (List.mem_append.1 ha).elim (hlead a) (hpart a)), hnext]
      rfl
  cases parts with
  | nil => exact absurd rfl hne
  | cons part parts =>
    have hall := htail parts [] (fun a ha => by cases ha) (fun p hp => hplain p (List.mem_cons_of_mem _ hp)) part
      (hplain part List.mem_cons_self)
    rwa [List.nil_append, List.nil_append] at hall

/-- The physical lines. -/
theorem splitLines_text (h : ∀ parts ∈ lines, Parts cr lf sp parts)
    (hsp : sp ≠ cr ∧ sp ≠ lf) : splitLines cr lf (text cr lf sp lines) = lines.flatMap (physical sp) ++ [[]] := by
  induction lines with
  | nil => rfl
  | cons parts lines ih =>
    obtain ⟨hplain, a, part, rest, hparts, -⟩ := h parts List.mem_cons_self
    have hrest := ih fun parts' h' => h parts' (List.mem_cons_of_mem _ h')
    unfold text at hrest ⊢
    rw [List.flatMap_cons, List.append_assoc, List.cons_append, List.singleton_append,
      splitLines_folded hplain hsp (by rw [hparts]; simp), hrest, List.flatMap_cons, List.append_assoc]

/-! ### Unfolding -/

theorem unfold_cons {a : α} (ha : a ≠ cr) (rest : List α) :
    unfolded cr lf sp (a :: rest) = a :: unfolded cr lf sp rest := by
  match rest with
  | [] => rfl
  | [b] => rfl
  | b :: c :: rest => rw [unfolded, if_neg fun hand => ha hand.1]

theorem unfold_append {line : List α} (h : ∀ a ∈ line, a ≠ cr ∧ a ≠ lf) (rest : List α) :
    unfolded cr lf sp (line ++ rest) = line ++ unfolded cr lf sp rest := by
  induction line with
  | nil => rfl
  | cons a line ih =>
    rw [List.cons_append, unfold_cons (h a List.mem_cons_self).1, ih fun b hb => h b (List.mem_cons_of_mem _ hb)]
    rfl

theorem unfold_break (rest : List α) :
    unfolded cr lf sp (cr :: lf :: sp :: rest) = unfolded cr lf sp rest := by
  rw [unfolded, if_pos ⟨rfl, rfl, rfl⟩]

/-- A line break that no `sp` follows stays. -/
theorem unfold_newline (hcr : lf ≠ cr) {rest : List α} (h : rest.head? ≠ some sp) :
    unfolded cr lf sp (cr :: lf :: rest) = cr :: lf :: unfolded cr lf sp rest := by
  cases rest with
  | nil => rfl
  | cons c rest =>
    have hc : c ≠ sp := fun heq => h (by rw [heq]; rfl)
    rw [unfolded, if_neg fun hand => hc hand.2.2, unfold_cons hcr]

theorem unfold_folded (parts : List (List α)) (h : ∀ part ∈ parts, ∀ a ∈ part, a ≠ cr ∧ a ≠ lf) (rest : List α) :
    unfolded cr lf sp (folded cr lf sp parts ++ rest) =
      parts.flatten ++ unfolded cr lf sp rest := by
  induction parts with
  | nil => rfl
  | cons part parts ih =>
    have hpart := h part List.mem_cons_self
    cases parts with
    | nil =>
      rw [folded_singleton, unfold_append hpart]
      simp
    | cons next parts =>
      rw [folded_cons, List.append_assoc, List.cons_append, List.cons_append, List.cons_append, unfold_append hpart,
        unfold_break, ih fun p hp => h p (List.mem_cons_of_mem _ hp)]
      simp

omit [DecidableEq α] in
theorem head?_text (h : ∀ parts ∈ lines, Parts cr lf sp parts) :
    (text cr lf sp lines).head? ≠ some sp := by
  cases lines with
  | nil => simp [text]
  | cons parts lines =>
    obtain ⟨-, a, part, rest, rfl, ha⟩ := h parts List.mem_cons_self
    have hhead : (folded cr lf sp ((a :: part) :: rest)).head? = some a := by
      cases rest with
      | nil => rw [folded_singleton]; rfl
      | cons next rest => rw [folded_cons]; rfl
    unfold text
    rw [List.flatMap_cons, List.append_assoc, List.head?_append, hhead]
    exact fun heq => ha (Option.some.inj heq)

/-- Unfolded, the text has the lines again. -/
theorem unfold_text (h : ∀ parts ∈ lines, Parts cr lf sp parts) (hcr : lf ≠ cr) :
    unfolded cr lf sp (text cr lf sp lines) = lines.flatMap fun parts => parts.flatten ++ [cr, lf] := by
  induction lines with
  | nil => rfl
  | cons parts lines ih =>
    have hlines : ∀ parts' ∈ lines, Parts cr lf sp parts' := fun parts' h' => h parts' (List.mem_cons_of_mem _ h')
    have hrest := ih hlines
    have hhead := head?_text hlines
    unfold text at hrest hhead ⊢
    rw [List.flatMap_cons, List.append_assoc, unfold_folded parts (h parts List.mem_cons_self).plain, List.cons_append,
      List.singleton_append, unfold_newline hcr hhead, hrest, List.flatMap_cons, List.append_assoc]
    rfl

theorem splitLines_unfold (h : ∀ parts ∈ lines, Parts cr lf sp parts) (hcr : lf ≠ cr) :
    splitLines cr lf (unfolded cr lf sp (text cr lf sp lines)) = lines.map List.flatten ++ [[]] := by
  have hflat : (lines.flatMap fun parts => parts.flatten ++ [cr, lf]) =
      (lines.map List.flatten).flatMap fun line => line ++ [cr, lf] := by
    rw [List.flatMap_map]
  rw [unfold_text h hcr, hflat]
  refine splitLines_flatMap fun line hline a ha => ?_
  obtain ⟨parts, hparts, rfl⟩ := List.mem_map.1 hline
  obtain ⟨part, hpart, ha⟩ := List.mem_flatten.1 ha
  exact (h parts hparts).plain part hpart a ha

end ContentLines
