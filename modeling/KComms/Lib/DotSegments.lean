import Mathlib.Data.List.Basic

/-!
# Dot segments of a path

`removeDotSegments` works as in RFC 3986, section 5.2.4: an input buffer is moved to an output buffer, one complete
segment at a time.  An absolute path stays as it is if and only if it has no dot segment
(`removeDotSegments_absolutePath`).
-/

namespace DotSegments

/-- The output buffer without its last segment and the `/` before it. -/
def removeLast (output : List Char) : List Char := (output.reverse.dropWhile fun c => c ≠ '/').tail.reverse

def firstSegment (input : List Char) : List Char := input.takeWhile fun c => c ≠ '/'

def afterSegment (input : List Char) : List Char := input.dropWhile fun c => c ≠ '/'

def IsDot (segment : List Char) : Prop := segment = ['.'] ∨ segment = ['.', '.']

instance : DecidablePred IsDot := fun segment => inferInstanceAs (Decidable (segment = ['.'] ∨ segment = ['.', '.']))

/-- One step: the input buffer and the output buffer after it, if there was input. -/
def dotStep (output : List Char) : List Char → Option (List Char × List Char)
  | [] => none
  | c :: rest =>
    if c = '/' then
      if firstSegment rest = ['.'] then some ('/' :: (afterSegment rest).tail, output)
      else if firstSegment rest = ['.', '.'] then some ('/' :: (afterSegment rest).tail, removeLast output)
      else some (afterSegment rest, output ++ '/' :: firstSegment rest)
    else
      if IsDot (firstSegment (c :: rest)) then some ((afterSegment (c :: rest)).tail, output)
      else some (afterSegment (c :: rest), output ++ firstSegment (c :: rest))

private theorem length_segment (input : List Char) :
    (firstSegment input).length + (afterSegment input).length = input.length := by
  rw [← List.length_append, firstSegment, afterSegment, List.takeWhile_append_dropWhile]

private theorem length_firstSegment_pos {c : Char} (hc : c ≠ '/') (rest : List Char) :
    1 ≤ (firstSegment (c :: rest)).length := by
  rw [firstSegment, List.takeWhile_cons_of_pos (by simpa using hc), List.length_cons]
  omega

private theorem length_removeLast (output : List Char) : (removeLast output).length ≤ output.length := by
  have hdrop := (List.dropWhile_sublist (fun c => c ≠ '/') (l := output.reverse)).length_le
  rw [List.length_reverse] at hdrop
  rw [removeLast, List.length_reverse, List.length_tail]
  omega

/-- What a step does to the lengths: input is used, and a dot segment is lost. -/
private theorem dotStep_length {input output input' output' : List Char}
    (h : dotStep output input = some (input', output')) :
    input'.length < input.length ∧ input'.length + output'.length ≤ input.length + output.length := by
  cases input with
  | nil => cases h
  | cons c rest =>
    have hlength := length_segment rest
    rw [dotStep] at h
    by_cases hc : c = '/'
    · rw [if_pos hc] at h
      split at h
      · rename_i hdot
        cases h
        rw [hdot, List.length_singleton] at hlength
        simp only [List.length_cons, List.length_tail]
        omega
      · split at h
        · rename_i hdots
          have hlast := length_removeLast output
          cases h
          rw [hdots] at hlength
          simp only [List.length_cons, List.length_tail, List.length_nil] at hlength ⊢
          omega
        · cases h
          simp only [List.length_append, List.length_cons]
          omega
    · rw [if_neg hc] at h
      have hpos := length_firstSegment_pos hc rest
      have hall := length_segment (c :: rest)
      split at h
      · cases h
        rw [List.length_tail]
        omega
      · cases h
        rw [List.length_append]
        omega

def removeFrom (input output : List Char) : List Char :=
  match h : dotStep output input with
  | none => output
  | some (input', output') => removeFrom input' output'
termination_by input.length
decreasing_by exact (dotStep_length h).1

def removeDotSegments (path : List Char) : List Char := removeFrom path []

theorem removeFrom_nil (output : List Char) : removeFrom [] output = output := by
  rw [removeFrom]
  rfl

theorem removeFrom_step {input output input' output' : List Char} (h : dotStep output input = some (input', output')) :
    removeFrom input output = removeFrom input' output' := by
  rw [removeFrom]
  split
  · rename_i hnone
    rw [hnone] at h
    cases h
  · rename_i hsome
    rw [hsome] at h
    cases h
    rfl

private theorem length_removeFrom (n : Nat) : ∀ {input : List Char} (output : List Char), input.length ≤ n →
    (removeFrom input output).length ≤ input.length + output.length := by
  induction n with
  | zero =>
    intro input output hn
    rw [List.length_eq_zero_iff.1 (Nat.le_zero.1 hn), removeFrom_nil]
    omega
  | succ n ih =>
    intro input output hn
    cases hstep : dotStep output input with
    | none =>
      cases input with
      | nil =>
        rw [removeFrom_nil]
        omega
      | cons c rest =>
        rw [dotStep] at hstep
        split at hstep
        · split at hstep
          · cases hstep
          · split at hstep <;> cases hstep
        · split at hstep <;> cases hstep
    | some buffers =>
      obtain ⟨hinput, htotal⟩ := dotStep_length hstep
      have hrest := ih buffers.2 (by omega : buffers.1.length ≤ n)
      rw [removeFrom_step hstep]
      omega

/-! ### Absolute paths -/

def absolutePath (segments : List (List Char)) : List Char := segments.flatMap fun segment => '/' :: segment

section Absolute

variable {segment : List Char} (hsegment : ∀ c ∈ segment, c ≠ '/') (segments : List (List Char))

include hsegment

private theorem firstSegment_append : firstSegment (segment ++ absolutePath segments) = segment := by
  unfold firstSegment
  rw [List.takeWhile_append_of_pos (by simpa using hsegment)]
  cases segments with
  | nil => simp [absolutePath]
  | cons s segments => simp [absolutePath]

private theorem afterSegment_append : afterSegment (segment ++ absolutePath segments) = absolutePath segments := by
  unfold afterSegment
  rw [List.dropWhile_append_of_pos (by simpa using hsegment)]
  cases segments with
  | nil => simp [absolutePath]
  | cons s segments => simp [absolutePath]

private theorem dotStep_keep (hdot : ¬ IsDot segment) (output : List Char) :
    dotStep output (absolutePath (segment :: segments)) =
      some (absolutePath segments, output ++ '/' :: segment) := by
  have hpath : absolutePath (segment :: segments) = '/' :: (segment ++ absolutePath segments) := rfl
  rw [hpath, dotStep, if_pos rfl, firstSegment_append hsegment, afterSegment_append hsegment,
    if_neg fun h => hdot (.inl h), if_neg fun h => hdot (.inr h)]

/-- A dot segment makes the buffers shorter. -/
private theorem dotStep_drop (hdot : IsDot segment) (output : List Char) : ∃ input' output',
    dotStep output (absolutePath (segment :: segments)) = some (input', output') ∧
      input'.length + output'.length < (absolutePath (segment :: segments)).length + output.length := by
  have hpath : absolutePath (segment :: segments) = '/' :: (segment ++ absolutePath segments) := rfl
  have hlast := length_removeLast output
  rw [hpath, dotStep, if_pos rfl, firstSegment_append hsegment, afterSegment_append hsegment]
  rcases hdot with rfl | rfl
  · refine ⟨_, _, if_pos rfl, ?_⟩
    simp only [List.length_cons, List.length_append, List.length_nil, List.length_tail]
    omega
  · refine ⟨_, _, by rw [if_neg (by decide), if_pos rfl], ?_⟩
    simp only [List.length_cons, List.length_append, List.length_nil, List.length_tail]
    omega

end Absolute

private theorem removeFrom_absolutePath {segments : List (List Char)} (h : ∀ s ∈ segments, ∀ c ∈ s, c ≠ '/')
    (output : List Char) :
    removeFrom (absolutePath segments) output = output ++ absolutePath segments ↔ ∀ s ∈ segments, ¬ IsDot s := by
  induction segments generalizing output with
  | nil => simp [absolutePath, removeFrom_nil]
  | cons segment segments ih =>
    obtain ⟨hsegment, hrest⟩ := List.forall_mem_cons.1 h
    rw [List.forall_mem_cons]
    by_cases hdot : IsDot segment
    · refine iff_of_false (fun heq => ?_) fun hall => hall.1 hdot
      obtain ⟨input', output', hstep, hshort⟩ := dotStep_drop hsegment segments hdot output
      have hlength := length_removeFrom _ output' (Nat.le_refl input'.length)
      rw [removeFrom_step hstep] at heq
      rw [heq, List.length_append] at hlength
      omega
    · rw [removeFrom_step (dotStep_keep hsegment segments hdot output)]
      have hpath : output ++ absolutePath (segment :: segments) =
          (output ++ '/' :: segment) ++ absolutePath segments := by
        rw [List.append_assoc]
        rfl
      rw [hpath, ih hrest]
      exact ⟨fun hall => ⟨hdot, hall⟩, fun hall => hall.2⟩

/-- A path stays as it is if and only if none of its segments is a dot segment. -/
theorem removeDotSegments_absolutePath {segments : List (List Char)} (h : ∀ s ∈ segments, ∀ c ∈ s, c ≠ '/') :
    removeDotSegments (absolutePath segments) = absolutePath segments ↔ ∀ s ∈ segments, ¬ IsDot s :=
  removeFrom_absolutePath h []

example : removeDotSegments "/a/b/c/./../../g".toList = "/a/g".toList := by
  simp [removeDotSegments, removeFrom, dotStep, firstSegment, afterSegment, removeLast]

end DotSegments
