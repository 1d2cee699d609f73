import KComms.Lib.ForestWalk

/-!
# A chain of new nodes in a walk

A chain is hung below a node of a forest, or next to the roots, and stands there before its siblings.  In the walk the
chain follows its anchor immediately, and nothing else moves (`walk_insertAfter`).
-/

namespace ForestWalk

variable {α ι : Type} {name : α → ι} {parent : α → Option ι}

/-- Each node of the list has the one before it as its parent; the first one has the anchor. -/
def Linked (name : α → ι) (parent : α → Option ι) : Option ι → List α → Prop
  | _, [] => True
  | anchor, c :: chain => parent c = anchor ∧ Linked name parent (some (name c)) chain

/-- Each node of the list has the one after it as its only child; the last one has none. -/
def Follows (name : α → ι) (children : Option ι → List α) : List α → Prop
  | [] => True
  | c :: chain => children (some (name c)) = chain.head?.toList ∧ Follows name children chain

variable {out : List α} {n : Nat} {P : α → Bool}

theorem walk_follows {children : Option ι → List α} {chain rest tail : List α} (hchain : Follows name children chain)
    (h : walk name children n rest = some tail) :
    walk name children (n + chain.length) (chain.head?.toList ++ rest) = some (chain ++ tail) := by
  induction chain with
  | nil => simpa using h
  | cons c chain ih =>
    have hwalk := ih hchain.2
    rw [List.head?_cons, Option.toList_some, List.singleton_append, List.length_cons, ← Nat.add_assoc, walk,
      hchain.1, hwalk]
    rfl

variable [DecidableEq ι]

/-- The chain directly behind its anchor. -/
def insertAfter (name : α → ι) (anchor : Option ι) (chain out : List α) : List α :=
  (if anchor = none then chain else []) ++ out.flatMap fun a => if anchor = some (name a) then a :: chain else [a]

/-- Without the chain nothing has moved. -/
theorem filter_insertAfter {anchor : Option ι} {chain : List α} (hchain : ∀ a ∈ chain, P a = false) :
    (insertAfter name anchor chain out).filter P = out.filter P := by
  have hgone : chain.filter P = [] := List.filter_eq_nil_iff.2 fun a ha => by simp [hchain a ha]
  have hrest : (out.flatMap fun a => if anchor = some (name a) then a :: chain else [a]).filter P = out.filter P := by
    induction out with
    | nil => rfl
    | cons a out ih =>
      rw [List.flatMap_cons, List.filter_append, ih]
      split
      · rw [List.filter_cons, List.filter_cons, hgone]
        split <;> rfl
      · rw [List.filter_cons, List.filter_cons]
        split <;> rfl
  unfold insertAfter
  rw [List.filter_append, hrest]
  split
  · rw [hgone, List.nil_append]
  · rfl

theorem insertAfter_none (chain out : List α) : insertAfter name none chain out = chain ++ out := by
  unfold insertAfter
  simp

private theorem flatMap_other {anchor : Option ι} {chain : List α} (h : ∀ b ∈ out, anchor ≠ some (name b)) :
    (out.flatMap fun b => if anchor = some (name b) then b :: chain else [b]) = out := by
  induction out with
  | nil => rfl
  | cons b out ih =>
    rw [List.flatMap_cons, if_neg (h b List.mem_cons_self), ih fun c hc => h c (List.mem_cons_of_mem _ hc)]
    rfl

/-- The part of the list before the anchor stays as it is. -/
theorem insertAfter_append {q : ι} {before chain after : List α} (h : ∀ b ∈ before, name b ≠ q) :
    insertAfter name (some q) chain (before ++ after) = before ++ insertAfter name (some q) chain after := by
  unfold insertAfter
  rw [if_neg (by simp), List.nil_append, List.nil_append, List.flatMap_append,
    flatMap_other fun b hb heq => h b hb (Option.some.inj heq).symm]

theorem insertAfter_cons {a : α} {chain after : List α} (h : ∀ b ∈ after, name b ≠ name a) :
    insertAfter name (some (name a)) chain (a :: after) = a :: (chain ++ after) := by
  unfold insertAfter
  rw [if_neg (by simp), List.nil_append, List.flatMap_cons, if_pos rfl,
    flatMap_other fun b hb heq => h b hb (Option.some.inj heq).symm]
  rfl

/-- The chain stands at the very beginning, or right behind the node that it hangs below. -/
theorem insertAfter_split {anchor : Option ι} {chain : List α} (hnd : (out.map name).Nodup)
    (hanchor : ∀ q, anchor = some q → q ∈ out.map name) :
    ∃ before after, out = before ++ after ∧ insertAfter name anchor chain out = before ++ chain ++ after ∧
      before.getLast?.map name = anchor := by
  cases anchor with
  | none => exact ⟨[], out, rfl, insertAfter_none _ _, rfl⟩
  | some q =>
    obtain ⟨a, ha, rfl⟩ := List.mem_map.1 (hanchor q rfl)
    obtain ⟨before, after, rfl⟩ := List.append_of_mem ha
    rw [List.map_append, List.map_cons, List.nodup_append, List.nodup_cons] at hnd
    obtain ⟨-, ⟨hafter, -⟩, hbefore⟩ := hnd
    refine ⟨before ++ [a], after, by simp, ?_, by simp⟩
    rw [insertAfter_append fun b hb => hbefore _ (List.mem_map_of_mem hb) _ List.mem_cons_self,
      insertAfter_cons fun b hb hba => hafter (List.mem_map.2 ⟨b, hb, hba⟩)]
    simp

section Insert

variable {l chain : List α} {anchor : Option ι}

/-- The new nodes, and the forest they come to. -/
structure Fresh (name : α → ι) (parent : α → Option ι) (l : List α) (anchor : Option ι) (chain : List α) : Prop where
  linked : Linked name parent anchor chain
  nodup : (anchor :: chain.map fun c => some (name c)).Nodup
  unused : ∀ a ∈ l, ∀ c ∈ chain, name a ≠ name c ∧ parent a ≠ some (name c)

private theorem filter_linked (hlinked : Linked name parent anchor chain)
    (hnd : (anchor :: chain.map fun c => some (name c)).Nodup) :
    (chain.filter fun c => parent c = anchor) = chain.head?.toList ∧
      ∀ p, p ≠ anchor → (∀ c ∈ chain, p ≠ some (name c)) → (chain.filter fun c => parent c = p) = [] := by
  induction chain generalizing anchor with
  | nil => exact ⟨rfl, fun _ _ _ => rfl⟩
  | cons c chain ih =>
    obtain ⟨hc, hlinked⟩ := hlinked
    rw [List.map_cons, List.nodup_cons, List.mem_cons, not_or] at hnd
    obtain ⟨-, hrest⟩ := ih hlinked hnd.2
    constructor
    · have hnone := hrest anchor hnd.1.1 fun d hd heq => hnd.1.2 (heq ▸ List.mem_map_of_mem hd)
      rw [List.filter_cons_of_pos (by simpa using hc), hnone]
      rfl
    · intro p hp hnames
      have hne : ¬ parent c = p := fun h => hp (h.symm.trans hc)
      rw [List.filter_cons_of_neg (by simpa using hne)]
      exact hrest p (hnames c List.mem_cons_self) fun d hd => hnames d (List.mem_cons_of_mem _ hd)

variable {r : α → α → Prop} [DecidableRel r]

private theorem insertionSort_concat {l : List α} {c : α} (h : ∀ a ∈ l, ¬ r a c) :
    (l ++ [c]).insertionSort r = c :: l.insertionSort r := by
  induction l with
  | nil => rfl
  | cons a l ih =>
    have ha := h a List.mem_cons_self
    rw [List.cons_append, List.insertionSort_cons, ih fun b hb => h b (List.mem_cons_of_mem _ hb),
      List.orderedInsert_cons, if_neg ha, List.insertionSort_cons]

/-- The first node of the chain is the first child of the anchor. -/
theorem children_anchor (hfresh : Fresh name parent l anchor chain)
    (hfirst : ∀ a ∈ l, parent a = anchor → ∀ c ∈ chain.head?, ¬ r a c) :
    children parent r (l ++ chain) anchor = chain.head?.toList ++ children parent r l anchor := by
  unfold children
  rw [List.filter_append, (filter_linked hfresh.linked hfresh.nodup).1]
  cases chain with
  | nil => simp
  | cons c chain =>
    rw [List.head?_cons, Option.toList_some, List.singleton_append]
    refine insertionSort_concat fun a ha => ?_
    obtain ⟨ha, hparent⟩ := List.mem_filter.1 ha
    exact hfirst a ha (of_decide_eq_true hparent) c rfl

/-- The nodes away from the chain keep their children. -/
theorem children_other (hfresh : Fresh name parent l anchor chain) {p : Option ι} (hp : p ≠ anchor)
    (hnames : ∀ c ∈ chain, p ≠ some (name c)) :
    children parent r (l ++ chain) p = children parent r l p := by
  unfold children
  rw [List.filter_append, (filter_linked hfresh.linked hfresh.nodup).2 p hp hnames, List.append_nil]

private theorem follows_of_filter {all : List α} (hlinked : Linked name parent anchor chain)
    (hnd : (anchor :: chain.map fun c => some (name c)).Nodup)
    (hall : ∀ p, p ≠ anchor → (∃ c ∈ chain, p = some (name c)) →
      (all.filter fun c => parent c = p) = chain.filter fun c => parent c = p) :
    Follows name (children parent r all) chain := by
  induction chain generalizing anchor with
  | nil => trivial
  | cons c chain ih =>
    obtain ⟨hc, hlinked⟩ := hlinked
    rw [List.map_cons, List.nodup_cons, List.mem_cons, not_or] at hnd
    have hnext := (filter_linked hlinked hnd.2).1
    have hskip : ∀ p, p ≠ anchor →
        ((c :: chain).filter fun d => parent d = p) = chain.filter fun d => parent d = p := by
      intro p hp
      exact List.filter_cons_of_neg (by simpa using fun h => hp (h.symm.trans hc))
    constructor
    · have hne : some (name c) ≠ anchor := fun h => hnd.1.1 h.symm
      unfold children
      rw [hall _ hne ⟨c, List.mem_cons_self, rfl⟩, hskip _ hne, hnext]
      cases chain <;> rfl
    · refine ih hlinked hnd.2 fun p hp ⟨d, hd, hpd⟩ => ?_
      have hpa : p ≠ anchor := by
        rintro rfl
        exact hnd.1.2 (hpd ▸ List.mem_map_of_mem hd)
      rw [hall p hpa ⟨d, List.mem_cons_of_mem _ hd, hpd⟩, hskip p hpa]

theorem follows_chain (hfresh : Fresh name parent l anchor chain) :
    Follows name (children parent r (l ++ chain)) chain := by
  refine follows_of_filter hfresh.linked hfresh.nodup fun p _ ⟨c, hc, hp⟩ => ?_
  have hold : (l.filter fun a => parent a = p) = [] := by
    refine List.filter_eq_nil_iff.2 fun a ha hparent => ?_
    exact (hfresh.unused a ha c hc).2 ((of_decide_eq_true hparent).trans hp)
  rw [List.filter_append, hold, List.nil_append]

/-- The walk with the chain is the walk without it, with the chain behind its anchor. -/
theorem walk_insertAfter (hfresh : Fresh name parent l anchor chain)
    (hfirst : ∀ a ∈ l, parent a = anchor → ∀ c ∈ chain.head?, ¬ r a c)
    (h : walk name (children parent r l) n (children parent r l none) = some out) :
    ∃ m, walk name (children parent r (l ++ chain)) m (children parent r (l ++ chain) none) =
      some (insertAfter name anchor chain out) := by
  have hfollows := follows_chain (r := r) hfresh
  have hanchor := children_anchor hfresh hfirst
  have hsub : ∀ p, ∀ a ∈ children parent r l p, a ∈ l := fun p a ha =>
    (List.mem_filter.1 ((lists_children parent r l p).mem_iff.1 ha)).1
  -- by induction on the fuel: the chain comes up when its anchor is emitted, and is emitted before anything else
  have hstep : ∀ n work out, (∀ a ∈ work, a ∈ l) → walk name (children parent r l) n work = some out →
      ∃ m, walk name (children parent r (l ++ chain)) m work =
        some (out.flatMap fun a => if anchor = some (name a) then a :: chain else [a]) := by
    intro n
    induction n with
    | zero =>
      intro work out _ h
      cases work with
      | nil => obtain rfl := Option.some.inj h; exact ⟨0, rfl⟩
      | cons a rest => exact absurd h (by simp [walk])
    | succ n ih =>
      intro work out hwork h
      cases work with
      | nil => obtain rfl := Option.some.inj h; exact ⟨0, rfl⟩
      | cons a rest =>
        simp only [walk, Option.map_eq_some_iff] at h
        obtain ⟨tail, htail, rfl⟩ := h
        have ha := hwork a List.mem_cons_self
        obtain ⟨m, hm⟩ := ih _ tail (fun b hb => (List.mem_append.1 hb).elim (hsub _ b)
          fun hb => hwork b (List.mem_cons_of_mem _ hb)) htail
        by_cases heq : anchor = some (name a)
        · have hwalk := walk_follows hfollows hm
          refine ⟨m + chain.length + 1, ?_⟩
          rw [heq] at hanchor
          rw [walk, hanchor, List.append_assoc, hwalk, List.flatMap_cons, if_pos heq]
          rfl
        · refine ⟨m + 1, ?_⟩
          have hsame := children_other (r := r) hfresh (p := some (name a)) (fun h => heq h.symm)
            fun c hc h => (hfresh.unused a ha c hc).1 (Option.some.inj h)
          rw [walk, hsame, hm, List.flatMap_cons, if_neg heq]
          rfl
  obtain ⟨m, hm⟩ := hstep n _ out (hsub none) h
  by_cases hnone : anchor = none
  · have hwalk := walk_follows hfollows hm
    refine ⟨m + chain.length, ?_⟩
    rw [hnone] at hanchor
    rw [hanchor, hwalk, insertAfter, if_pos hnone]
  · refine ⟨m, ?_⟩
    have hsame := children_other (r := r) hfresh (p := none) (fun h => hnone h.symm) fun c _ h => by cases h
    rw [hsame, hm, insertAfter, if_neg hnone, List.nil_append]

end Insert

/-! ### A walk of what was walked -/

private theorem sublist_antisymm {l : List α} (hnd : l.Nodup) {a b : α} (hab : List.Sublist [a, b] l)
    (hba : List.Sublist [b, a] l) : a = b := by
  induction l with
  | nil => cases hab
  | cons c l ih =>
    rw [List.nodup_cons] at hnd
    have hmem : ∀ x y, List.Sublist [x, y] (c :: l) → List.Sublist [x, y] l ∨ x = c ∧ y ∈ l := by
      intro x y h
      rcases List.sublist_cons_iff.1 h with h | ⟨r, hr, h⟩
      · exact .inl h
      · obtain ⟨rfl, rfl⟩ := List.cons.inj hr
        exact .inr ⟨rfl, h.subset (by simp)⟩
    rcases hmem a b hab with hab' | ⟨rfl, hb⟩
    · rcases hmem b a hba with hba' | ⟨rfl, -⟩
      · exact ih hnd.2 hab' hba'
      · exact absurd (hab'.subset (by simp)) hnd.1
    · rcases hmem b a hba with hba' | ⟨rfl, -⟩
      · exact absurd (hba'.subset (by simp)) hnd.1
      · rfl

/-- The nodes stand in the walk as their siblings are sorted, so sorting them once more changes nothing. -/
theorem children_walk {r : α → α → Prop} [DecidableRel r] [Std.Total r] [IsTrans α r] {l : List α}
    (hnd : (l.map name).Nodup) (hperm : out.Perm l)
    (h : walk name (children parent r l) n (children parent r l none) = some out) (p : Option ι) :
    children parent r out p = children parent r l p := by
  have hlists := lists_children parent r l
  have hndl := List.Nodup.of_map name hnd
  -- siblings stand in the walk as in their list of children
  have hpair := walk_siblings (s := fun a b => List.Sublist [a, b] (children parent r l (parent a))) hnd hlists
    (fun p => by
      rw [List.pairwise_iff_forall_sublist]
      intro a b hab
      have ha : a ∈ children parent r l p := hab.subset (by simp)
      have hparent := (List.mem_filter.1 ((hlists p).mem_iff.1 ha)).2
      rw [of_decide_eq_true hparent]
      exact hab) h
  have hfilter : (out.filter fun a => parent a = p).Perm (children parent r l p) :=
    (hperm.filter _).trans (hlists p).symm
  have hsame : (out.filter fun a => parent a = p) = children parent r l p := by
    have hout : (out.filter fun a => parent a = p).Pairwise
        fun a b => List.Sublist [a, b] (children parent r l p) := by
      refine (hpair.filter _).imp_of_mem fun {a b} ha hb hab => ?_
      have hpa := of_decide_eq_true (List.mem_filter.1 ha).2
      have hpb := of_decide_eq_true (List.mem_filter.1 hb).2
      rw [← hpa]
      exact hab (hpa.trans hpb.symm)
    have hsorted : (children parent r l p).Pairwise fun a b => List.Sublist [a, b] (children parent r l p) :=
      List.pairwise_iff_forall_sublist.2 fun hab => hab
    have hnodup : (children parent r l p).Nodup := (hlists p).nodup_iff.2 (hndl.sublist List.filter_sublist)
    exact hfilter.eq_of_pairwise (fun a b _ _ hab hba => sublist_antisymm hnodup hab hba) hout hsorted
  rw [children, hsame]
  exact (List.pairwise_insertionSort r _).insertionSort_eq

/-! ### The same forest with other nodes -/

omit [DecidableEq ι] in
/-- Nodes that are changed without touching names, parents and the order of siblings are walked alike. -/
theorem walk_map {f : α → α} {children children' : Option ι → List α} (hname : ∀ a, name (f a) = name a)
    (hchildren : ∀ p, children' p = (children p).map f) (n : Nat) (work : List α) :
    walk name children' n (work.map f) = (walk name children n work).map (List.map f) := by
  induction n generalizing work with
  | zero => cases work <;> rfl
  | succ n ih =>
    cases work with
    | nil => rfl
    | cons a rest =>
      rw [List.map_cons, walk, walk, hname, hchildren, ← List.map_append, ih, Option.map_map, Option.map_map]
      rfl

theorem children_map {f : α → α} {r : α → α → Prop} [DecidableRel r] {l : List α}
    (hparent : ∀ a ∈ l, parent (f a) = parent a) (hr : ∀ a ∈ l, ∀ b ∈ l, r (f a) (f b) ↔ r a b) (p : Option ι) :
    children parent r (l.map f) p = (children parent r l p).map f := by
  unfold children
  have hfilter : ((l.map f).filter fun a => parent a = p) = (l.filter fun a => parent a = p).map f := by
    rw [List.filter_map]
    congr 1
    refine List.filter_congr fun a ha => ?_
    rw [Function.comp_apply, hparent a ha]
  rw [hfilter]
  refine (List.map_insertionSort _ _ _ _ fun a ha b hb => ?_).symm
  exact (hr a (List.mem_filter.1 ha).1 b (List.mem_filter.1 hb).1).symm

/-! ### A forest within a larger one -/

section Within

omit [DecidableEq ι] in
private theorem filter_orderedInsert {r : α → α → Prop} [DecidableRel r] [Std.Total r] [IsTrans α r] (P : α → Bool) {a : α}
    {l : List α} (hl : l.Pairwise r) :
    (l.orderedInsert r a).filter P = if P a then (l.filter P).orderedInsert r a else l.filter P := by
  induction l with
  | nil => by_cases ha : P a <;> simp [ha]
  | cons b l ih =>
    rw [List.pairwise_cons] at hl
    by_cases hab : r a b
    · rw [List.orderedInsert_cons, if_pos hab]
      by_cases ha : P a
      · rw [List.filter_cons_of_pos ha, if_pos ha]
        -- what is left of the list still comes after the new element
        have hall : ∀ x ∈ (b :: l).filter P, r a x := by
          intro x hx
          rcases List.mem_cons.1 (List.mem_filter.1 hx).1 with rfl | hx
          · exact hab
          · exact IsTrans.trans _ _ _ hab (hl.1 x hx)
        cases hrest : (b :: l).filter P with
        | nil => rfl
        | cons x rest => rw [List.orderedInsert_cons, if_pos (hall x (by rw [hrest]; exact List.mem_cons_self))]
      · rw [List.filter_cons_of_neg ha, if_neg ha]
    · rw [List.orderedInsert_cons, if_neg hab]
      by_cases hb : P b
      · rw [List.filter_cons_of_pos hb, List.filter_cons_of_pos hb, ih hl.2, List.orderedInsert_cons, if_neg hab]
        split <;> rfl
      · rw [List.filter_cons_of_neg hb, List.filter_cons_of_neg hb, ih hl.2]

/-- The sort is stable, so what is left of the sorted list is what is left, sorted. -/
theorem filter_insertionSort {r : α → α → Prop} [DecidableRel r] [Std.Total r] [IsTrans α r] (P : α → Bool) (l : List α) :
    (l.insertionSort r).filter P = (l.filter P).insertionSort r := by
  induction l with
  | nil => rfl
  | cons a l ih =>
    rw [List.insertionSort_cons, filter_orderedInsert P (List.pairwise_insertionSort r l), ih]
    by_cases ha : P a
    · rw [if_pos ha, List.filter_cons_of_pos ha, List.insertionSort_cons]
    · rw [if_neg ha, List.filter_cons_of_neg ha]

omit [DecidableEq ι] in
/-- If no node of the old forest hangs below a new one, the old nodes are walked as if they were alone. -/
theorem walk_filter {children children' : Option ι → List α}
    (hold : ∀ a, P a = true → (children' (some (name a))).filter P = children (some (name a)))
    (hnew : ∀ a, P a = false → (children' (some (name a))).filter P = []) {work : List α}
    (h : walk name children' n work = some out) : walk name children n (work.filter P) = some (out.filter P) := by
  induction n generalizing work out with
  | zero =>
    cases work with
    | nil =>
      obtain rfl := Option.some.inj h
      rfl
    | cons a rest => cases h
  | succ n ih =>
    cases work with
    | nil =>
      obtain rfl := Option.some.inj h
      rfl
    | cons a rest =>
      rw [walk, Option.map_eq_some_iff] at h
      obtain ⟨tail, htail, rfl⟩ := h
      have hrest := ih htail
      rw [List.filter_append] at hrest
      by_cases ha : P a = true
      · rw [hold a ha] at hrest
        rw [List.filter_cons_of_pos ha, List.filter_cons_of_pos ha, walk, hrest]
        rfl
      · rw [hnew a (by simpa using ha), List.nil_append] at hrest
        rw [List.filter_cons_of_neg ha, List.filter_cons_of_neg ha]
        exact walk_mono hrest (Nat.le_succ n)

/-- Nodes that are added to a forest, wherever they hang, do not change the order of the old ones. -/
theorem walk_added {r : α → α → Prop} [DecidableRel r] [Std.Total r] [IsTrans α r] {l added : List α}
    (hl : ∀ a ∈ l, P a = true) (hadded : ∀ a ∈ added, P a = false)
    (hnames : ∀ a, P a = false → ∀ b ∈ l, parent b ≠ some (name a))
    (h : walk name (children parent r (l ++ added)) n (children parent r (l ++ added) none) = some out) :
    walk name (children parent r l) n (children parent r l none) = some (out.filter P) := by
  have hfilter : ∀ p, (children parent r (l ++ added) p).filter P = children parent r l p := by
    intro p
    unfold children
    rw [filter_insertionSort, List.filter_filter, List.filter_append]
    have hkept : (l.filter fun a => P a && decide (parent a = p)) = l.filter fun a => parent a = p :=
      List.filter_congr fun a ha => by rw [hl a ha, Bool.true_and]
    have hgone : (added.filter fun a => P a && decide (parent a = p)) = [] :=
      List.filter_eq_nil_iff.2 fun a ha => by simp [hadded a ha]
    rw [hkept, hgone, List.append_nil]
  have hnone : ∀ a, P a = false → children parent r l (some (name a)) = [] := by
    intro a ha
    unfold children
    rw [List.filter_eq_nil_iff.2 fun b hb => by simpa using hnames a ha b hb]
    rfl
  have hwalk := walk_filter (fun a _ => hfilter _) (fun a ha => (hfilter _).trans (hnone a ha)) h
  rwa [hfilter none] at hwalk

end Within

end ForestWalk
