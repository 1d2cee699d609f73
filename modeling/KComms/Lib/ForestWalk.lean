import Mathlib.Data.List.Sort
import Mathlib.Data.List.Perm.Subperm

/-!
# Walking a forest of parent links

A list of nodes with distinct names, each of which may name a parent, is walked in preorder from a work list: the
first node of the work list is emitted and its children are put in front of the rest.  A walk from the roots never
meets a node twice, so as many steps as there are nodes are enough (`walk_total`), whatever the parent links are.  If
the links are grounded (no missing parent, no cycle) the walk emits every node exactly once (`walk_perm`).  The walk
only reads the lists of children, so siblings sorted by a relation that tells them apart make the result depend only
on which nodes there are, not on the order in which they are kept (`children_congr`).
-/

namespace ForestWalk

variable {α ι : Type}

/-- The preorder walk from a work list; `none` when the fuel runs out. -/
def walk (name : α → ι) (children : Option ι → List α) : Nat → List α → Option (List α)
  | _, [] => some []
  | 0, _ :: _ => none
  | n + 1, a :: rest => (walk name children n (children (some (name a)) ++ rest)).map (a :: ·)

variable {n : Nat} {out done : List α} {s r : α → α → Prop}

/-- More fuel gives the same walk. -/
theorem walk_mono {name : α → ι} {children : Option ι → List α} {m : Nat} {work : List α}
    (h : walk name children n work = some out) (hnm : n ≤ m) : walk name children m work = some out := by
  induction n generalizing m work out with
  | zero =>
    cases work with
    | nil => cases m <;> exact h
    | cons a rest => exact absurd h (by simp [walk])
  | succ n ih =>
    cases work with
    | nil => cases m <;> exact h
    | cons a rest =>
      obtain ⟨m, rfl⟩ : ∃ m', m = m' + 1 := ⟨m - 1, by omega⟩
      simp only [walk, Option.map_eq_some_iff] at h ⊢
      obtain ⟨tail, ht, rfl⟩ := h
      exact ⟨tail, ih ht (by omega), rfl⟩

/-- Names are distinct, every parent is present, and some rank grows from a parent to its children. -/
structure Grounded (name : α → ι) (parent : α → Option ι) (l : List α) : Prop where
  nodup : (l.map name).Nodup
  ranked : ∃ rank : ι → Nat, ∀ a ∈ l, ∀ p, parent a = some p → p ∈ l.map name ∧ rank p < rank (name a)

theorem Grounded.of_perm {name : α → ι} {parent : α → Option ι} {l l' : List α} (h : Grounded name parent l)
    (hp : l.Perm l') : Grounded name parent l' := by
  obtain ⟨rank, hr⟩ := h.ranked
  refine ⟨(hp.map name).nodup_iff.1 h.nodup, rank, fun a ha p hap => ?_⟩
  obtain ⟨hm, hlt⟩ := hr a (hp.mem_iff.2 ha) p hap
  exact ⟨(hp.map name).mem_iff.1 hm, hlt⟩

/-- The invariant of the walk: `done` has been emitted and `work` is waiting, both without repetition, and together
they are the nodes whose parent has been emitted. -/
private structure Frontier (name : α → ι) (parent : α → Option ι) (l done work : List α) : Prop where
  nodup : ((done ++ work).map name).Nodup
  mem_iff : ∀ a, a ∈ done ++ work ↔ a ∈ l ∧ (parent a = none ∨ ∃ b ∈ done, parent a = some (name b))

private theorem frontier_length {name : α → ι} {parent : α → Option ι} {l work : List α}
    (h : Frontier name parent l done work) : (done ++ work).length ≤ l.length :=
  ((List.Nodup.of_map name h.nodup).subperm fun a ha => ((h.mem_iff a).1 ha).1).length_le

variable [DecidableEq ι]

/-- `children` lists, for each name, the nodes of `l` that name it as their parent. -/
def Lists (parent : α → Option ι) (l : List α) (children : Option ι → List α) : Prop :=
  ∀ p, (children p).Perm (l.filter fun a => parent a = p)

section Walk

variable {name : α → ι} {parent : α → Option ι} {l : List α} {children : Option ι → List α}

private theorem frontier_roots (hnd : (l.map name).Nodup) (hl : Lists parent l children) :
    Frontier name parent l [] (children none) := by
  refine ⟨?_, fun a => ?_⟩
  · rw [List.nil_append, ((hl none).map name).nodup_iff]
    exact hnd.sublist (List.Sublist.map _ List.filter_sublist)
  · rw [List.nil_append, (hl none).mem_iff]
    simp

private theorem frontier_step (hnd : (l.map name).Nodup) (hl : Lists parent l children) {rest : List α} {a : α}
    (h : Frontier name parent l done (a :: rest)) :
    Frontier name parent l (done ++ [a]) (children (some (name a)) ++ rest) := by
  have hperm : (done ++ [a] ++ (children (some (name a)) ++ rest)).Perm
      (done ++ a :: rest ++ children (some (name a))) := by
    have hc : (a :: (children (some (name a)) ++ rest)).Perm (a :: (rest ++ children (some (name a)))) :=
      List.perm_append_comm.cons a
    simpa using hc.append_left done
  have hch : ∀ c, c ∈ children (some (name a)) ↔ c ∈ l ∧ parent c = some (name a) := by
    intro c
    rw [(hl (some (name a))).mem_iff]
    simp
  have hfresh : ∀ b ∈ done, name b ≠ name a := by
    intro b hb hba
    have := h.nodup
    rw [List.map_append, List.nodup_append] at this
    exact this.2.2 _ (List.mem_map_of_mem hb) _ (by simp) hba
  refine ⟨?_, fun c => ?_⟩
  · rw [(hperm.map name).nodup_iff, List.map_append, List.nodup_append]
    refine ⟨h.nodup, ?_, ?_⟩
    · rw [((hl _).map name).nodup_iff]
      exact hnd.sublist (List.Sublist.map _ List.filter_sublist)
    · -- a child of `a` that was already met would have its parent among the emitted nodes, so `a` would be there
      intro x hx y hy hxy
      obtain ⟨d, hd, rfl⟩ := List.mem_map.1 hx
      obtain ⟨c, hc, rfl⟩ := List.mem_map.1 hy
      obtain ⟨hdl, hdp⟩ := (h.mem_iff d).1 hd
      obtain ⟨hcl, hcp⟩ := (hch c).1 hc
      obtain rfl := List.inj_on_of_nodup_map hnd hdl hcl hxy
      rcases hdp with hdp | ⟨b, hb, hdp⟩
      · rw [hdp] at hcp; cases hcp
      · rw [hdp] at hcp
        exact hfresh b hb (Option.some.inj hcp)
  · rw [hperm.mem_iff, List.mem_append, h.mem_iff, hch]
    constructor
    · rintro (⟨hc, hp | ⟨b, hb, hp⟩⟩ | ⟨hc, hp⟩)
      · exact ⟨hc, Or.inl hp⟩
      · exact ⟨hc, Or.inr ⟨b, by simp [hb], hp⟩⟩
      · exact ⟨hc, Or.inr ⟨a, by simp, hp⟩⟩
    · rintro ⟨hc, hp | ⟨b, hb, hp⟩⟩
      · exact Or.inl ⟨hc, Or.inl hp⟩
      · rcases List.mem_append.1 hb with hb | hb
        · exact Or.inl ⟨hc, Or.inr ⟨b, hb, hp⟩⟩
        · obtain rfl := List.mem_singleton.1 hb
          exact Or.inr ⟨hc, hp⟩

private theorem walk_frontier (hnd : (l.map name).Nodup) (hl : Lists parent l children) (n : Nat) :
    ∀ done work, Frontier name parent l done work → l.length ≤ n + done.length →
      ∃ out, walk name children n work = some out ∧ Frontier name parent l (done ++ out) [] := by
  induction n with
  | zero =>
    intro done work h hlen
    cases work with
    | nil => exact ⟨[], rfl, by simpa using h⟩
    | cons a rest =>
      have := frontier_length h
      simp only [List.length_append, List.length_cons] at this
      omega
  | succ n ih =>
    intro done work h hlen
    cases work with
    | nil => exact ⟨[], rfl, by simpa using h⟩
    | cons a rest =>
      obtain ⟨out, hout, hf⟩ := ih (done ++ [a]) _ (frontier_step hnd hl h) (by simp; omega)
      refine ⟨a :: out, by simp [walk, hout], ?_⟩
      rwa [List.append_assoc, List.singleton_append] at hf

/-- A walk from the roots ends after at most as many steps as there are nodes. -/
theorem walk_total (hnd : (l.map name).Nodup) (hl : Lists parent l children) (hn : l.length ≤ n) :
    ∃ out, walk name children n (children none) = some out := by
  obtain ⟨out, h, -⟩ := walk_frontier hnd hl n [] _ (frontier_roots hnd hl) (by simpa using hn)
  exact ⟨out, h⟩

/-- A walk from the roots emits no node twice. -/
theorem walk_nodup (hnd : (l.map name).Nodup) (hl : Lists parent l children)
    (h : walk name children n (children none) = some out) : (out.map name).Nodup := by
  obtain ⟨out', h', hf⟩ := walk_frontier hnd hl (max n l.length) [] _ (frontier_roots hnd hl) (by simp)
  obtain rfl : out = out' := Option.some.inj ((walk_mono h (le_max_left _ _)).symm.trans h')
  simpa using hf.nodup

theorem walk_subset (hnd : (l.map name).Nodup) (hl : Lists parent l children)
    (h : walk name children n (children none) = some out) : out ⊆ l := by
  obtain ⟨out', h', hf⟩ := walk_frontier hnd hl (max n l.length) [] _ (frontier_roots hnd hl) (by simp)
  obtain rfl : out = out' := Option.some.inj ((walk_mono h (le_max_left _ _)).symm.trans h')
  intro a ha
  exact ((hf.mem_iff a).1 (by simpa using ha)).1

/-- A walk of grounded nodes emits each of them exactly once. -/
theorem walk_perm (hg : Grounded name parent l) (hl : Lists parent l children)
    (h : walk name children n (children none) = some out) : out.Perm l := by
  obtain ⟨out', h', hf⟩ := walk_frontier hg.nodup hl (max n l.length) [] _ (frontier_roots hg.nodup hl)
    (by simp)
  obtain rfl : out = out' := Option.some.inj ((walk_mono h (le_max_left _ _)).symm.trans h')
  rw [List.nil_append] at hf
  have hmem := hf.mem_iff
  simp only [List.append_nil] at hmem
  obtain ⟨rank, hr⟩ := hg.ranked
  -- every node is emitted, by induction on its rank
  have hall : ∀ k, ∀ a ∈ l, rank (name a) = k → a ∈ out := by
    intro k
    induction k using Nat.strong_induction_on with
    | _ k ih =>
      rintro a ha rfl
      rw [hmem]
      refine ⟨ha, ?_⟩
      cases hp : parent a with
      | none => exact Or.inl rfl
      | some p =>
        obtain ⟨hpm, hlt⟩ := hr a ha p hp
        obtain ⟨b, hb, rfl⟩ := List.mem_map.1 hpm
        exact Or.inr ⟨b, ih _ hlt b hb rfl, rfl⟩
  rw [List.perm_ext_iff_of_nodup (List.Nodup.of_map name (by simpa using hf.nodup)) (List.Nodup.of_map name hg.nodup)]
  exact fun a => ⟨fun ha => ((hmem a).1 ha).1, fun ha => hall _ a ha rfl⟩

private theorem children_of_path (hnd : (l.map name).Nodup) (hroot : ∀ a ∈ l.head?, parent a = none)
    (hlink : ∀ i (h : i + 1 < l.length), parent l[i + 1] = some (name l[i])) (hl : Lists parent l children)
    {rest : List α} {a : α} (h : l = done ++ a :: rest) : children (some (name a)) = rest.head?.toList := by
  subst h
  have hlen : done.length < (done ++ a :: rest).length := by simp
  have ha : (done ++ a :: rest)[done.length] = a := by simp
  have hnd' : (done ++ a :: rest).Nodup := List.Nodup.of_map name hnd
  -- a node whose parent is `a` stands right behind it
  have hiff : ∀ c, c ∈ children (some (name a)) ↔ c ∈ rest.head?.toList := by
    intro c
    rw [(hl (some (name a))).mem_iff, List.mem_filter, decide_eq_true_eq]
    constructor
    · rintro ⟨hc, hpc⟩
      obtain ⟨j, hj, rfl⟩ := List.getElem_of_mem hc
      cases j with
      | zero =>
        have := hroot _ (by rw [List.head?_eq_getElem?, List.getElem?_eq_getElem hj]; exact Option.mem_some_self _)
        rw [this] at hpc
        cases hpc
      | succ j =>
        rw [hlink j hj] at hpc
        have hij : (done ++ a :: rest)[j] = a :=
          List.inj_on_of_nodup_map hnd (List.getElem_mem _) (by simp) (Option.some.inj hpc)
        have : j = done.length := by
          have hj' : j < (done ++ a :: rest).length := by omega
          exact (hnd'.getElem_inj_iff).1 (hij.trans ha.symm)
        subst this
        simp only [Option.mem_toList, List.head?_eq_getElem?]
        rw [List.getElem_append_right (by omega)]
        simp only [Nat.add_sub_cancel_left, List.getElem_cons_succ]
        exact List.getElem?_eq_getElem (l := rest) (i := 0) (by simp at hj; omega)
    · intro hc
      cases rest with
      | nil => simp at hc
      | cons b rest =>
        obtain rfl : c = b := by simpa using hc
        refine ⟨by simp, ?_⟩
        have := hlink done.length (by simp)
        simpa using this
  have hperm : (children (some (name a))).Perm rest.head?.toList := by
    refine (List.perm_ext_iff_of_nodup ?_ ?_).2 hiff
    · rw [(hl _).nodup_iff]
      exact hnd'.sublist List.filter_sublist
    · cases rest <;> simp
  cases rest with
  | nil => exact List.Perm.eq_nil hperm
  | cons b rest => exact List.perm_singleton.1 hperm

private theorem walk_suffix (hnd : (l.map name).Nodup) (hroot : ∀ a ∈ l.head?, parent a = none)
    (hlink : ∀ i (h : i + 1 < l.length), parent l[i + 1] = some (name l[i])) (hl : Lists parent l children)
    (rest : List α) : ∀ done, l = done ++ rest →
      walk name children rest.length rest.head?.toList = some rest := by
  induction rest with
  | nil => intro done _; rfl
  | cons a rest ih =>
    intro done h
    have hrest := ih (done ++ [a]) (by simpa using h)
    simp only [List.head?_cons, Option.toList_some, List.length_cons, walk, List.append_nil,
      children_of_path hnd hroot hlink hl h, hrest, Option.map_some]

/-- A path is walked from its root to its end. -/
theorem walk_path (hnd : (l.map name).Nodup) (hroot : ∀ a ∈ l.head?, parent a = none)
    (hlink : ∀ i (h : i + 1 < l.length), parent l[i + 1] = some (name l[i])) (hl : Lists parent l children) :
    walk name children l.length (children none) = some l := by
  have hiff : ∀ c, c ∈ children none ↔ c ∈ l.head?.toList := by
    intro c
    rw [(hl none).mem_iff, List.mem_filter, decide_eq_true_eq, Option.mem_toList]
    constructor
    · rintro ⟨hc, hpc⟩
      obtain ⟨j, hj, rfl⟩ := List.getElem_of_mem hc
      cases j with
      | zero => rw [List.head?_eq_getElem?, List.getElem?_eq_getElem hj]
      | succ j => rw [hlink j hj] at hpc; cases hpc
    · intro hc
      exact ⟨List.mem_of_mem_head? hc, hroot c hc⟩
  have hperm : (children none).Perm l.head?.toList := by
    refine (List.perm_ext_iff_of_nodup ?_ ?_).2 hiff
    · rw [(hl _).nodup_iff]
      exact (List.Nodup.of_map name hnd).sublist List.filter_sublist
    · cases l <;> simp
  have hroots : children none = l.head?.toList := by
    cases l with
    | nil => exact List.Perm.eq_nil hperm
    | cons a l => exact List.perm_singleton.1 hperm
  rw [hroots]
  exact walk_suffix hnd hroot hlink hl l [] rfl

private theorem walk_pairwise (hnd : (l.map name).Nodup) (hl : Lists parent l children)
    (hs : ∀ p, (children p).Pairwise s) (n : Nat) : ∀ done work out, Frontier name parent l done work →
      work.Pairwise (fun a b => parent a = parent b → s a b) → walk name children n work = some out →
      out.Pairwise fun a b => parent a = parent b → s a b := by
  induction n with
  | zero =>
    intro done work out _ _ h
    cases work with
    | nil => obtain rfl := Option.some.inj h; exact List.Pairwise.nil
    | cons a rest => exact absurd h (by simp [walk])
  | succ n ih =>
    intro done work out hf hw h
    cases work with
    | nil => obtain rfl := Option.some.inj h; exact List.Pairwise.nil
    | cons a rest =>
      simp only [walk, Option.map_eq_some_iff] at h
      obtain ⟨tail, htail, rfl⟩ := h
      have hstep := frontier_step hnd hl hf
      have hch : ∀ c ∈ children (some (name a)), c ∈ l ∧ parent c = some (name a) := by
        intro c hc
        have := (hl (some (name a))).mem_iff.1 hc
        simpa using this
      rw [List.pairwise_cons] at hw ⊢
      refine ⟨fun b hb hab => ?_, ih _ _ _ hstep ?_ htail⟩
      · -- a sibling of `a` that is emitted later was waiting with it
        obtain ⟨out', hout', hf'⟩ := walk_frontier hnd hl (max n l.length) _ _ hstep (by simp; omega)
        obtain rfl : tail = out' := Option.some.inj ((walk_mono htail (le_max_left _ _)).symm.trans hout')
        have hbl := ((hf'.mem_iff b).1 (by simp [hb])).1
        have hmem : b ∈ done ++ a :: rest := by
          rw [hf.mem_iff]
          obtain ⟨-, ha⟩ := (hf.mem_iff a).1 (by simp)
          exact ⟨hbl, by rwa [← hab]⟩
        have hbnot : b ∉ done ++ [a] := by
          have := List.Nodup.of_map name hf'.nodup
          rw [List.append_nil, List.nodup_append] at this
          exact fun hm => this.2.2 b hm b hb rfl
        have hrest : b ∈ rest := by simp at hmem hbnot; tauto
        exact hw.1 b hrest hab
      · rw [List.pairwise_append]
        refine ⟨(hs (some (name a))).imp (fun {c d} h (_ : parent c = parent d) => h), hw.2, fun c hc b hb hcb => ?_⟩
        -- the children of `a` have no siblings that are already waiting
        obtain ⟨hcl, hcp⟩ := hch c hc
        have hbl : b ∈ l := ((hf.mem_iff b).1 (by simp [hb])).1
        have hbc : b ∈ children (some (name a)) := by
          rw [(hl _).mem_iff, List.mem_filter, decide_eq_true_eq]
          exact ⟨hbl, hcb ▸ hcp⟩
        have hdup := (List.nodup_append.1 (List.Nodup.of_map name hstep.nodup)).2.1
        exact absurd rfl ((List.nodup_append.1 hdup).2.2 b hbc b hb)

/-- In the walk siblings stand as they do in their list of children. -/
theorem walk_siblings (hnd : (l.map name).Nodup) (hl : Lists parent l children) (hs : ∀ p, (children p).Pairwise s)
    (h : walk name children n (children none) = some out) :
    out.Pairwise fun a b => parent a = parent b → s a b :=
  walk_pairwise hnd hl hs n [] _ out (frontier_roots hnd hl) ((hs none).imp (fun {a b} h (_ : parent a = parent b) => h)) h

end Walk

/-! ### Siblings in sorted order -/

section Siblings

/-- The children of each name, sorted by `r`; the sort is stable. -/
def children (parent : α → Option ι) (r : α → α → Prop) [DecidableRel r] (l : List α) (p : Option ι) : List α :=
  (l.filter fun a => parent a = p).insertionSort r

theorem lists_children (parent : α → Option ι) (r : α → α → Prop) [DecidableRel r] (l : List α) :
    Lists parent l (children parent r l) := fun _ => List.perm_insertionSort r _

/-- A relation that orders the nodes of `l` without ties sorts siblings in one way only. -/
theorem children_congr {parent : α → Option ι} [DecidableRel r] [Std.Total r] [IsTrans α r] {l l' : List α}
    (hp : l.Perm l') (hanti : ∀ a ∈ l, ∀ b ∈ l, r a b → r b a → a = b) :
    children parent r l = children parent r l' := by
  funext p
  have hperm : (children parent r l p).Perm (children parent r l' p) :=
    (List.perm_insertionSort r _).trans ((hp.filter _).trans (List.perm_insertionSort r _).symm)
  have hsub : ∀ a ∈ children parent r l p, a ∈ l := fun a ha =>
    (List.mem_filter.1 ((List.perm_insertionSort r _).mem_iff.1 ha)).1
  refine hperm.eq_of_pairwise ?_ (List.pairwise_insertionSort r _) (List.pairwise_insertionSort r _)
  intro a b ha hb h1 h2
  exact hanti a (hsub a ha) b (hsub b (hperm.mem_iff.2 hb)) h1 h2

private theorem orderedInsert_congr [DecidableRel r] [DecidableRel s] {a : α} {l : List α}
    (h : ∀ b ∈ l, (r a b ↔ s a b)) : l.orderedInsert r a = l.orderedInsert s a := by
  induction l with
  | nil => rfl
  | cons b l ih =>
    simp only [List.orderedInsert_cons, h b (by simp)]
    split
    · rfl
    · rw [ih fun c hc => h c (by simp [hc])]

/-- Two relations that agree on every two siblings in the order in which they are kept sort them alike. -/
theorem children_eq_of_pairwise {parent : α → Option ι} [DecidableRel r] [DecidableRel s] {l : List α}
    (h : l.Pairwise fun a b => parent a = parent b → (r a b ↔ s a b)) :
    children parent r l = children parent s l := by
  funext p
  have key : ∀ k : List α, k.Pairwise (fun a b => r a b ↔ s a b) → k.insertionSort r = k.insertionSort s := by
    intro k
    induction k with
    | nil => intro _; rfl
    | cons a k ih =>
      intro hk
      rw [List.pairwise_cons] at hk
      rw [List.insertionSort_cons, List.insertionSort_cons, ih hk.2]
      apply orderedInsert_congr
      intro b hb
      exact hk.1 b ((List.perm_insertionSort s k).mem_iff.1 hb)
  apply key
  rw [List.pairwise_filter]
  refine h.imp fun hab ha hb => hab ?_
  rw [decide_eq_true_eq] at ha hb
  rw [ha, hb]

end Siblings

end ForestWalk
