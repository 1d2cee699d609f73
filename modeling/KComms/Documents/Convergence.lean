import KComms.Documents.OptimisticEdit

/-!
# Edits converge

Edits of one document that are accepted in two different orders leave the same atoms in the same order.  On the server
the nodes after a sequence of edits are the old atoms and the inserted ones, each marked if some edit deletes it
(`applyAll_gathered`), whatever the order of the edits; the linearisation of a map only depends on the map.  On the
client the same nodes stand in another order in the list that `orderAtoms` sorts, and a key may occur twice, once on an
old and once on a new atom; the sort is stable and keeps the old atom in its place, in every order of the edits alike.
-/

namespace KComms.Documents

open FallibleLoop (bind_ok map_ok foldlM_cons_ok)
open Model

/-! ### The server -/

/-- An edit with the version it is applied at. -/
structure VersionedEdit where
  operationId : String
  version : Nat
  changes : List Change
  deriving DecidableEq, Repr

namespace VersionedEdit

def inserted (e : VersionedEdit) : List Atom := Rga.insertedAtoms e.operationId e.version e.changes 0

def deleted (e : VersionedEdit) : List String := Rga.deletedIds e.changes

/-- The atoms and the content after the edit. -/
def apply (values : Enumeration String Atom) (state : List Atom × String) (e : VersionedEdit) :
    Except DocumentError (List Atom × String) :=
  (Rga.apply values state.1 e.changes e.operationId e.version).map fun r => (r.atoms, r.content)

end VersionedEdit

def applyAll (values : Enumeration String Atom) (atoms : List Atom) (edits : List VersionedEdit) :
    Except DocumentError (List Atom × String) :=
  edits.foldlM (VersionedEdit.apply values) (atoms, Rga.text atoms)

/-- The old atoms and those that the edits insert, marked if an edit deletes them. -/
def gathered (atoms : List Atom) (edits : List VersionedEdit) : List Atom :=
  (atoms ++ edits.flatMap VersionedEdit.inserted).map (Rga.mark (edits.flatMap VersionedEdit.deleted))

variable {atoms : List Atom} {lc : Collation} {edits : List Ranked} {old : List String}
  {values : Enumeration String Atom}

theorem gathered_nil (atoms : List Atom) : gathered atoms [] = atoms := by simp [gathered]

theorem gathered_perm {edits edits' : List VersionedEdit} (hp : edits.Perm edits') :
    (gathered atoms edits).Perm (gathered atoms edits') := by
  have hmark : Rga.mark (edits.flatMap VersionedEdit.deleted) = Rga.mark (edits'.flatMap VersionedEdit.deleted) :=
    Rga.mark_congr fun id => (hp.flatMap_right _).mem_iff
  unfold gathered
  rw [hmark]
  exact ((hp.flatMap_right _).append_left atoms).map _

theorem map_gathered_id (atoms : List Atom) (edits : List VersionedEdit) :
    (gathered atoms edits).map Atom.id = atoms.map Atom.id ++ (edits.flatMap VersionedEdit.inserted).map Atom.id := by
  rw [gathered, Rga.map_mark_id, List.map_append]

private theorem exists_rank_bound (rank : String → Nat) (ids : List String) : ∃ M, ∀ id ∈ ids, rank id ≤ M := by
  induction ids with
  | nil => exact ⟨0, by simp⟩
  | cons id ids ih =>
    obtain ⟨M, hM⟩ := ih
    refine ⟨max (rank id) M, fun i hi => ?_⟩
    rcases List.mem_cons.1 hi with rfl | hi
    · exact le_max_left _ _
    · exact (hM i hi).trans (le_max_right _ _)

/-- Whatever its version, an accepted edit keeps the parent links grounded: its atoms rank above all old ones. -/
theorem Rga.Admitted.grounded_merged {changes : List Change} {operationId : String} {version : Nat} {r : Rga.Applied}
    (h : Rga.Admitted values atoms changes operationId version r)
    (hg : ForestWalk.Grounded Atom.id Atom.afterId atoms) :
    ForestWalk.Grounded Atom.id Atom.afterId (Rga.merged atoms changes operationId version) := by
  obtain ⟨rank, hrank⟩ := hg.ranked
  obtain ⟨M, hM⟩ := exists_rank_bound rank (atoms.map Atom.id)
  generalize hnew : Rga.insertedAtoms operationId version changes 0 = new at *
  have hids := Rga.map_merged_id atoms changes operationId version
  have hfresh := h.fresh
  have hanchored := h.anchored
  rw [hnew] at hids hfresh hanchored
  have hdisjoint : ∀ b ∈ new, b.id ∉ atoms.map Atom.id := fun b hb hm =>
    (List.nodup_append.1 hfresh).2.2 _ hm _ (List.mem_map_of_mem hb) rfl
  refine ⟨hids ▸ hfresh, fun id => if id ∈ atoms.map Atom.id then rank id else M + 1 + Rga.keyOf new id, ?_⟩
  intro a' ha' p hp
  obtain ⟨a, ha, rfl⟩ := List.mem_map.1 ha'
  rw [Rga.mark_afterId] at hp
  rw [hnew] at ha
  rw [hids, Rga.mark_id]
  rcases List.mem_append.1 ha with ha | ha
  · obtain ⟨hpm, hlt⟩ := hrank a ha p hp
    refine ⟨List.mem_append_left _ hpm, ?_⟩
    simp only [hpm, if_true, List.mem_map_of_mem ha]
    exact hlt
  · have hnewNodup : (new.map Atom.id).Nodup := (List.nodup_append.1 hfresh).2.1
    have hkey := Rga.keyOf_eq hnewNodup ha
    simp only [if_neg (hdisjoint a ha), hkey]
    rcases hanchored a ha p hp with hpm | ⟨b, hb, rfl, hlt⟩
    · refine ⟨List.mem_append_left _ hpm, ?_⟩
      have := hM p hpm
      rw [if_pos hpm]
      omega
    · refine ⟨List.mem_append_right _ (List.mem_map_of_mem hb), ?_⟩
      rw [if_neg (hdisjoint b hb), Rga.keyOf_eq hnewNodup hb]
      omega

/-- What a sequence of accepted edits leaves. -/
theorem applyAll_gathered {edits : List VersionedEdit} :
    ∀ {atoms atoms' : List Atom} {content content' : String}, ForestWalk.Grounded Atom.id Atom.afterId atoms →
      edits.foldlM (VersionedEdit.apply values) (atoms, content) = .ok (atoms', content') →
      atoms'.Perm (gathered atoms edits) ∧ ((gathered atoms edits).map Atom.id).Nodup ∧
      (edits ≠ [] → atoms' = Rga.order (Rga.arrange values (gathered atoms edits)) ∧ content' = Rga.text atoms') := by
  induction edits with
  | nil =>
    intro atoms atoms' content content' hg h
    obtain ⟨rfl, -⟩ := Prod.mk.inj (Except.ok.inj h)
    rw [gathered_nil]
    exact ⟨List.Perm.refl _, hg.nodup, fun h => absurd rfl h⟩
  | cons e edits ih =>
    intro atoms atoms' content content' hg h
    obtain ⟨⟨next, nextContent⟩, hstep, h⟩ := foldlM_cons_ok.1 h
    obtain ⟨r, hr, heq⟩ := map_ok.1 hstep
    obtain ⟨rfl, rfl⟩ := Prod.mk.inj heq
    have hadm := Rga.apply_spec hr
    have hgm := hadm.grounded_merged hg
    have hperm : r.atoms.Perm (Rga.merged atoms e.changes e.operationId e.version) := by
      rw [hadm.ordered]
      exact Rga.Admitted.atoms_perm_arrange hgm
    obtain ⟨hrest, hnd, hlast⟩ := ih (hgm.of_perm hperm.symm) h
    -- the later edits insert no atom that this one deletes
    have hfresh : ∀ a ∈ edits.flatMap VersionedEdit.inserted, a.id ∉ e.deleted := by
      intro a ha hdel
      rw [map_gathered_id, List.nodup_append] at hnd
      have hm := (hperm.map Atom.id).mem_iff.2 (hadm.known _ hdel)
      exact hnd.2.2 _ hm _ (List.mem_map_of_mem ha) rfl
    have hgather : (gathered r.atoms edits).Perm (gathered atoms (e :: edits)) := by
      unfold gathered
      refine ((hperm.append_right _).map _).trans (List.Perm.of_eq ?_)
      rw [List.flatMap_cons, List.flatMap_cons, ← List.append_assoc, List.map_append,
        @List.map_append _ _ _ (atoms ++ _)]
      congr 1
      · rw [Rga.merged, List.map_map]
        apply List.map_congr_left
        intro a _
        simp only [Function.comp, Rga.mark_mark]
        rfl
      · apply List.map_congr_left
        intro a ha
        exact (Rga.mark_of_not_mem (hfresh a ha)).symm
    have hnd' := (hgather.map Atom.id).nodup_iff.1 hnd
    refine ⟨hrest.trans hgather, hnd', fun _ => ?_⟩
    by_cases hedits : edits = []
    · subst hedits
      obtain ⟨rfl, rfl⟩ := Prod.mk.inj (Except.ok.inj h)
      refine ⟨?_, hadm.content⟩
      rw [hadm.ordered]
      simp only [gathered, VersionedEdit.inserted, VersionedEdit.deleted, List.flatMap_cons, List.flatMap_nil,
        List.append_nil, Rga.merged]
    · obtain ⟨hl, hcontent⟩ := hlast hedits
      exact ⟨hl.trans (by rw [Rga.arrange_congr values hnd hgather]), hcontent⟩

/-- Two accepted orders of the same edits end alike on the server. -/
theorem applyAll_congr {edits edits' : List VersionedEdit} (hg : ForestWalk.Grounded Atom.id Atom.afterId atoms)
    (hp : edits.Perm edits') {r r' : List Atom × String} (h : applyAll values atoms edits = .ok r)
    (h' : applyAll values atoms edits' = .ok r') : r = r' := by
  obtain ⟨-, hnd, hlast⟩ := applyAll_gathered hg h
  obtain ⟨-, -, hlast'⟩ := applyAll_gathered hg h'
  by_cases hedits : edits = []
  · subst hedits
    obtain rfl := hp.nil_eq
    exact Except.ok.inj (h.symm.trans h')
  · obtain ⟨hatoms, hcontent⟩ := hlast hedits
    obtain ⟨hatoms', hcontent'⟩ := hlast' fun hnil => hedits (by rw [hnil] at hp; exact hp.eq_nil)
    have heq : r.1 = r'.1 := by
      rw [hatoms, hatoms', Rga.arrange_congr values hnd (gathered_perm hp)]
    exact Prod.ext heq (by rw [hcontent, hcontent', heq])

/-! ### Ties between keys -/

namespace Model

theorem keeps_iff {a b : Atom} :
    keeps lc a b ↔ b.order < a.order ∨ a.order = b.order ∧ lc.compare a.id b.id ≤ 0 := by
  unfold keeps compareAtoms
  split <;> omega

theorem keeps_mark {a b : Atom} (ids : List String) :
    keeps lc (Rga.mark ids a) (Rga.mark ids b) ↔ keeps lc a b := by
  simp only [keeps_iff, Rga.mark_order, Rga.mark_id]

/-- Old atoms rank before new ones. -/
def age (old : List String) (a : Atom) : Nat := if a.id ∈ old then 0 else 1

theorem age_le (old : List String) (a : Atom) : age old a ≤ 1 := by unfold age; split <;> omega

/-- The order of siblings that the sort ends with: ties are broken by age. -/
def settles (lc : Collation) (old : List String) (a b : Atom) : Prop :=
  keeps lc a b ∧ (keeps lc b a → age old a ≤ age old b)

instance (lc : Collation) (old : List String) : DecidableRel (settles lc old) := fun a b =>
  inferInstanceAs (Decidable (keeps lc a b ∧ (keeps lc b a → age old a ≤ age old b)))

instance (lc : Collation) : Std.Total (keeps lc) := ⟨fun a b => by
  rw [keeps_iff, keeps_iff]
  have := lc.total a.id b.id
  omega⟩

instance (lc : Collation) : IsTrans Atom (keeps lc) := ⟨fun a b c h1 h2 => by
  rw [keeps_iff] at h1 h2 ⊢
  have := lc.trans a.id b.id c.id
  omega⟩

instance (lc : Collation) (old : List String) : Std.Total (settles lc old) := ⟨fun a b => by
  unfold settles
  have hk : keeps lc a b ∨ keeps lc b a := Std.Total.total a b
  by_cases h1 : keeps lc a b
  · by_cases h2 : keeps lc b a
    · have hage := le_total (age old a) (age old b)
      tauto
    · tauto
  · tauto⟩

instance (lc : Collation) (old : List String) : IsTrans Atom (settles lc old) := ⟨fun a b c h1 h2 => by
  have htrans : ∀ {x y z : Atom}, keeps lc x y → keeps lc y z → keeps lc x z := fun h h' => IsTrans.trans _ _ _ h h'
  refine ⟨htrans h1.1 h2.1, fun hca => ?_⟩
  have hba := h1.2 (htrans h2.1 hca)
  have hcb := h2.2 (htrans hca h1.1)
  omega⟩

/-- Siblings with equal keys stand in the list with the old ones first. -/
def Settled (lc : Collation) (old : List String) (atoms : List Atom) : Prop :=
  atoms.Pairwise fun a b => a.afterId = b.afterId → keeps lc b a → age old a ≤ age old b

/-- In a settled list the stable sort breaks ties by age. -/
theorem siblings_settled (h : Settled lc old atoms) :
    siblings lc atoms = ForestWalk.children Atom.afterId (settles lc old) atoms := by
  apply ForestWalk.children_eq_of_pairwise
  exact h.imp fun {a b} hab hp => ⟨fun hk => ⟨hk, hab hp⟩, fun hs => hs.1⟩

/-- The linearisation of a settled list is settled. -/
theorem settled_orderAtoms {out : List Atom} (hs : Settled lc old atoms)
    (h : orderAtoms lc atoms = .ok out) : Settled lc old out := by
  obtain ⟨hsound, hwalk, -, -⟩ := orderAtoms_ok.1 h
  have hpair := ForestWalk.walk_siblings (s := settles lc old) hsound.ids (lists_siblings lc atoms)
    (fun p => by rw [siblings_settled hs]; exact List.pairwise_insertionSort _ _) hwalk
  exact hpair.imp fun {a b} hab hp => (hab hp).2

theorem settled_merged (e : Ranked) (hold : ∀ id ∈ old, id ∈ atoms.map Atom.id) (hs : Settled lc old atoms) :
    Settled lc old (optimisticMerged atoms e) := by
  unfold Settled optimisticMerged
  rw [List.pairwise_map]
  have hnew : ∀ a ∈ added atoms (insertedBy e), age old a = 1 := by
    intro a ha
    have hnot := (List.mem_filter.1 ha).2
    simp only [decide_eq_true_eq] at hnot
    unfold age
    rw [if_neg fun hm => hnot (hold _ hm)]
  refine List.Pairwise.imp (R := fun a b => a.afterId = b.afterId → keeps lc b a → age old a ≤ age old b) ?_ ?_
  · intro a b hab hp hk
    exact hab hp ((keeps_mark _).1 hk)
  · rw [List.pairwise_append]
    refine ⟨hs, ?_, ?_⟩
    · rw [List.pairwise_iff_forall_sublist]
      intro a b hab _ _
      have ha := hnew a (hab.subset (by simp))
      have hb := hnew b (hab.subset (by simp))
      omega
    · intro a _ b hb _ _
      have := age_le old a
      have := hnew b hb
      omega

/-! ### Sequences of optimistic edits -/

def optimisticAll (lc : Collation) (atoms : List Atom) (edits : List Ranked) : Except ModelError (List Atom) :=
  edits.foldlM (fun atoms e => optimisticApply lc atoms e.1 e.2) atoms

/-- The old atoms and those that the edits add, marked if an edit deletes them. -/
def optimisticGathered (atoms : List Atom) (edits : List Ranked) : List Atom :=
  (atoms ++ edits.flatMap fun e => added atoms (insertedBy e)).map (Rga.mark (edits.flatMap deletedBy))

theorem optimisticGathered_nil (atoms : List Atom) : optimisticGathered atoms [] = atoms := by
  simp [optimisticGathered]

theorem optimisticGathered_perm {edits' : List Ranked} (hp : edits.Perm edits') :
    (optimisticGathered atoms edits).Perm (optimisticGathered atoms edits') := by
  have hmark : Rga.mark (edits.flatMap deletedBy) = Rga.mark (edits'.flatMap deletedBy) :=
    Rga.mark_congr fun id => (hp.flatMap_right _).mem_iff
  unfold optimisticGathered
  rw [hmark]
  exact ((hp.flatMap_right _).append_left atoms).map _

theorem map_optimisticMerged_id (atoms : List Atom) (e : Ranked) :
    (optimisticMerged atoms e).map Atom.id = atoms.map Atom.id ++ (added atoms (insertedBy e)).map Atom.id := by
  rw [optimisticMerged, Rga.map_mark_id, List.map_append]

private theorem insertedBy_id {e : Ranked} {a : Atom} (h : a ∈ insertedBy e) :
    ∃ i, i < Rga.insertedLength e.1.changes ∧ a.id = Rga.atomId e.1.clientOperationId i ∧
      a.order = e.2 * maxAtoms + i := by
  obtain ⟨i, -, hi, hid, horder, -⟩ := Rga.mem_insertedAtoms h
  exact ⟨i, by omega, hid, horder⟩

/-- What a sequence of optimistic edits leaves: the gathered atoms, linearised from a settled list. -/
theorem optimisticAll_gathered :
    ∀ {atoms out : List Atom}, (edits.map fun e => e.1.clientOperationId).Nodup → (atoms.map Atom.id).Nodup →
      (∀ id ∈ old, id ∈ atoms.map Atom.id) → Settled lc old atoms → optimisticAll lc atoms edits = .ok out →
      (∀ e ∈ edits, Rga.insertedLength e.1.changes ≤ maxAtoms) ∧
      (edits ≠ [] → ∃ nodes, nodes.Perm (optimisticGathered atoms edits) ∧ Settled lc old nodes ∧
        orderAtoms lc nodes = .ok out) ∧ out.Perm (optimisticGathered atoms edits) := by
  induction edits with
  | nil =>
    intro atoms out _ _ _ _ h
    obtain rfl : atoms = out := Except.ok.inj h
    rw [optimisticGathered_nil]
    exact ⟨by simp, fun h => absurd rfl h, List.Perm.refl _⟩
  | cons e edits ih =>
    intro atoms out hops hnd hold hs h
    rw [List.map_cons, List.nodup_cons] at hops
    obtain ⟨next, hnext, h⟩ := foldlM_cons_ok.1 h
    obtain ⟨horder, hknown⟩ := optimisticApply_ok hnd hnext
    obtain ⟨hsound, -, -, hmax⟩ := orderAtoms_ok.1 horder
    have hperm := orderAtoms_perm horder
    have hmergedSettled := settled_merged e hold hs
    have hids : ∀ id, id ∈ next.map Atom.id ↔ id ∈ atoms.map Atom.id ∨ id ∈ (added atoms (insertedBy e)).map Atom.id := by
      intro id
      rw [(hperm.map Atom.id).mem_iff, map_optimisticMerged_id, List.mem_append]
    have hnextNodup : (next.map Atom.id).Nodup := (hperm.map Atom.id).nodup_iff.2 hsound.ids
    -- the atoms of another edit have other ids
    have hadded : ∀ e' ∈ edits, added next (insertedBy e') = added atoms (insertedBy e') := by
      intro e' he'
      unfold added
      apply List.filter_congr
      intro a ha
      have hne : a.id ∉ (added atoms (insertedBy e)).map Atom.id := by
        intro hm
        obtain ⟨b, hb, hba⟩ := List.mem_map.1 hm
        obtain ⟨i, -, hi, -⟩ := insertedBy_id ha
        obtain ⟨j, -, hj, -⟩ := insertedBy_id (List.mem_filter.1 hb).1
        have := (Rga.atomId_inj.1 (hj.symm.trans (hba.trans hi))).1
        exact hops.1 (this ▸ List.mem_map_of_mem (f := fun e : Ranked => e.1.clientOperationId) he')
      simp only [hids, hne, or_false]
    obtain ⟨hlengths, hlast, hrest⟩ := ih hops.2 hnextNodup (fun id hid => (hids id).2 (Or.inl (hold id hid)))
      (settled_orderAtoms hmergedSettled horder) h
    have hlength : Rga.insertedLength e.1.changes ≤ maxAtoms := by
      have hsub : (insertedBy e).map Atom.id ⊆ (optimisticMerged atoms e).map Atom.id := by
        intro id hid
        rw [map_optimisticMerged_id, List.mem_append]
        by_cases hin : id ∈ atoms.map Atom.id
        · exact Or.inl hin
        · obtain ⟨a, ha, rfl⟩ := List.mem_map.1 hid
          exact Or.inr (List.mem_map_of_mem (List.mem_filter.2 ⟨ha, by simpa using hin⟩))
      have hle := ((Rga.nodup_insertedAtoms_ids e.1.clientOperationId e.2 e.1.changes 0).subperm hsub).length_le
      rw [List.length_map, List.length_map, Rga.length_insertedAtoms] at hle
      omega
    have hgather : (optimisticGathered next edits).Perm (optimisticGathered atoms (e :: edits)) := by
      unfold optimisticGathered
      have hflat : (edits.flatMap fun e' => added next (insertedBy e')) =
          edits.flatMap fun e' => added atoms (insertedBy e') := by
        rw [List.flatMap_def, List.flatMap_def, List.map_congr_left hadded]
      rw [hflat]
      refine ((hperm.append_right _).map _).trans (List.Perm.of_eq ?_)
      rw [List.flatMap_cons, List.flatMap_cons, ← List.append_assoc, List.map_append,
        @List.map_append _ _ _ (atoms ++ _)]
      congr 1
      · rw [optimisticMerged, List.map_map]
        apply List.map_congr_left
        intro a _
        simp only [Function.comp, Rga.mark_mark]
      · -- the later edits add no atom that this one deletes
        apply List.map_congr_left
        intro a ha
        refine (Rga.mark_of_not_mem fun hdel => ?_).symm
        obtain ⟨e', he', ha⟩ := List.mem_flatMap.1 ha
        rw [← hadded e' he'] at ha
        have hnot := (List.mem_filter.1 ha).2
        simp only [decide_eq_true_eq] at hnot
        exact hnot ((hperm.map Atom.id).mem_iff.2 (hknown _ hdel))
    refine ⟨?_, fun _ => ?_, hrest.trans hgather⟩
    · intro e' he'
      rcases List.mem_cons.1 he' with rfl | he'
      · exact hlength
      · exact hlengths e' he'
    · by_cases hedits : edits = []
      · subst hedits
        obtain rfl : next = out := Except.ok.inj h
        refine ⟨_, ?_, hmergedSettled, horder⟩
        simp [optimisticGathered, optimisticMerged]
      · obtain ⟨nodes, hnodes, hset, ho⟩ := hlast hedits
        exact ⟨nodes, hnodes.trans hgather, hset, ho⟩

/-- Among the gathered atoms only an old and a new one can tie. -/
theorem settles_antisymm (lc : Collation) (hw : Rga.WellFormed atoms) (hversions : (edits.map fun e => e.2).Nodup)
    (hlengths : ∀ e ∈ edits, Rga.insertedLength e.1.changes ≤ maxAtoms)
    (hnd : ((optimisticGathered atoms edits).map Atom.id).Nodup) :
    ∀ a ∈ optimisticGathered atoms edits, ∀ b ∈ optimisticGathered atoms edits,
      settles lc (atoms.map Atom.id) a b → settles lc (atoms.map Atom.id) b a → a = b := by
  intro a ha b hb hab hba
  have hage : age (atoms.map Atom.id) a = age (atoms.map Atom.id) b := by
    have := hab.2 hba.1
    have := hba.2 hab.1
    omega
  have horder : a.order = b.order := by
    have h1 := keeps_iff.1 hab.1
    have h2 := keeps_iff.1 hba.1
    omega
  apply List.inj_on_of_nodup_map hnd ha hb
  obtain ⟨a', ha', rfl⟩ := List.mem_map.1 ha
  obtain ⟨b', hb', rfl⟩ := List.mem_map.1 hb
  simp only [Rga.mark_id, Rga.mark_order] at horder hage ⊢
  have hnew : ∀ x ∈ edits.flatMap (fun e => added atoms (insertedBy e)), x.id ∉ atoms.map Atom.id := by
    intro x hx
    obtain ⟨e, -, hx⟩ := List.mem_flatMap.1 hx
    simpa using (List.mem_filter.1 hx).2
  rcases List.mem_append.1 ha' with ha' | ha'
  · rcases List.mem_append.1 hb' with hb' | hb'
    · rw [List.inj_on_of_nodup_map hw.orders ha' hb' horder]
    · simp [age, hnew b' hb', List.mem_map_of_mem ha'] at hage
  · rcases List.mem_append.1 hb' with hb' | hb'
    · simp [age, hnew a' ha', List.mem_map_of_mem hb'] at hage
    · -- the key of a new atom tells its edit and its offset
      obtain ⟨e, he, hae⟩ := List.mem_flatMap.1 ha'
      obtain ⟨e', he', hbe⟩ := List.mem_flatMap.1 hb'
      obtain ⟨i, hi, hia, hio⟩ := insertedBy_id (List.mem_filter.1 hae).1
      obtain ⟨j, hj, hjb, hjo⟩ := insertedBy_id (List.mem_filter.1 hbe).1
      have hli := hlengths e he
      have hlj := hlengths e' he'
      rw [hio, hjo] at horder
      have hv : e.2 = e'.2 := by
        unfold maxAtoms at horder hli hlj
        omega
      have hij : i = j := by
        rw [hv] at horder
        omega
      rw [List.inj_on_of_nodup_map hversions he he' hv] at hia
      rw [hia, hjb, hij]

/-- Two orders of the same edits that do not throw end alike on the client. -/
theorem optimisticAll_congr {edits' : List Ranked} (hw : Rga.WellFormed atoms) (hp : edits.Perm edits')
    (hops : (edits.map fun e => e.1.clientOperationId).Nodup) (hversions : (edits.map fun e => e.2).Nodup)
    {out out' : List Atom} (h : optimisticAll lc atoms edits = .ok out)
    (h' : optimisticAll lc atoms edits' = .ok out') : out = out' := by
  have hbase : Settled lc (atoms.map Atom.id) atoms := by
    unfold Settled
    rw [List.pairwise_iff_forall_sublist]
    intro a b hab _ _
    have ha : a ∈ atoms := hab.subset (by simp)
    have hb : b ∈ atoms := hab.subset (by simp)
    simp [age, List.mem_map_of_mem ha, List.mem_map_of_mem hb]
  obtain ⟨hlengths, hlast, -⟩ := optimisticAll_gathered hops hw.ids (fun _ h => h) hbase h
  obtain ⟨-, hlast', -⟩ := optimisticAll_gathered ((hp.map _).nodup_iff.1 hops) hw.ids (fun _ h => h) hbase h'
  by_cases hedits : edits = []
  · subst hedits
    obtain rfl := hp.nil_eq
    exact Except.ok.inj (h.symm.trans h')
  · obtain ⟨nodes, hnodes, hset, ho⟩ := hlast hedits
    obtain ⟨nodes', hnodes', hset', ho'⟩ := hlast' fun hnil => hedits (by rw [hnil] at hp; exact hp.eq_nil)
    obtain ⟨hsound, hwalk, -, -⟩ := orderAtoms_ok.1 ho
    obtain ⟨-, hwalk', -, -⟩ := orderAtoms_ok.1 ho'
    have hperm : nodes.Perm nodes' := hnodes.trans ((optimisticGathered_perm hp).trans hnodes'.symm)
    have hanti := settles_antisymm lc hw hversions hlengths ((hnodes.map Atom.id).nodup_iff.1 hsound.ids)
    have hsib : siblings lc nodes = siblings lc nodes' := by
      rw [siblings_settled hset, siblings_settled hset']
      exact ForestWalk.children_congr hperm fun a ha b hb =>
        hanti a (hnodes.mem_iff.1 ha) b (hnodes.mem_iff.1 hb)
    rw [hsib, hperm.length_eq] at hwalk
    exact Option.some.inj (hwalk.symm.trans hwalk')

end Model

/-- Whatever the order in which edits of a well-formed list are accepted, the atoms and the content end the same: on the
server, and on the client for edits with operation ids and versions of their own. -/
theorem edits_converge {atoms : List Atom} (hw : Rga.WellFormed atoms) :
    (∀ (values : Enumeration String Atom) (edits edits' : List VersionedEdit), edits.Perm edits' →
      ∀ r r', applyAll values atoms edits = .ok r → applyAll values atoms edits' = .ok r' →
        r.1 = r'.1 ∧ r.2 = r'.2) ∧
    ∀ (lc : Collation) (edits edits' : List Ranked), edits.Perm edits' →
      (edits.map fun e => e.1.clientOperationId).Nodup → (edits.map fun e => e.2).Nodup →
      ∀ out out', optimisticAll lc atoms edits = .ok out → optimisticAll lc atoms edits' = .ok out' →
        out = out' ∧ atomText lc out = atomText lc out' := by
  refine ⟨fun values edits edits' hp r r' h h' => ?_, fun lc edits edits' hp hops hversions out out' h h' => ?_⟩
  · rw [applyAll_congr hw.grounded hp h h']
    exact ⟨rfl, rfl⟩
  · rw [optimisticAll_congr hw hp hops hversions h h']
    exact ⟨rfl, rfl⟩

section Sample

private def sampleAtoms : List Atom := Rga.chain "00000000-0000-4000-8000-000000000001" 1 ["a", "b"] none 0

/-- Delete the first atom and write behind it. -/
private def sampleReplace : VersionedEdit :=
  ⟨"00000000-0000-4000-8000-000000000002", 2, [⟨some "00000000-0000-4000-8000-000000000001:0",
    ["00000000-0000-4000-8000-000000000001:0"], "xy"⟩]⟩

/-- Write behind the first atom. -/
private def sampleInsert : VersionedEdit :=
  ⟨"00000000-0000-4000-8000-000000000003", 3, [⟨some "00000000-0000-4000-8000-000000000001:0", [], "z"⟩]⟩

private def asRanked (e : VersionedEdit) : Ranked := (⟨e.operationId, 1, 1, e.changes⟩, e.version)

private def sampleServer (edits : List VersionedEdit) : List Atom × String :=
  (applyAll (Enumeration.byKey String Atom) sampleAtoms edits).toOption.getD ([], "")

private def sampleClient (edits : List Ranked) : List Atom :=
  (optimisticAll codePointCollation sampleAtoms edits).toOption.getD []

theorem edits_converge_sample :
    (sampleServer [sampleReplace, sampleInsert]).1 = (sampleServer [sampleInsert, sampleReplace]).1 ∧
    (sampleServer [sampleReplace, sampleInsert]).2 = "zxyb" ∧
    sampleClient [asRanked sampleReplace, asRanked sampleInsert] =
      sampleClient [asRanked sampleInsert, asRanked sampleReplace] := by
  have hw : Rga.WellFormed sampleAtoms := Rga.wellFormed_chain _ _ _ _
  obtain ⟨hserver, hclient⟩ := edits_converge hw
  refine ⟨?_, by decide, ?_⟩
  · exact (hserver (Enumeration.byKey String Atom) [sampleReplace, sampleInsert] [sampleInsert, sampleReplace]
      (List.Perm.swap _ _ _) (sampleServer [sampleReplace, sampleInsert])
      (sampleServer [sampleInsert, sampleReplace]) (by decide) (by decide)).1
  · exact (hclient codePointCollation [asRanked sampleReplace, asRanked sampleInsert]
      [asRanked sampleInsert, asRanked sampleReplace] (List.Perm.swap _ _ _) (by decide) (by decide) (sampleClient [asRanked sampleReplace, asRanked sampleInsert])
      (sampleClient [asRanked sampleInsert, asRanked sampleReplace]) (by decide) (by decide)).1

end Sample

end KComms.Documents
