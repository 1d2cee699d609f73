import KComms.Documents.Lineage
import KComms.Documents.DocumentModel

/-!
# The client replays what the server did

`committedApply` takes the client from the atoms, content and title of one version of the server's document to those of
the next one (`committedApply_step`), although it inserts all atoms of an edit before it deletes any and sorts with a
comparator of its own: the keys of a document are distinct, so the ids are never compared.  The replay query pages
through the stored operations without gap (`replayAll_eq`), and a replay from any version therefore passes through all
later versions of the document.
-/

namespace KComms.Documents

open FallibleLoop (bind_ok foldlM_cons_ok foldlM_append_ok)
open Model

/-! ### The two linearisations -/

/-- Atoms that the client accepts from the server. -/
structure Transferable (atoms : List Atom) : Prop where
  wellFormed : Rga.WellFormed atoms
  safe : ∀ a ∈ atoms, a.order ≤ maxSafeInteger
  single : ∀ a ∈ atoms, (codepoints a.text).length = 1
  length : atoms.length ≤ maxAtoms

variable {rt : Runtime} {d : Document} {ops : List Operation} {atoms : List Atom} {line : List Document}
  {documentId : String}

theorem Transferable.of_perm {atoms' : List Atom} (h : Transferable atoms) (hp : atoms.Perm atoms') :
    Transferable atoms' :=
  ⟨h.wellFormed.of_perm hp, fun a ha => h.safe a (hp.mem_iff.2 ha), fun a ha => h.single a (hp.mem_iff.2 ha),
    hp.length_eq ▸ h.length⟩

theorem Transferable.sound (h : Transferable atoms) : Sound atoms := by
  refine ⟨h.wellFormed.ids, h.safe, h.single, fun a ha p hp => ?_⟩
  obtain ⟨b, hb, rfl, -⟩ := h.wellFormed.parents a ha p hp
  exact List.mem_map_of_mem hb

/-- With distinct keys the client sorts siblings as the server does. -/
theorem siblings_eq (lc : Collation) (hnd : (atoms.map Atom.order).Nodup) :
    Model.siblings lc atoms = Rga.siblings atoms := by
  apply ForestWalk.children_eq_of_pairwise
  have hne : atoms.Pairwise fun a b => a.order ≠ b.order := List.pairwise_map.1 hnd
  refine hne.imp fun {a b} hab _ => ?_
  unfold keeps compareAtoms Rga.newerFirst
  rw [if_neg (by omega)]
  omega

/-- On the atoms of a document `orderAtoms` is `Rga.order`. -/
theorem orderAtoms_eq (lc : Collation) (h : Transferable atoms) :
    orderAtoms lc atoms = .ok (Rga.order atoms) := by
  have hwalk := Rga.orderWithin_eq h.wellFormed.ids (le_refl atoms.length)
  rw [Rga.orderWithin_eq_walk, ← siblings_eq lc h.wellFormed.orders] at hwalk
  exact orderAtoms_ok.2 ⟨h.sound, hwalk, h.wellFormed.order_perm.length_eq, h.length⟩

theorem atomText_eq (lc : Collation) (h : Transferable atoms) :
    atomText lc atoms = .ok (Rga.text (Rga.order atoms)) := by
  unfold atomText visibleAtoms
  rw [orderAtoms_eq lc h]
  rfl

theorem Valid.transferable (h : Valid d) (hversion : d.version ≤ 4000) : Transferable d.atoms := by
  refine ⟨h.wellFormed, fun a ha => ?_, h.single, h.atomsBound⟩
  have := h.below a ha
  have hle : (d.version + 1) * Rga.maximumAtoms ≤ 4001 * 32000 := Nat.mul_le_mul_right _ (by omega)
  unfold maxSafeInteger
  omega

/-! ### One operation -/

private theorem foldlM_committedInsert (atoms : List Atom) : ∀ nodes : Nodes,
    (nodes.keys ++ atoms.map Atom.id).Nodup →
      atoms.foldlM committedInsert nodes = .ok (nodes.setAll (atoms.map Rga.keyed)) := by
  induction atoms with
  | nil => intro nodes _; rfl
  | cons a atoms ih =>
    intro nodes hnd
    have hfresh : a.id ∉ nodes.keys := fun hm =>
      (List.nodup_append.1 hnd).2.2 _ hm _ (by simp) rfl
    have hstep : committedInsert nodes a = .ok (nodes.set a.id a) := by
      unfold committedInsert
      rw [if_neg (by simpa using hfresh)]
    rw [foldlM_cons_ok]
    refine ⟨_, hstep, ?_⟩
    rw [ih]
    · rfl
    · rw [OrderedMap.keys_set, if_neg hfresh]
      simpa using hnd

private theorem foldlM_committedDelete (ids : List String) : ∀ nodes : Nodes, (∀ id ∈ ids, id ∈ nodes.keys) →
    ids.foldlM committedDelete nodes = .ok (ids.foldl Rga.markDeleted nodes) := by
  induction ids with
  | nil => intro nodes _; rfl
  | cons id ids ih =>
    intro nodes hids
    have hstep : committedDelete nodes id = .ok (Rga.markDeleted nodes id) := by
      unfold committedDelete
      rw [if_pos (by simpa using hids id (by simp))]
    rw [foldlM_cons_ok]
    refine ⟨_, hstep, ih _ fun i hi => ?_⟩
    rw [Rga.markDeleted, OrderedMap.keys_modify]
    exact hids i (by simp [hi])

/-- Insert atoms with new ids, then mark atoms that are there. -/
theorem committed_values {inserted : List Atom} {deleted : List String}
    (hnd : (atoms.map Atom.id ++ inserted.map Atom.id).Nodup)
    (hdel : ∀ id ∈ deleted, id ∈ (atoms ++ inserted).map Atom.id) :
    ∃ nodes nodes' : Nodes,
      inserted.foldlM committedInsert (OrderedMap.ofList (atoms.map Rga.keyed)) = .ok nodes ∧
      deleted.foldlM committedDelete nodes = .ok nodes' ∧
      nodes'.values = (atoms ++ inserted).map (Rga.mark deleted) := by
  have hatoms := (List.nodup_append.1 hnd).1
  have hnew : ((OrderedMap.ofList (atoms.map Rga.keyed)).keys ++ inserted.map Atom.id).Nodup := by
    rw [Rga.keys_index hatoms]; exact hnd
  obtain ⟨hall, hkeyed⟩ := Rga.keyed_setAll (Rga.keyed_index hatoms) hnew
  rw [Rga.entries_index hatoms, ← List.map_append] at hall
  have hkeys : ((OrderedMap.ofList (atoms.map Rga.keyed)).setAll (inserted.map Rga.keyed)).keys =
      (atoms ++ inserted).map Atom.id := by
    rw [OrderedMap.keys, hall, Rga.map_keyed_fst]
  refine ⟨_, _, foldlM_committedInsert inserted _ hnew,
    foldlM_committedDelete deleted _ fun id hid => by rw [hkeys]; exact hdel id hid, ?_⟩
  rw [OrderedMap.values, Rga.foldl_markDeleted_entries _ hkeyed, hall, List.map_map, List.map_map]
  rfl

/-- The client's document shows the row `d`. -/
structure Mirrors (c : SharedDocument) (d : Document) : Prop where
  id : c.id = d.id
  generation : c.generation = d.generation
  version : c.version = d.version
  atoms : c.atoms = d.atoms
  content : c.content = d.content
  title : c.title = d.title

theorem mirrors_projection (d : Document) : Mirrors (Projector.document d) d := ⟨rfl, rfl, rfl, rfl, rfl, rfl⟩

/-- The payload of an operation gives the next atoms and the next title. -/
theorem Committed.payload {d' : Document} {op : Operation} (h : Committed rt d op d') (hd : Valid d) :
    (d.atoms.map Atom.id ++ op.payload.insertedAtoms.map Atom.id).Nodup ∧
    (∀ id ∈ op.payload.deletedAtomIds, id ∈ (d.atoms ++ op.payload.insertedAtoms).map Atom.id) ∧
    ((d.atoms ++ op.payload.insertedAtoms).map (Rga.mark op.payload.deletedAtomIds)).Perm d'.atoms ∧
    op.payload.title.getD d.title = d'.title := by
  obtain ⟨updated, happly, hatoms, -, htitle⟩ := h.effect
  cases hinput : op.input with
  | create title source => rw [hinput] at happly; simp [applyInput] at happly
  | rename generation baseVersion title =>
    rw [hinput] at happly
    obtain ⟨rfl, hrest⟩ := Prod.mk.inj (Except.ok.inj happly)
    obtain ⟨hpayload, -⟩ := Prod.mk.inj hrest
    rw [← hpayload, hatoms, htitle]
    refine ⟨by simpa using hd.wellFormed.ids, by simp, ?_, rfl⟩
    rw [List.append_nil, Rga.map_mark_nil]
  | edit generation baseVersion changes =>
    rw [hinput] at happly
    obtain ⟨r, hr, happly⟩ := bind_ok.1 happly
    obtain ⟨rfl, hrest⟩ := Prod.mk.inj (Except.ok.inj happly)
    obtain ⟨hpayload, -⟩ := Prod.mk.inj hrest
    have hadm := Rga.apply_spec hr
    have hmark : Rga.mark r.deleted = Rga.mark (Rga.deletedIds changes) :=
      Rga.mark_congr fun id => by rw [hadm.deleted, List.mem_eraseDups]
    rw [← hpayload, hatoms, htitle, hadm.inserted, hmark]
    refine ⟨hadm.fresh, fun id hid => ?_, (hadm.atoms_perm hd.wellFormed hd.below).symm, rfl⟩
    rw [hadm.deleted, List.mem_eraseDups] at hid
    have := hadm.known id hid
    rwa [Rga.map_merged_id, ← List.map_append] at this

/-- Replaying an operation takes the client from one version of the document to the next. -/
theorem committedApply_step (lc : Collation) {d' : Document} {op : Operation} {c : SharedDocument} (hd : Valid d)
    (hm : Mirrors c d) (h : Committed rt d op d') :
    ∃ c', committedApply lc c (Projector.operation op) = .ok c' ∧ Mirrors c' d' := by
  have hd' := valid_committed hd h
  have hversion : d'.version ≤ 4000 := by have := h.early; have := h.version; omega
  have ht' := hd'.transferable hversion
  obtain ⟨hnd, hdel, hperm, htitle⟩ := h.payload hd
  obtain ⟨nodes, nodes', hins, hdels, hvalues⟩ := committed_values hnd hdel
  have horder : orderAtoms lc nodes'.values = .ok d'.atoms := by
    have ht := ht'.of_perm (hvalues ▸ hperm).symm
    rw [orderAtoms_eq lc ht, Rga.order_congr (hvalues ▸ hperm) ht.wellFormed.orders, hd'.ordered]
  have htext : atomText lc d'.atoms = .ok d'.content := by
    rw [atomText_eq lc ht', hd'.ordered, hd'.content]
  unfold committedApply
  rw [if_neg, if_neg, if_neg]
  · refine ⟨_, bind_ok.2 ⟨nodes, by rw [hm.atoms]; exact hins, bind_ok.2 ⟨nodes', hdels, bind_ok.2 ⟨_, horder,
      bind_ok.2 ⟨_, htext, rfl⟩⟩⟩⟩, ?_⟩
    refine ⟨hm.id.trans h.id.symm, hm.generation.trans h.generation'.symm, ?_, rfl, rfl, ?_⟩
    · exact h.operationVersion.trans h.version.symm
    · rw [← htitle, ← hm.title]
      rfl
  · have h1 := h.operationVersion
    have h2 := hm.version
    simp only [Projector.operation]
    omega
  · have h1 := h.operationVersion
    have h2 := hm.version
    simp only [Projector.operation]
    omega
  · simp [Projector.operation, h.documentId, h.generation, hm.id, hm.generation]

/-! ### All operations of a document -/

/-- The rows and the operations of a document carry the same versions, from 1 without gap. -/
theorem Lineage.versions (h : Lineage rt line ops) :
    line.map Document.version = ops.map Operation.version ∧
      ∀ d ∈ line.head?, ops.reverse.map Operation.version = List.range' 1 d.version := by
  induction h with
  | created h valid =>
    rename_i d op
    refine ⟨by simp [h.version, h.operationVersion], fun e he => ?_⟩
    obtain rfl : d = e := by simpa using he
    simp [h.version, h.operationVersion]
  | committed lineage fresh h ih =>
    rename_i d d' op line ops
    obtain ⟨hline, hops⟩ := ih
    refine ⟨?_, fun e he => ?_⟩
    · show d'.version :: (d :: line).map Document.version = op.version :: ops.map Operation.version
      rw [hline, h.version, h.operationVersion]
    obtain rfl : d' = e := by simpa using he
    rw [List.reverse_cons, List.map_append, hops d (by simp), h.version, List.range'_1_concat]
    simp [h.operationVersion, Nat.add_comm]

theorem Lineage.version_le (h : Lineage rt (d :: line) ops) : ∀ op ∈ ops, 1 ≤ op.version ∧ op.version ≤ d.version := by
  intro op hop
  obtain ⟨-, hops⟩ := h.versions
  have hm : op.version ∈ ops.reverse.map Operation.version := List.mem_map_of_mem (by simpa using hop)
  rw [hops d (by simp), List.mem_range'_1] at hm
  omega

theorem Lineage.row_le (h : Lineage rt (d :: line) ops) : ∀ e ∈ d :: line, 1 ≤ e.version ∧ e.version ≤ d.version := by
  intro e he
  have hm : e.version ∈ (d :: line).map Document.version := List.mem_map_of_mem he
  rw [h.versions.1] at hm
  obtain ⟨op, hop, heq⟩ := List.mem_map.1 hm
  have := h.version_le op hop
  omega

/-- A replay from any row of the lineage ends with the latest one. -/
theorem Lineage.replay (lc : Collation) (h : Lineage rt line ops) : ∀ d ∈ line.head?, ∀ d₀ ∈ line, ∀ c₀, Mirrors c₀ d₀ →
      ∃ c, ((ops.reverse.filter fun op => d₀.version < op.version).map Projector.operation).foldlM
        (committedApply lc) c₀ = .ok c ∧ Mirrors c d := by
  induction h with
  | created h valid =>
    rename_i d op
    intro e he d₀ hd₀ c₀ hc₀
    obtain rfl : d = e := by simpa using he
    obtain rfl : d₀ = d := by simpa using hd₀
    exact ⟨c₀, by simp [h.version, h.operationVersion]; rfl, hc₀⟩
  | committed lineage fresh h ih =>
    rename_i d d' op line ops
    intro e he d₀ hd₀ c₀ hc₀
    obtain rfl : d' = e := by simpa using he
    have hold := lineage.version_le
    rcases List.mem_cons.1 hd₀ with rfl | hd₀
    · -- nothing is left to replay
      refine ⟨c₀, ?_, hc₀⟩
      rw [List.filter_eq_nil_iff.2]
      · rfl
      · intro o ho
        rw [List.mem_reverse, List.mem_cons] at ho
        have h1 := h.version
        have h2 := h.operationVersion
        rcases ho with rfl | ho
        · simp; omega
        · have := hold o ho
          simp; omega
    · obtain ⟨c, hc, hm⟩ := ih d (by simp) d₀ hd₀ c₀ hc₀
      obtain ⟨c', hc', hm'⟩ := committedApply_step lc (lineage.valid d (by simp)) hm h
      refine ⟨c', ?_, hm'⟩
      have hlt : d₀.version < op.version := by
        have := lineage.row_le d₀ hd₀
        have := h.operationVersion
        omega
      rw [List.reverse_cons, List.filter_append, List.map_append, foldlM_append_ok]
      refine ⟨c, hc, ?_⟩
      simp only [List.filter_cons, hlt, decide_true, if_true, List.filter_nil, List.map_cons, List.map_nil]
      exact foldlM_cons_ok.2 ⟨c', hc', rfl⟩

/-- Up to any of its rows a lineage is a lineage. -/
theorem Lineage.upTo (h : Lineage rt line ops) :
    ∀ d ∈ line, ∃ rest ops', Lineage rt (d :: rest) ops' ∧
      ops'.reverse = ops.reverse.filter (fun op => op.version ≤ d.version) ∧
      ∀ e ∈ line, e.version ≤ d.version → e ∈ d :: rest := by
  induction h with
  | created h valid =>
    rename_i d op
    intro e he
    obtain rfl : e = d := by simpa using he
    exact ⟨[], [op], .created h valid, by simp [h.version, h.operationVersion], fun e he _ => he⟩
  | committed lineage fresh h ih =>
    rename_i d d' op line ops
    have hall := Lineage.committed lineage fresh h
    intro e he
    rcases List.mem_cons.1 he with rfl | he
    · refine ⟨d :: line, op :: ops, hall, ?_, fun e he _ => he⟩
      symm
      apply List.filter_eq_self.2
      intro o ho
      simpa using (hall.version_le o (List.mem_reverse.1 ho)).2
    · obtain ⟨rest, ops', hl, hops, hrest⟩ := ih e he
      have hlt : e.version < op.version := by
        have := lineage.row_le e he
        have := h.operationVersion
        omega
      refine ⟨rest, ops', hl, ?_, fun e' he' hle => ?_⟩
      · rw [hops, List.reverse_cons, List.filter_append]
        have hnot : ¬ op.version ≤ e.version := by omega
        simp [hnot]
      · rcases List.mem_cons.1 he' with rfl | he'
        · have := h.version
          have := h.operationVersion
          omega
        · exact hrest e' he' hle

/-! ### Paging -/

/-- The pages of the replay query from a version on, asked for one after the other, with a bound on their number. -/
def replayAll (rt : Runtime) (call : Call) (documentId : String) (generation limit : Nat) (s : Store) :
    Nat → Nat → Except DocumentError (List DocumentOperation)
  | 0, _ => .error .invalidDocumentOperation
  | pages + 1, afterVersion => do
    let page ← Documents.replay rt call documentId generation afterVersion limit s
    if page.hasMore then do
      let rest ← replayAll rt call documentId generation limit s pages page.nextAfterVersion
      .ok (page.operations ++ rest)
    else .ok page.operations

/-- Whoever may read a document may also run other queries on it. -/
theorem withDocument_eq {β : Type} {call : Call} {s : Store} (h : withDocument rt call s documentId .ok = .ok d)
    (operation : Document → Except DocumentError β) :
    withDocument rt call s documentId operation = operation d := by
  unfold withDocument at h ⊢
  cases hfind : (rt.uuidCast documentId).bind fun id =>
      s.documents.find? fun d => d.id = id ∧ d.tenantId = call.subject.tenantId with
  | none => rw [hfind] at h; exact absurd h (by simp)
  | some e =>
    rw [hfind] at h
    obtain ⟨_, hlock, h⟩ := bind_ok.1 h
    obtain ⟨_, hdoc, h⟩ := bind_ok.1 h
    obtain ⟨r, hr, h⟩ := bind_ok.1 h
    obtain ⟨_, hclose, h⟩ := bind_ok.1 h
    obtain rfl := Except.ok.inj h
    obtain rfl := Except.ok.inj hr
    simp only [hlock, hdoc, hclose]
    change (operation e >>= fun result => _) = _
    cases operation e <;> rfl

private theorem filter_version_eq_drop : ∀ {n m : Nat},
    ops.map Operation.version = List.range' (m + 1) n → ∀ k, m ≤ k →
      (ops.filter fun op => op.version > k) = ops.drop (k - m) := by
  induction ops with
  | nil => intro n m _ k _; simp
  | cons op ops ih =>
    intro n m h k hk
    cases n with
    | zero => simp at h
    | succ n =>
      rw [List.map_cons, List.range'_succ] at h
      obtain ⟨hv, hrest⟩ := List.cons.inj h
      by_cases hmk : m = k
      · -- from here on every version is above `k`
        subst hmk
        rw [Nat.sub_self, List.drop_zero]
        apply List.filter_eq_self.2
        intro o ho
        have hm : o.version ∈ (op :: ops).map Operation.version := List.mem_map_of_mem ho
        rw [List.map_cons, hv, hrest, List.mem_cons, List.mem_range'_1] at hm
        simp
        omega
      · have hnot : ¬ op.version > k := by omega
        obtain ⟨j, hj⟩ : ∃ j, k - m = j + 1 := ⟨k - m - 1, by omega⟩
        rw [List.filter_cons_of_neg (by simpa using hnot), ih hrest k (by omega), hj, List.drop_succ_cons]
        congr 1
        omega

theorem replay_eq {call : Call} {s : Store} {limit k : Nat} (hread : withDocument rt call s documentId .ok = .ok d)
    (hversions : (s.operationsOf d.id).map Operation.version = List.range' 1 d.version) (hgen : 1 ≤ d.generation)
    (hlimit : 1 ≤ limit) (hlimit' : limit ≤ 100) (hk : k ≤ d.version) :
    ∃ page, Documents.replay rt call documentId d.generation k limit s = .ok page ∧
      page.operations = (((s.operationsOf d.id).drop k).take limit).map Projector.operation ∧
      (page.hasMore = true ↔ k + limit < d.version) ∧ (page.hasMore = true → page.nextAfterVersion = k + limit) := by
  have hrows : (((s.operationsOf d.id).filter fun op => op.version > k).insertionSort
      fun op op' => op.version ≤ op'.version) = (s.operationsOf d.id).drop k := by
    rw [filter_version_eq_drop hversions k (Nat.zero_le k), Nat.sub_zero]
    apply List.Pairwise.insertionSort_eq
    have hsorted : ((s.operationsOf d.id).map Operation.version).Pairwise (· ≤ ·) := by
      rw [hversions]
      exact List.pairwise_le_range'
    exact (List.pairwise_map.1 hsorted).drop
  have hlen : ((s.operationsOf d.id).drop k).length = d.version - k := by
    have := congrArg List.length hversions
    rw [List.length_map, List.length_range'] at this
    rw [List.length_drop, this]
  unfold Documents.replay
  rw [if_pos ⟨hgen, hlimit, hlimit'⟩, withDocument_eq hread, if_neg (by simp), if_neg (by omega)]
  dsimp only
  rw [hrows]
  refine ⟨_, rfl, ?_, ?_, ?_⟩
  · simp only [List.take_take]
    congr 2
    omega
  · simp only [decide_eq_true_eq, List.length_take, hlen]
    omega
  · intro hmore
    simp only [decide_eq_true_eq, List.length_take, hlen] at hmore
    simp only [List.take_take, show min limit (limit + 1) = limit by omega]
    have hget : (((s.operationsOf d.id).drop k).take limit).getLast?.map Operation.version = some (k + limit) := by
      rw [← List.getLast?_map, List.map_take, List.map_drop, hversions, List.drop_range',
        List.take_range'_of_length_ge (by omega), List.getLast?_range', if_neg (by omega)]
      congr 1
      omega
    rw [hget]
    rfl

/-- The pages add up to the stored operations after the version. -/
theorem replayAll_eq {call : Call} {s : Store} {limit : Nat} (hread : withDocument rt call s documentId .ok = .ok d)
    (hversions : (s.operationsOf d.id).map Operation.version = List.range' 1 d.version) (hgen : 1 ≤ d.generation)
    (hlimit : 1 ≤ limit) (hlimit' : limit ≤ 100) (pages : Nat) : ∀ k, k ≤ d.version → d.version - k < pages →
      replayAll rt call documentId d.generation limit s pages k =
        .ok (((s.operationsOf d.id).drop k).map Projector.operation) := by
  induction pages with
  | zero => intro k _ h; omega
  | succ pages ih =>
    intro k hk hpages
    obtain ⟨page, hpage, hops, hmore, hnext⟩ := replay_eq hread hversions hgen hlimit hlimit' hk
    have hlen : (s.operationsOf d.id).length = d.version := by
      have := congrArg List.length hversions
      rwa [List.length_map, List.length_range'] at this
    refine bind_ok.2 ⟨page, hpage, ?_⟩
    by_cases h : page.hasMore = true
    · have hlt := hmore.1 h
      rw [if_pos h, hnext h, ih (k + limit) (by omega) (by omega), hops]
      change Except.ok _ = _
      rw [← List.map_append, ← List.drop_drop, List.take_append_drop]
    · have hle : ¬ k + limit < d.version := fun hlt => h (hmore.2 hlt)
      rw [if_neg h, hops, List.take_of_length_le (by rw [List.length_drop, hlen]; omega)]

/-! ### Agreement along a run -/

theorem Lineage.generation (h : Lineage rt line ops) :
    ∀ d ∈ line, 1 ≤ d.generation := by
  induction h with
  | created h valid => simpa using h.generation'
  | committed lineage fresh h ih =>
    intro d hd
    rcases List.mem_cons.1 hd with rfl | hd
    · rw [h.generation']
      exact ih _ List.mem_cons_self
    · exact ih d hd

/-- The client follows the server.  The stored operations of a document carry the versions from 1 to its own; every
version is on record; from any recorded version a replay of the later operations passes through every recorded version
with the atoms, content and title the server had then; and the pages of the replay query are those operations. -/
theorem committedApply_agrees {rt : Runtime} (lc : Collation) {s : Store} {past : List Store} (h : Run rt (s :: past))
    {d : Document} (hd : d ∈ s.documents) (hlive : d.erasedAt = none) :
    (s.operationsOf d.id).map Operation.version = List.range' 1 d.version ∧
    (∀ v, 1 ≤ v → v ≤ d.version → ∃ e, Recorded (s :: past) e ∧ e.id = d.id ∧ e.version = v) ∧
    (∀ d₀ e, Recorded (s :: past) d₀ → d₀.id = d.id → Recorded (s :: past) e → e.id = d.id →
      d₀.version ≤ e.version → ∃ c,
        (((s.operationsOf d.id).filter fun op => d₀.version < op.version ∧ op.version ≤ e.version).map
          Projector.operation).foldlM (committedApply lc) (Projector.document d₀) = .ok c ∧
        c.version = e.version ∧ c.atoms = e.atoms ∧ c.content = e.content ∧ c.title = e.title) ∧
    ∀ call documentId limit k pages, withDocument rt call s documentId .ok = .ok d → 1 ≤ limit → limit ≤ 100 →
      k ≤ d.version → d.version - k < pages →
      replayAll rt call documentId d.generation limit s pages k =
        .ok (((s.operationsOf d.id).filter fun op => k < op.version).map Projector.operation) := by
  obtain ⟨t, past', heq, hc⟩ := h.consistent
  obtain ⟨rfl, rfl⟩ := List.cons.inj heq
  obtain ⟨rows, ops, hh, hcur⟩ := hc.traced d hd
  obtain ⟨⟨line, rfl⟩, rfl, hall⟩ := hcur hlive
  have hline := hh.lineage
  have hrec : ∀ e, (Recorded (s :: past) e ∧ e.id = d.id) ↔ e ∈ d :: line := fun e => by
    rw [← hh.rows]
    exact ⟨fun he => ⟨he.1, he.2, hall e he.1 he.2⟩, fun he => ⟨he.1, he.2.1⟩⟩
  obtain ⟨hrows, hops⟩ := hline.versions
  have hversions : (s.operationsOf d.id).map Operation.version = List.range' 1 d.version := by
    have := hops d (by simp)
    rwa [List.reverse_reverse] at this
  refine ⟨hversions, ?_, ?_, ?_⟩
  · intro v h1 hv
    have hm : v ∈ (d :: line).map Document.version := by
      rw [hrows, List.map_reverse, hversions, List.mem_reverse, List.mem_range'_1]
      omega
    obtain ⟨e, he, rfl⟩ := List.mem_map.1 hm
    obtain ⟨her, hid⟩ := (hrec e).2 he
    exact ⟨e, her, hid, rfl⟩
  · intro d₀ e hd₀ hid₀ he hid hle
    have hmem₀ := (hrec d₀).1 ⟨hd₀, hid₀⟩
    have hmem := (hrec e).1 ⟨he, hid⟩
    obtain ⟨rest, ops', hl, hops', hrest⟩ := hline.upTo e hmem
    obtain ⟨c, hc, hm⟩ := hl.replay lc e (by simp) d₀ (hrest d₀ hmem₀ hle) _ (mirrors_projection d₀)
    refine ⟨c, ?_, hm.version, hm.atoms, hm.content, hm.title⟩
    rw [hops', List.reverse_reverse, List.filter_filter] at hc
    simpa using hc
  · intro call documentId limit k pages hread h1 h2 hk hpages
    have hgen := hline.generation d (by simp)
    rw [replayAll_eq hread hversions hgen h1 h2 pages k hk hpages]
    have hdrop := filter_version_eq_drop hversions k (Nat.zero_le k)
    rw [Nat.sub_zero] at hdrop
    rw [← hdrop]

/-- The sign of a comparison by code points. -/
private def compareCodes (a b : List Nat) : Int := if a ≤ b then if b ≤ a then 0 else -1 else 1

private theorem compareCodes_le {a b : List Nat} : compareCodes a b ≤ 0 ↔ a ≤ b := by
  unfold compareCodes
  by_cases h : a ≤ b
  · by_cases h' : b ≤ a <;> simp [h, h']
  · simp [h]

def codePointCollation : Collation where
  compare a b := compareCodes (a.toList.map Char.toNat) (b.toList.map Char.toNat)
  total a b := by
    rw [compareCodes_le, compareCodes_le]
    exact le_total _ _
  trans a b c := by
    rw [compareCodes_le, compareCodes_le, compareCodes_le]
    exact le_trans

theorem committedApply_agrees_sample : ∃ d ∈ sampleStore2.documents, ∃ d₀ ∈ sampleStore1.documents, ∃ c,
    (((sampleStore2.operationsOf d.id).filter fun op => d₀.version < op.version ∧ op.version ≤ d.version).map
      Projector.operation).foldlM (committedApply codePointCollation) (Projector.document d₀) = .ok c ∧
    c.version = 2 ∧ c.atoms = d.atoms ∧ c.content = "i!" ∧ c.title = d.title := by
  have hd : ∃ d ∈ sampleStore2.documents, d.erasedAt = none ∧ d.version = 2 ∧ d.content = "i!" ∧
      ∃ d₀ ∈ sampleStore1.documents, d₀.id = d.id ∧ d₀.version = 1 := by decide +kernel
  obtain ⟨d, hd, hlive, hversion, hcontent, d₀, hd₀, hid, hversion₀⟩ := hd
  have hrec : Recorded [sampleStore2, sampleStore1, Store.empty] d := ⟨sampleStore2, by simp, hd⟩
  have hrec₀ : Recorded [sampleStore2, sampleStore1, Store.empty] d₀ := ⟨sampleStore1, by simp, hd₀⟩
  obtain ⟨c, hc, hv, ha, hct, ht⟩ := (committedApply_agrees codePointCollation sampleRun hd hlive).2.2.1 d₀ d hrec₀ hid
    hrec rfl (by omega)
  exact ⟨d, hd, d₀, hd₀, c, hc, hv.trans hversion, ha, hct.trans hcontent, ht⟩

end KComms.Documents
