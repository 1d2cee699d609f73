import Mathlib.Data.String.Basic
import KComms.Documents.Effect
import KComms.Documents.RgaEdit

/-!
# The lineage of a document

Along a run a document that is not erased has a lineage: the rows it has had, one per version, each explained by the
stored operation of its version (`Run.consistent`).  The representation invariant `Valid` of a document follows by
induction along the lineage.
-/

namespace KComms.Documents

open FallibleLoop (bind_ok)

/-! ### The representation invariant -/

/-- The representation invariant of a document. -/
structure Valid (d : Document) : Prop where
  wellFormed : Rga.WellFormed d.atoms
  below : Rga.Below (d.version + 1) d.atoms
  ordered : Rga.order d.atoms = d.atoms
  single : ∀ a ∈ d.atoms, (codepoints a.text).length = 1
  content : d.content = Rga.text d.atoms
  atomsBound : d.atoms.length ≤ Rga.maximumAtoms
  visibleBound : (Rga.visible d.atoms).length ≤ Rga.maximumVisibleAtoms
  contentBound : d.content.utf8ByteSize ≤ Rga.maximumContentBytes

variable {rt : Runtime} {s : Store} {d : Document} {op : Operation} {stores : List Store} {line : List Document}
  {ops : List Operation} {d' : Document} {id operationId : String} {s' : Store} {documents : List Document}

theorem length_codepoints {text c : String} (h : c ∈ codepoints text) : (codepoints c).length = 1 := by
  obtain ⟨x, -, rfl⟩ := List.mem_map.1 h
  simp [codepoints]

theorem join_codepoints (text : String) : String.join (codepoints text) = text := by
  apply String.toList_inj.1
  have key : ∀ l : List Char, (String.join (l.map String.singleton)).toList = l := by
    intro l
    induction l with
    | nil => rfl
    | cons c l ih => simp [String.join_cons, ih]
  exact key text.toList

/-- The text of atoms that are one code point each has as many code points as there are visible atoms. -/
theorem length_codepoints_text {atoms : List Atom} (h : ∀ a ∈ atoms, (codepoints a.text).length = 1) :
    (codepoints (Rga.text atoms)).length = (Rga.visible atoms).length := by
  have key : ∀ l : List Atom, (∀ a ∈ l, (codepoints a.text).length = 1) →
      (codepoints (String.join (l.map Atom.text))).length = l.length := by
    intro l
    induction l with
    | nil => intro _; rfl
    | cons a l ih =>
      intro hl
      have h1 := hl a (by simp)
      have h2 := ih fun b hb => hl b (by simp [hb])
      simp only [codepoints, List.length_map] at h1 h2 ⊢
      simp only [List.map_cons, String.join_cons, String.toList_append, List.length_append, h1, h2, List.length_cons]
      omega
  exact key _ fun a ha => h a (List.mem_filter.1 ha).1

private theorem foldl_copyAtom (operationId : String) (texts : List String) : ∀ (cursor : Nat) (atoms anchor),
    (((texts.zipIdx cursor).foldl (copyAtom operationId) (atoms, anchor)).1).reverse =
      atoms.reverse ++ Rga.chain operationId 1 texts anchor cursor := by
  induction texts with
  | nil => intro cursor atoms anchor; simp [Rga.chain]
  | cons text texts ih =>
    intro cursor atoms anchor
    rw [List.zipIdx_cons, List.foldl_cons, copyAtom, ih]
    simp [Rga.chain, Rga.maximumAtoms]

/-- A copy is one chain of atoms. -/
theorem copyAtoms_eq (content operationId : String) :
    copyAtoms content operationId = Rga.chain operationId 1 (codepoints content) none 0 := by
  unfold copyAtoms
  rw [foldl_copyAtom, List.reverse_nil, List.nil_append]

private theorem visible_chain (operationId : String) (version : Nat) (texts : List String) (anchor : Option String)
    (cursor : Nat) : Rga.visible (Rga.chain operationId version texts anchor cursor) =
      Rga.chain operationId version texts anchor cursor := by
  apply List.filter_eq_self.2
  intro a ha
  obtain ⟨_, -, -, -, -, hdel, -⟩ := Rga.mem_chain ha
  simp [hdel]

/-- A copied text is a valid document. -/
theorem valid_copy (hatoms : d.atoms = copyAtoms d.content operationId) (hversion : d.version = 1)
    (hlength : (codepoints d.content).length ≤ Rga.maximumVisibleAtoms)
    (hbytes : d.content.utf8ByteSize ≤ Rga.maximumContentBytes) : Valid d := by
  rw [copyAtoms_eq] at hatoms
  have hvisible := visible_chain operationId 1 (codepoints d.content) none 0
  have hlen := Rga.length_chain operationId 1 (codepoints d.content) none 0
  unfold Rga.maximumVisibleAtoms at hlength
  refine ⟨?_, ?_, ?_, ?_, ?_, ?_, ?_, hbytes⟩
  · rw [hatoms]; exact Rga.wellFormed_chain _ _ _ _
  · intro a ha
    rw [hatoms] at ha
    obtain ⟨i, -, hi, -, horder, -, -⟩ := Rga.mem_chain ha
    rw [horder, hversion]
    unfold Rga.maximumAtoms
    omega
  · rw [hatoms]; exact Rga.order_chain _ _ _ _
  · intro a ha
    rw [hatoms] at ha
    obtain ⟨_, -, -, -, -, -, htext⟩ := Rga.mem_chain ha
    exact length_codepoints htext
  · rw [Rga.text, hatoms, hvisible, Rga.chain_texts, join_codepoints]
  · rw [hatoms, hlen]
    unfold Rga.maximumAtoms
    omega
  · rw [hatoms, hvisible, hlen]
    exact hlength

theorem valid_empty (hatoms : d.atoms = []) (hcontent : d.content = "") : Valid d := by
  refine ⟨?_, ?_, ?_, ?_, ?_, ?_, ?_, ?_⟩
  · rw [hatoms]; exact Rga.wellFormed_nil
  · intro a ha; simp [hatoms] at ha
  · rw [hatoms]; rfl
  · simp [hatoms]
  · rw [hatoms, hcontent]; rfl
  · simp [hatoms]
  · simp [hatoms, Rga.visible]
  · rw [hcontent]; decide

/-- An accepted edit of a valid document gives a valid document. -/
theorem valid_apply {values : Enumeration String Atom} {changes : List Change} {r : Rga.Applied} (hd : Valid d)
    (h : Rga.apply values d.atoms changes operationId (d.version + 1) = .ok r) (hatoms : d'.atoms = r.atoms)
    (hcontent : d'.content = r.content) (hversion : d'.version = d.version + 1) :
    Valid d' := by
  have hadm := Rga.apply_spec h
  have hperm := hadm.atoms_perm hd.wellFormed hd.below
  have hwf := hadm.wellFormed_merged hd.wellFormed hd.below
  refine ⟨?_, ?_, ?_, ?_, ?_, ?_, ?_, ?_⟩
  · rw [hatoms]; exact hwf.of_perm hperm.symm
  · rw [hatoms, hversion]; exact (hadm.below_merged hd.below).of_perm hperm.symm
  · rw [hatoms, hadm.atoms_eq hd.wellFormed hd.below]; exact hwf.order_order
  · intro a ha
    rw [hatoms, hperm.mem_iff] at ha
    obtain ⟨b, hb, rfl⟩ := List.mem_map.1 ha
    rw [Rga.mark_text]
    rcases List.mem_append.1 hb with hb | hb
    · exact hd.single b hb
    · obtain ⟨_, -, -, -, -, -, change, -, htext⟩ := Rga.mem_insertedAtoms hb
      exact length_codepoints htext
  · rw [hatoms, hcontent]; exact hadm.content
  · rw [hatoms, hperm.length_eq]; exact hadm.atomsBound
  · rw [hatoms]; exact hadm.visibleBound
  · rw [hcontent]; exact hadm.contentBound

theorem valid_committed (hd : Valid d) (h : Committed rt d op d') : Valid d' := by
  obtain ⟨updated, happly, hatoms, hcontent, -⟩ := h.effect
  cases hinput : op.input with
  | create title source => rw [hinput] at happly; simp [applyInput] at happly
  | rename generation baseVersion title =>
    rw [hinput] at happly
    obtain ⟨rfl, -⟩ := Prod.mk.inj (Except.ok.inj happly)
    have hbelow : Rga.Below (d'.version + 1) d.atoms := by
      intro a ha
      have := hd.below a ha
      rw [h.version, Nat.succ_mul]
      omega
    simp only at hatoms hcontent
    refine ⟨?_, ?_, ?_, ?_, ?_, ?_, ?_, ?_⟩
    · rw [hatoms]; exact hd.wellFormed
    · rw [hatoms]; exact hbelow
    · rw [hatoms]; exact hd.ordered
    · rw [hatoms]; exact hd.single
    · rw [hatoms, hcontent]; exact hd.content
    · rw [hatoms]; exact hd.atomsBound
    · rw [hatoms]; exact hd.visibleBound
    · rw [hcontent]; exact hd.contentBound
  | edit generation baseVersion changes =>
    rw [hinput] at happly
    obtain ⟨r, hr, happly⟩ := bind_ok.1 happly
    obtain ⟨rfl, -⟩ := Prod.mk.inj (Except.ok.inj happly)
    exact valid_apply hd hr hatoms hcontent h.version

/-! ### The lineage along a run -/

/-- The rows a document has had and its operations, the latest first. -/
inductive Lineage (rt : Runtime) : List Document → List Operation → Prop
  | created {d : Document} {op : Operation} (h : Created d op) (valid : Valid d) : Lineage rt [d] [op]
  | committed {d d' : Document} {op : Operation} {line : List Document} {ops : List Operation}
      (lineage : Lineage rt (d :: line) ops) (fresh : ∀ o ∈ ops, o.clientOperationId ≠ op.clientOperationId)
      (h : Committed rt d op d') : Lineage rt (d' :: d :: line) (op :: ops)

theorem Lineage.valid (h : Lineage rt line ops) :
    ∀ d ∈ line, Valid d := by
  induction h with
  | created h valid => simpa using valid
  | committed lineage fresh h ih =>
    intro d hd
    rcases List.mem_cons.1 hd with rfl | hd
    · exact valid_committed (ih _ List.mem_cons_self) h
    · exact ih d hd

/-- A row that one of the stores holds. -/
def Recorded (stores : List Store) (d : Document) : Prop := ∃ s ∈ stores, d ∈ s.documents

/-- An operation that one of the stores holds. -/
def Logged (stores : List Store) (op : Operation) : Prop := ∃ s ∈ stores, op ∈ s.operations

theorem recorded_cons :
    Recorded (s :: stores) d ↔ d ∈ s.documents ∨ Recorded stores d := by
  simp [Recorded]

theorem logged_cons :
    Logged (s :: stores) op ↔ op ∈ s.operations ∨ Logged stores op := by
  simp [Logged]

/-- All that the stores have held of a document before its erasure. -/
structure History (rt : Runtime) (stores : List Store) (id : String) (line : List Document) (ops : List Operation) :
    Prop where
  lineage : Lineage rt line ops
  rows : ∀ d, (Recorded stores d ∧ d.id = id ∧ d.erasedAt = none) ↔ d ∈ line
  logged : ∀ op, (Logged stores op ∧ op.documentId = id) ↔ op ∈ ops

/-- The history of a live document ends with its row. -/
structure Current (s : Store) (past : List Store) (d : Document) (line : List Document) (ops : List Operation) :
    Prop where
  head : ∃ rest, line = d :: rest
  operations : ops = (s.operationsOf d.id).reverse
  live : ∀ e, Recorded (s :: past) e → e.id = d.id → e.erasedAt = none

/-- The invariant of a run with the latest store `s`. -/
structure Consistent (rt : Runtime) (s : Store) (past : List Store) : Prop where
  ids : (s.documents.map Document.id).Nodup
  owned : ∀ op, Logged (s :: past) op → op.documentId ∈ s.documents.map Document.id
  kept : ∀ d, Recorded (s :: past) d → d.id ∈ s.documents.map Document.id
  erased : ∀ d ∈ s.documents, d.erasedAt ≠ none → d.atoms = [] ∧ d.content = ""
  traced : ∀ d ∈ s.documents, ∃ line ops, History rt (s :: past) d.id line ops ∧
    (d.erasedAt = none → Current s past d line ops)

section Preservation

variable {past : List Store}

/-- A store that holds nothing new of a document leaves its history as it is. -/
theorem History.extend (h : History rt stores id line ops)
    (hrows : ∀ e ∈ s'.documents, e.id = id → e.erasedAt = none → Recorded stores e)
    (hops : ∀ op ∈ s'.operations, op.documentId = id → Logged stores op) : History rt (s' :: stores) id line ops := by
  refine ⟨h.lineage, fun e => ?_, fun op => ?_⟩
  · rw [recorded_cons, ← h.rows]
    constructor
    · rintro ⟨he | he, hid, hlive⟩
      · exact ⟨hrows e he hid hlive, hid, hlive⟩
      · exact ⟨he, hid, hlive⟩
    · exact fun he => ⟨Or.inr he.1, he.2⟩
  · rw [logged_cons, ← h.logged]
    constructor
    · rintro ⟨ho | ho, hid⟩
      · exact ⟨hops op ho hid, hid⟩
      · exact ⟨ho, hid⟩
    · exact fun ho => ⟨Or.inr ho.1, ho.2⟩

theorem Consistent.valid (h : Consistent rt s past) (hd : d ∈ s.documents) (hlive : d.erasedAt = none) :
    Valid d := by
  obtain ⟨line, ops, hh, -⟩ := h.traced d hd
  exact hh.lineage.valid d ((hh.rows d).1 ⟨recorded_cons.2 (Or.inl hd), rfl, hlive⟩)

theorem Consistent.unique (h : Consistent rt s past) {e : Document} (hd : d ∈ s.documents) (he : e ∈ s.documents)
    (hid : d.id = e.id) : d = e := List.inj_on_of_nodup_map h.ids hd he hid

theorem Consistent.unchanged (h : Consistent rt s past) : Consistent rt s (s :: past) := by
  have hrec : ∀ e, Recorded (s :: s :: past) e ↔ Recorded (s :: past) e := by
    intro e
    rw [recorded_cons, recorded_cons]
    tauto
  have hlog : ∀ op, Logged (s :: s :: past) op ↔ Logged (s :: past) op := by
    intro op
    rw [logged_cons, logged_cons]
    tauto
  refine ⟨h.ids, fun op ho => h.owned op ((hlog op).1 ho), fun d hd => h.kept d ((hrec d).1 hd), h.erased,
    fun d hd => ?_⟩
  obtain ⟨line, ops, hh, hcur⟩ := h.traced d hd
  refine ⟨line, ops, hh.extend (fun e he _ _ => recorded_cons.2 (Or.inl he)) fun o ho _ => logged_cons.2 (Or.inl ho),
    fun hlive => ?_⟩
  obtain ⟨hhead, hops, hall⟩ := hcur hlive
  exact ⟨hhead, hops, fun e he => hall e ((hrec e).1 he)⟩

private theorem operationsOf_append_of_ne (hne : op.documentId ≠ id) :
    (Store.mk documents (s.operations ++ [op])).operationsOf id = s.operationsOf id := by
  simp [Store.operationsOf, hne]

private theorem operationsOf_append_of_eq (heq : op.documentId = id) :
    (Store.mk documents (s.operations ++ [op])).operationsOf id = s.operationsOf id ++ [op] := by
  simp [Store.operationsOf, heq]

/-- A step that neither touches the row nor the operations of a document keeps what is known of it. -/
theorem Consistent.untouched (h : Consistent rt s past) {e : Document} (he : e ∈ s.documents)
    (hrows : ∀ e' ∈ s'.documents, e'.id = e.id → e' = e) (hops : s'.operationsOf e.id = s.operationsOf e.id) :
    ∃ line ops, History rt (s' :: s :: past) e.id line ops ∧ (e.erasedAt = none → Current s' (s :: past) e line ops) := by
  obtain ⟨line, ops, hh, hcur⟩ := h.traced e he
  refine ⟨line, ops, hh.extend (fun e' he' hid _ => ?_) (fun o ho hid => ?_), fun hlive => ?_⟩
  · rw [hrows e' he' hid]
    exact recorded_cons.2 (Or.inl he)
  · have hm : o ∈ s'.operationsOf e.id := List.mem_filter.2 ⟨ho, by simpa using hid⟩
    rw [hops] at hm
    exact logged_cons.2 (Or.inl (List.mem_filter.1 hm).1)
  · obtain ⟨hhead, hold, hall⟩ := hcur hlive
    refine ⟨hhead, hops ▸ hold, fun e' he' hid => ?_⟩
    rcases recorded_cons.1 he' with he' | he'
    · rw [hrows e' he' hid]
      exact hlive
    · exact hall e' he' hid

theorem Consistent.created (h : Consistent rt s past) (hfresh : d.id ∉ s.documents.map Document.id) (hc : Created d op)
    (hcontent : d.content = "" ∨ ∃ source ∈ s.documents, source.erasedAt = none ∧ d.content = source.content) :
    Consistent rt ⟨s.documents ++ [d], s.operations ++ [op]⟩ (s :: past) := by
  have hvalid : Valid d := by
    obtain ⟨clientId, hatoms⟩ := hc.atoms
    rcases hcontent with hcontent | ⟨source, hmem, hlive, hcontent⟩
    · refine valid_copy hatoms hc.version ?_ ?_ <;> rw [hcontent] <;> decide
    · have hs := h.valid hmem hlive
      refine valid_copy hatoms hc.version ?_ ?_
      · rw [hcontent, hs.content, length_codepoints_text hs.single]
        exact hs.visibleBound
      · rw [hcontent]
        exact hs.contentBound
  have hnorow : ∀ e, Recorded (s :: past) e → e.id ≠ d.id := fun e he heq => hfresh (heq ▸ h.kept e he)
  have hnoop : ∀ o, Logged (s :: past) o → o.documentId ≠ d.id := fun o ho heq => hfresh (heq ▸ h.owned o ho)
  have hnone : s.operationsOf d.id = [] := by
    apply List.filter_eq_nil_iff.2
    intro o ho
    simpa using hnoop o (logged_cons.2 (Or.inl ho))
  have hrec : ∀ e, Recorded (⟨s.documents ++ [d], s.operations ++ [op]⟩ :: s :: past) e ↔
      e = d ∨ Recorded (s :: past) e := by
    intro e
    simp only [recorded_cons, List.mem_append, List.mem_singleton]
    tauto
  have hlog : ∀ o, Logged (⟨s.documents ++ [d], s.operations ++ [op]⟩ :: s :: past) o ↔
      o = op ∨ Logged (s :: past) o := by
    intro o
    simp only [logged_cons, List.mem_append, List.mem_singleton]
    tauto
  refine ⟨?_, ?_, ?_, ?_, ?_⟩
  · rw [List.map_append, List.nodup_append]
    refine ⟨h.ids, List.nodup_singleton _, fun a ha b hb hab => hfresh ?_⟩
    obtain rfl : b = d.id := by simpa using hb
    exact hab ▸ ha
  · intro o ho
    rw [List.map_append, List.mem_append]
    rcases (hlog o).1 ho with rfl | ho
    · exact Or.inr (by simp [hc.documentId])
    · exact Or.inl (h.owned o ho)
  · intro e he
    rw [List.map_append, List.mem_append]
    rcases (hrec e).1 he with rfl | he
    · exact Or.inr (by simp)
    · exact Or.inl (h.kept e he)
  · intro e he hne
    rcases List.mem_append.1 he with he | he
    · exact h.erased e he hne
    · obtain rfl := List.mem_singleton.1 he
      exact absurd hc.live hne
  · intro e he
    rcases List.mem_append.1 he with he | he
    · -- an older document: the new row and the new operation are not its own
      have hne : e.id ≠ d.id := hnorow e (recorded_cons.2 (Or.inl he))
      refine h.untouched he (fun e' he' hid => ?_) (operationsOf_append_of_ne (by rw [hc.documentId]; exact hne.symm))
      rcases List.mem_append.1 he' with he' | he'
      · exact h.unique he' he hid
      · obtain rfl := List.mem_singleton.1 he'
        exact absurd hid.symm hne
    · obtain rfl := List.mem_singleton.1 he
      refine ⟨[e], [op], ⟨.created hc hvalid, fun e' => ?_, fun o => ?_⟩, fun _ => ⟨⟨[], rfl⟩, ?_, fun e' he' hid => ?_⟩⟩
      · rw [hrec, List.mem_singleton]
        constructor
        · rintro ⟨rfl | he', hid, -⟩
          · rfl
          · exact absurd hid (hnorow e' he')
        · rintro rfl
          exact ⟨Or.inl rfl, rfl, hc.live⟩
      · rw [hlog, List.mem_singleton]
        constructor
        · rintro ⟨rfl | ho, hid⟩
          · rfl
          · exact absurd hid (hnoop o ho)
        · rintro rfl
          exact ⟨Or.inl rfl, hc.documentId⟩
      · rw [operationsOf_append_of_eq hc.documentId, hnone]
        rfl
      · rcases (hrec e').1 he' with rfl | he'
        · exact hc.live
        · exact absurd hid (hnorow e' he')

theorem Consistent.committed (h : Consistent rt s past) (hd : d ∈ s.documents) (hlive : d.erasedAt = none)
    (hfresh : ∀ o ∈ s.operationsOf d.id, o.clientOperationId ≠ op.clientOperationId) (hc : Committed rt d op d') :
    Consistent rt ⟨s.documents.map fun e => if e.id = d.id then d' else e, s.operations ++ [op]⟩ (s :: past) := by
  have hmem : ∀ e, e ∈ (s.documents.map fun e => if e.id = d.id then d' else e) ↔
      e = d' ∨ e ∈ s.documents ∧ e.id ≠ d.id := by
    intro e
    rw [List.mem_map]
    constructor
    · rintro ⟨e', he', rfl⟩
      by_cases hid : e'.id = d.id
      · simp [hid]
      · simp [hid, he']
    · rintro (rfl | ⟨he, hid⟩)
      · exact ⟨d, hd, by simp⟩
      · exact ⟨e, he, by simp [hid]⟩
  have hids : (s.documents.map fun e => if e.id = d.id then d' else e).map Document.id =
      s.documents.map Document.id := by
    rw [List.map_map]
    apply List.map_congr_left
    intro e _
    by_cases hid : e.id = d.id <;> simp [hid, hc.id]
  have hrec : ∀ e, Recorded (⟨s.documents.map fun e => if e.id = d.id then d' else e, s.operations ++ [op]⟩ ::
      s :: past) e ↔ e = d' ∨ Recorded (s :: past) e := by
    intro e
    simp only [recorded_cons, hmem]
    tauto
  have hlog : ∀ o, Logged (⟨s.documents.map fun e => if e.id = d.id then d' else e, s.operations ++ [op]⟩ ::
      s :: past) o ↔ o = op ∨ Logged (s :: past) o := by
    intro o
    simp only [logged_cons, List.mem_append, List.mem_singleton]
    tauto
  refine ⟨hids ▸ h.ids, ?_, ?_, ?_, ?_⟩
  · intro o ho
    rw [hids]
    rcases (hlog o).1 ho with rfl | ho
    · rw [hc.documentId]
      exact List.mem_map_of_mem hd
    · exact h.owned o ho
  · intro e he
    rw [hids]
    rcases (hrec e).1 he with rfl | he
    · rw [hc.id]
      exact List.mem_map_of_mem hd
    · exact h.kept e he
  · intro e he hne
    rcases (hmem e).1 he with rfl | ⟨he, -⟩
    · exact absurd hc.live hne
    · exact h.erased e he hne
  · intro e he
    rcases (hmem e).1 he with rfl | ⟨he, hid⟩
    · obtain ⟨line, ops, hh, hcur⟩ := h.traced d hd
      obtain ⟨⟨rest, rfl⟩, rfl, hall⟩ := hcur hlive
      rw [hc.id]
      refine ⟨e :: d :: rest, op :: (s.operationsOf d.id).reverse,
        ⟨.committed hh.lineage (by simpa using hfresh) hc, fun e' => ?_, fun o => ?_⟩,
        fun _ => ⟨⟨_, rfl⟩, ?_, fun e' he' hid => ?_⟩⟩
      · rw [hrec, List.mem_cons, ← hh.rows]
        constructor
        · rintro ⟨rfl | he', hid⟩
          · exact Or.inl rfl
          · exact Or.inr ⟨he', hid⟩
        · rintro (rfl | he')
          · exact ⟨Or.inl rfl, hc.id, hc.live⟩
          · exact ⟨Or.inr he'.1, he'.2⟩
      · rw [hlog, List.mem_cons, ← hh.logged]
        constructor
        · rintro ⟨rfl | ho, hid⟩
          · exact Or.inl rfl
          · exact Or.inr ⟨ho, hid⟩
        · rintro (rfl | ho)
          · exact ⟨Or.inl rfl, hc.documentId⟩
          · exact ⟨Or.inr ho.1, ho.2⟩
      · rw [hc.id, operationsOf_append_of_eq hc.documentId, List.reverse_append]
        rfl
      · rcases (hrec e').1 he' with rfl | he'
        · exact hc.live
        · exact hall e' he' (hid.trans hc.id)
    · refine h.untouched he (fun e' he' hid' => ?_) (operationsOf_append_of_ne (by rw [hc.documentId]; exact hid.symm))
      rcases (hmem e').1 he' with rfl | ⟨he', -⟩
      · exact absurd (hid'.symm.trans hc.id) hid
      · exact h.unique he' he hid'

theorem Consistent.erase (h : Consistent rt s past) (ids : List String) (now : Nat) :
    Consistent rt ⟨s.documents.map fun e => if e.id ∈ ids then e.erased now else e,
      s.operations.filter fun op => op.documentId ∉ ids⟩ (s :: past) := by
  have hids : (s.documents.map fun e => if e.id ∈ ids then e.erased now else e).map Document.id =
      s.documents.map Document.id := by
    rw [List.map_map]
    apply List.map_congr_left
    intro e _
    by_cases hid : e.id ∈ ids <;> simp [hid, Document.erased]
  have hmem : ∀ e ∈ (s.documents.map fun e => if e.id ∈ ids then e.erased now else e),
      (∃ e' ∈ s.documents, e'.id ∈ ids ∧ e = e'.erased now) ∨ e ∈ s.documents ∧ e.id ∉ ids := by
    intro e he
    obtain ⟨e', he', rfl⟩ := List.mem_map.1 he
    by_cases hid : e'.id ∈ ids
    · exact Or.inl ⟨e', he', hid, by simp [hid]⟩
    · exact Or.inr (by simp [hid, he'])
  refine ⟨hids ▸ h.ids, ?_, ?_, ?_, ?_⟩
  · intro o ho
    rw [hids]
    rcases logged_cons.1 ho with ho | ho
    · exact h.owned o (logged_cons.2 (Or.inl (List.mem_filter.1 ho).1))
    · exact h.owned o ho
  · intro e he
    rw [hids]
    rcases recorded_cons.1 he with he | he
    · rw [← hids]
      exact List.mem_map_of_mem he
    · exact h.kept e he
  · intro e he hne
    rcases hmem e he with ⟨e', -, -, rfl⟩ | ⟨he, -⟩
    · exact ⟨rfl, rfl⟩
    · exact h.erased e he hne
  · intro e he
    rcases hmem e he with ⟨e', he', hid', rfl⟩ | ⟨hes, hid⟩
    · -- the history of an erased document ends here
      obtain ⟨line, ops, hh, -⟩ := h.traced e' he'
      refine ⟨line, ops, hh.extend (fun e'' he'' hid hlive => ?_) (fun o ho _ => ?_), fun hlive => by cases hlive⟩
      · rcases hmem e'' he'' with ⟨e₀, -, -, rfl⟩ | ⟨-, hnot⟩
        · cases hlive
        · exact absurd (hid ▸ hid') hnot
      · exact logged_cons.2 (Or.inl (List.mem_filter.1 ho).1)
    · refine h.untouched hes (fun e' he' hid' => ?_) ?_
      · rcases hmem e' he' with ⟨e₀, -, h₀, rfl⟩ | ⟨he', -⟩
        · exact absurd (show e₀.id = e.id from hid') fun heq => hid (heq ▸ h₀)
        · exact h.unique he' hes hid'
      · simp only [Store.operationsOf, List.filter_filter]
        apply List.filter_congr
        intro o _
        by_cases ho : o.documentId = e.id <;> simp [ho, hid]

theorem Consistent.step (h : Consistent rt s past) (he : Effect rt s s') : Consistent rt s' (s :: past) := by
  cases he with
  | unchanged => exact h.unchanged
  | created hfresh hc hcontent => exact h.created hfresh hc hcontent
  | committed hd hlive hfresh hc => exact h.committed hd hlive hfresh hc
  | erased ids now => exact h.erase ids now

end Preservation

theorem consistent_empty (rt : Runtime) : Consistent rt Store.empty [] :=
  ⟨List.nodup_nil, by simp [Logged, Store.empty], by simp [Recorded, Store.empty], by simp [Store.empty],
    by simp [Store.empty]⟩

theorem Lineage.nodup_clients (h : Lineage rt line ops) :
    (ops.map Operation.clientOperationId).Nodup := by
  induction h with
  | created _ _ => simp
  | committed lineage fresh h ih =>
    rw [List.map_cons, List.nodup_cons]
    refine ⟨fun hm => ?_, ih⟩
    obtain ⟨o, ho, heq⟩ := List.mem_map.1 hm
    exact fresh o ho heq

/-- An operation of a client is stored at most once. -/
theorem Consistent.committed_once {past : List Store} (hc : Consistent rt s past) {op' : Operation}
    (hop : Logged (s :: past) op) (hop' : Logged (s :: past) op') (hdoc : op.documentId = op'.documentId)
    (hclient : op.clientOperationId = op'.clientOperationId) : op = op' := by
  obtain ⟨d, hd, hid⟩ := List.mem_map.1 (hc.owned op hop)
  obtain ⟨line, ops, hh, -⟩ := hc.traced d hd
  have hm : op ∈ ops := (hh.logged op).1 ⟨hop, hid.symm⟩
  have hm' : op' ∈ ops := (hh.logged op').1 ⟨hop', hdoc.symm.trans hid.symm⟩
  exact List.inj_on_of_nodup_map hh.lineage.nodup_clients hm hm' hclient

/-- Every run is consistent. -/
theorem Run.consistent (h : Run rt stores) :
    ∃ s past, stores = s :: past ∧ Consistent rt s past := by
  induction h with
  | start => exact ⟨_, _, rfl, consistent_empty rt⟩
  | step call command _ hexec ih =>
    obtain ⟨t, past, heq, hc⟩ := ih
    obtain ⟨rfl, rfl⟩ := List.cons.inj heq
    exact ⟨_, _, rfl, hc.step (exec_effect hexec)⟩

/-- The representation invariant holds of every document that is ever stored. -/
theorem run_representation {rt : Runtime} {s : Store} {past : List Store} (h : Run rt (s :: past)) {d : Document}
    (hd : d ∈ s.documents) :
    (d.atoms.map Atom.id).Nodup ∧
    (∀ a ∈ d.atoms, a.afterId = none ∨ ∃ b ∈ d.atoms, a.afterId = some b.id ∧ b.order < a.order) ∧
    (d.atoms.map Atom.order).Nodup ∧
    (∃ calls, ∀ fuel, calls ≤ fuel → Rga.orderWithin fuel d.atoms = some (Rga.order d.atoms)) ∧
    (Rga.order d.atoms).Perm d.atoms ∧ Rga.order d.atoms = d.atoms ∧
    d.content = String.join (((Rga.order d.atoms).filter fun a => !a.deleted).map Atom.text) ∧
    d.atoms.length ≤ 32000 ∧ (d.atoms.filter fun a => !a.deleted).length ≤ 16000 ∧
    d.content.utf8ByteSize ≤ 65536 := by
  obtain ⟨t, past', heq, hc⟩ := h.consistent
  obtain ⟨rfl, rfl⟩ := List.cons.inj heq
  have hv : Valid d := by
    by_cases hlive : d.erasedAt = none
    · exact hc.valid hd hlive
    · obtain ⟨hatoms, hcontent⟩ := hc.erased d hd hlive
      exact valid_empty hatoms hcontent
  refine ⟨hv.wellFormed.ids, ?_, hv.wellFormed.orders, ⟨d.atoms.length, ?_⟩, ?_, hv.ordered, ?_, hv.atomsBound,
    hv.visibleBound, hv.contentBound⟩
  · intro a ha
    cases hp : a.afterId with
    | none => exact Or.inl rfl
    | some p =>
      obtain ⟨b, hb, hbp, hlt⟩ := hv.wellFormed.parents a ha p hp
      exact Or.inr ⟨b, hb, by rw [hbp], hlt⟩
  · intro fuel hfuel
    exact Rga.orderWithin_eq hv.wellFormed.ids hfuel
  · exact hv.wellFormed.order_perm
  · rw [hv.ordered]
    exact hv.content

/-! ### A run in full -/

section Sample

private def quoted (text : String) : Nat := text.utf8ByteSize + 2

private def nullable (text : Option String) : Nat := (text.map quoted).getD 4

private def bracketed (sizes : List Nat) : Nat := sizes.sum + (sizes.length - 1) + 2

private def atomBytes (a : Atom) : Nat :=
  47 + quoted a.id + nullable a.afterId + quoted a.text + (if a.deleted then 4 else 5) + (toString a.order).length

private def changeBytes (c : Change) : Nat :=
  37 + nullable c.afterId + bracketed (c.deleteIds.map quoted) + quoted c.insert

private def inputBytes : OperationInput → Nat
  | .create title source => 32 + quoted title + nullable source
  | .edit generation baseVersion changes =>
    42 + (toString generation).length + (toString baseVersion).length + bracketed (changes.map changeBytes)
  | .rename generation baseVersion title =>
    40 + (toString generation).length + (toString baseVersion).length + quoted title

private def payloadBytes (p : Payload) : Nat :=
  40 + (p.title.map fun title => quoted title + 9).getD 0 + bracketed (p.insertedAtoms.map atomBytes) +
    bracketed (p.deletedAtomIds.map quoted)

private def isUuid (text : String) : Bool :=
  let parts := text.toList.splitOn '-'
  decide (parts.map List.length = [8, 4, 4, 4, 12]) && parts.all fun part =>
    part.all fun c => c.isDigit || ('a' ≤ c && c ≤ 'f')

/-- A runtime that enumerates a map by its keys, for UUIDs in lower case and texts that JSON does not escape. -/
def plainRuntime : Runtime where
  values := Enumeration.byKey String Atom
  uuidCast text := if isUuid text then some text else none
  encodedBytes input payload := inputBytes input + payloadBytes payload

def sampleCall (now : Nat) : Call where
  subject := ⟨"00000000-0000-4000-8000-00000000000a", "00000000-0000-4000-8000-0000000000ad",
    "00000000-0000-4000-8000-0000000000de"⟩
  refusal _ := none
  newId := "00000000-0000-4000-8000-0000000000d0"
  now := now

def sampleCreate : Command :=
  .create "00000000-0000-4000-8000-0000000000c0" ⟨some "00000000-0000-4000-8000-000000000001", some " Plan "⟩

/-- The second change anchors on and deletes atoms of the first one. -/
def sampleEdit : Command :=
  .applyOperation "00000000-0000-4000-8000-0000000000d0"
    ⟨some "00000000-0000-4000-8000-000000000002", some 1, some 1, some .edit,
      some [⟨none, [], "hi"⟩, ⟨some "00000000-0000-4000-8000-000000000002:1",
        ["00000000-0000-4000-8000-000000000002:0"], "!"⟩], none⟩

def sampleStore1 : Store := (exec plainRuntime (sampleCall 0) Store.empty sampleCreate).toOption.getD Store.empty

def sampleStore2 : Store := (exec plainRuntime (sampleCall 1) sampleStore1 sampleEdit).toOption.getD Store.empty

theorem sampleRun : Run plainRuntime [sampleStore2, sampleStore1, Store.empty] :=
  .step (sampleCall 1) sampleEdit (.step (sampleCall 0) sampleCreate .start (by decide)) (by decide)

theorem run_representation_sample :
    ∃ d ∈ sampleStore2.documents, d.content = "i!" ∧ d.atoms.length = 3 ∧ Rga.order d.atoms = d.atoms := by
  have hd : ∃ d ∈ sampleStore2.documents, d.content = "i!" ∧ d.atoms.length = 3 := by decide
  obtain ⟨d, hd, hcontent, hlength⟩ := hd
  exact ⟨d, hd, hcontent, hlength, (run_representation sampleRun hd).2.2.2.2.2.1⟩

end Sample

end KComms.Documents
