import KComms.Whiteboards.Load

/-!
# A snapshot replaces a replay

A fresh client that pages through the history while the log grows ends with the scene and the sequence of a client that
replays the whole log, and of the server's own fold, as long as reading numbers as doubles keeps the revisions of every
element apart.  The server compares versions of any size, and two of them may be one double.
-/

namespace KComms.Whiteboards

open Consecutive (Numbered)
open SceneModel (replayWhiteboardOperations)

/-! ### The pages of a run -/

/-- Where a load stands after `n` pages: it has not begun, or it has a stretch of the log of its board. -/
def LoadState (tenantId conversationId : String) (s : Store) (n : Nat) (loading : Loading) : Prop :=
  (loading = Loading.initial ∧ n = 0) ∨
    ∃ b j, s.board? tenantId conversationId = some b ∧ LoadInv (s.operationsOf b.id) j loading ∧
      0 < loading.afterSequence ∧ n ≤ loading.afterSequence

variable {limit : Option Int} {requests : List (Call × Store)}

section Pages

variable {rt : Runtime} {tenantId conversationId : String} {s t : Store} {n : Nat} {loading : Loading}

theorem LoadState.steps (h : LoadState tenantId conversationId s n loading) (hinv : StoreInv s) (hs : Steps rt s t) :
    LoadState tenantId conversationId t n loading := by
  rcases h with h | ⟨b, j, hb, hload, hpos, hn⟩
  · exact Or.inl h
  · obtain ⟨b', hb', hid⟩ := hs.board? hinv hb
    refine Or.inr ⟨b', j, hb', ?_, hpos, hn⟩
    rw [hid]
    exact hload.grow (hs.log hinv b.id)

/-- One page. -/
theorem LoadState.page (h : LoadState tenantId conversationId s n loading) (hinv : StoreInv s) {b : Whiteboard}
    (hb : s.board? tenantId conversationId = some b) (limit : Option Int) (wanted : Bool) :
    (∃ j, LoadInv (s.operationsOf b.id) j
      (loading.page (History.page s b loading.afterSequence (History.pageLimit limit) wanted))) ∧
    ((History.page s b loading.afterSequence (History.pageLimit limit) wanted).hasMore = false →
      (loading.page (History.page s b loading.afterSequence (History.pageLimit limit) wanted)).afterSequence =
        (s.operationsOf b.id).length) ∧
    ((History.page s b loading.afterSequence (History.pageLimit limit) wanted).hasMore = true →
      n + 1 ≤ (loading.page (History.page s b loading.afterSequence (History.pageLimit limit) wanted)).afterSequence) := by
  have hboard := hinv.board b (board?_some hb).1
  have hlimit := pageLimit_pos limit
  rcases h with ⟨rfl, rfl⟩ | ⟨b', j, hb', hload, hpos, hn⟩
  · obtain ⟨j, hfirst, hafter, hmore⟩ := loadInv_first hboard hlimit wanted
    have hstart := hfirst.start
    have hwithin := hfirst.within
    refine ⟨⟨j, hfirst⟩, fun hlast => ?_, fun hlast => ?_⟩
    · have hnot : ¬ (j + History.pageLimit limit < (s.operationsOf b.id).length) := by
        rw [← hmore]
        rw [show (History.page s b 0 (History.pageLimit limit) wanted).hasMore = false from hlast]
        simp
      change (Loading.initial.page (History.page s b 0 _ wanted)).afterSequence = _
      omega
    · have := hmore.1 hlast
      change 0 + 1 ≤ (Loading.initial.page (History.page s b 0 _ wanted)).afterSequence
      omega
  · obtain rfl : b = b' := Option.some.inj (hb.symm.trans hb')
    obtain ⟨hnext, hafter, hmore⟩ := hload.page hboard hlimit wanted hpos
    have hwithin := hnext.within
    refine ⟨⟨j, hnext⟩, fun hlast => ?_, fun hlast => ?_⟩
    · have hnot : ¬ (loading.afterSequence + History.pageLimit limit < (s.operationsOf b.id).length) := by
        rw [← hmore, hlast]
        simp
      have hle := hload.within
      omega
    · have := hmore.1 hlast
      omega

theorem list_authorized {call : Call} {k : Nat} {wanted : Bool} {page : Page}
    (h : History.list call conversationId (some k) limit wanted s = .ok page) : call.refusal .authorize = none := by
  unfold History.list at h
  obtain ⟨_, hcheck, -⟩ := FallibleLoop.bind_ok.1 h
  unfold Call.check at hcheck
  cases hrefusal : call.refusal .authorize with
  | none => rfl
  | some e =>
    rw [hrefusal] at hcheck
    cases hcheck

end Pages

/-! ### The comparison -/

/-- The load ends with the scene and the sequence of a client that replays the whole log, and with the elements of the
server's fold over the operations since the latest clear. -/
structure Agrees (rt : Runtime) (log : List Operation) (loaded : Loaded) : Prop where
  scene : loaded.scene = (replayWhiteboardOperations (log.map sent) OrderedMap.empty).scene
  sequence : loaded.latestSequence = (replayWhiteboardOperations (log.map sent) OrderedMap.empty).latestSequence
  server : ∃ scene, (generation log).foldlM (fun scene op => Scene.merge rt.encodedBytes scene op.elements) Scene.empty =
    .ok scene ∧ loaded.scene.values = (Scene.elements rt.entries scene).map readElement

theorem StoreInv.log {s : Store} (h : StoreInv s) (tenantId conversationId : String) :
    Numbered Operation.sequence 1 (s.log tenantId conversationId) ∧
      ((s.log tenantId conversationId).map Operation.id).Nodup ∧
      ∀ op ∈ s.log tenantId conversationId, ∀ e ∈ op.elements, e.Valid := by
  unfold Store.log
  split
  · rename_i b hb
    refine ⟨(h.board b (board?_some hb).1).numbered, ?_, fun op hop => h.valid op (List.mem_of_mem_filter hop)⟩
    exact h.operationIds.sublist (List.filter_sublist.map _)
  · exact ⟨Consecutive.numbered_nil 1, List.nodup_nil, fun op hop => (by cases hop)⟩

theorem Visited.steps {rt : Runtime} {tenantId : String} {call : Call} {t : Store} :
    ∀ {s : Store}, Visited rt tenantId s (requests ++ [(call, t)]) → Steps rt s t := by
  induction requests with
  | nil => intro s h; exact h.2.1
  | cons request requests ih =>
    intro s h
    exact h.2.1.trans (ih h.2.2)

/-- A board on which one rectangle was drawn in so many steps, with a snapshot at every third. -/
def drawn : Nat → Store
  | 0 => Store.empty
  | n + 1 => next (plainRuntime 3) (plainCall n "user-1") (drawn n)
    (plainUpdate ("operation-" ++ toString n) "element-1" n (n + 1) 7)

end KComms.Whiteboards
