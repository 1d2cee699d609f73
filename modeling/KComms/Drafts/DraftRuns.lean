import KComms.Drafts.UseSynchronizedDraft
import KComms.Lib.CommandRuns

/-!
# Nothing typed is lost

Two branches of the hook lose track of a text.  A write timer that fires during a read is used up, and a read that finds
the same version sets no other one (`Stranded`); and a read that finds the text of the editor during a conflict leaves
the conflict set although it no longer shows it (`HiddenConflict`).  In every run that stays clear of these, the text is
stored, shown as a conflict or about to be written unless the last request has failed, and `"synced"` is true.
-/

namespace KComms.Drafts

/-- The draft is what the server has stored for its version. -/
def DraftSystem.Stored (s : DraftSystem) : Prop :=
  (s.draft.versionRef.bind fun version => s.stored[version]?) = some s.draft.body

instance (s : DraftSystem) : Decidable s.Stored := inferInstanceAs (Decidable (_ = _))

namespace DraftSync

/-- A conflict with a draft of another device is on the screen. -/
def ShowsConflict (s : DraftSync) : Prop := s.status = .conflict ∧ s.remote.isSome

/-- A timer is set, and will write when it fires. -/
def Armed (s : DraftSync) : Prop :=
  s.dirty = true ∧ s.conflict = false ∧ s.versionRef.isSome ∧ (s.debounce = true ∨ s.timeouts ≠ [])

/-- A text that is not saved, in no conflict and without a timer. -/
def Stranded (s : DraftSync) : Prop := s.dirty = true ∧ s.conflict = false ∧ s.debounce = false ∧ s.timeouts = []

/-- A conflict that is still set although the text is the one of the server. -/
def HiddenConflict (s : DraftSync) : Prop := s.conflict = true ∧ s.dirty = false ∧ s.versionRef.isSome

instance (s : DraftSync) : Decidable s.ShowsConflict := inferInstanceAs (Decidable (_ ∧ _))
instance (s : DraftSync) : Decidable s.Armed := inferInstanceAs (Decidable (_ ∧ _ ∧ _ ∧ (_ ∨ _)))
instance (s : DraftSync) : Decidable s.Stranded := inferInstanceAs (Decidable (_ ∧ _ ∧ _ ∧ _))
instance (s : DraftSync) : Decidable s.HiddenConflict := inferInstanceAs (Decidable (_ ∧ _ ∧ _))

end DraftSync

/-- What the user is promised in a state. -/
structure DraftSystem.Kept (s : DraftSystem) : Prop where
  settled : s.draft.request = none → s.draft.ShowsConflict ∨ s.Stored ∨ s.draft.failed = true ∨ s.draft.Armed
  synced : s.draft.status = .synced → s.Stored

/-- The version in the answer to a read. -/
def DraftRequest.found : DraftRequest → Option Nat
  | .read answer => answer.map SynchronizedDraft.version
  | _ => none

/-- The answer to a read arrives that has the version of the editor. -/
def DraftSystem.FindsNothing (s : DraftSystem) : Prop :=
  s.draft.versionRef.isSome ∧ s.draft.request.bind DraftRequest.found = s.draft.versionRef

instance (s : DraftSystem) : Decidable s.FindsNothing := inferInstanceAs (Decidable (_ ∧ _))

/-- The steps at which neither branch goes wrong: no read finds the version that the editor has while its text is
stranded, and no edit is made while a conflict is hidden. -/
def sound (s : DraftSystem) : DraftEvent → Prop
  | .edited _ => ¬ s.draft.HiddenConflict
  | .answered => ¬ (s.FindsNothing ∧ s.draft.Stranded)
  | _ => True

instance (s : DraftSystem) (event : DraftEvent) : Decidable (sound s event) := by
  cases event <;> unfold sound <;> infer_instance

/-! ### The invariant -/

/-- What is known of the request in flight. -/
def Pending (s : DraftSystem) : Option DraftRequest → Prop
  | none => True
  | some (.read none) => True
  | some (.read (some draft)) => s.stored[draft.version]? = some draft.body ∧
      (∀ version, s.draft.versionRef = some version → version ≤ draft.version) ∧
      ∀ remote, s.draft.remote = some remote → remote.version ≤ draft.version
  | some (.write snapshot expected answer) => s.draft.conflict = false ∧ s.draft.dirty = true ∧
      s.draft.versionRef = some expected ∧
      match answer with
      | none => True
      | some (.saved version) => s.stored[version]? = some snapshot
      | some .staleDraft => expected + 1 < s.stored.length
  | some (.reread answer) => s.draft.conflict = false ∧ s.draft.dirty = true ∧
      ∃ expected, s.draft.versionRef = some expected ∧ expected + 1 < s.stored.length ∧
        ∀ draft, answer = some draft → s.stored[draft.version]? = some draft.body ∧ expected < draft.version

/-- Why an editor at rest need not do anything. -/
def AtRest (s : DraftSync) : Prop :=
  s.failed = true ∨ (s.conflict = true ∧ s.status = .conflict) ∨ (s.dirty = false ∧ s.versionRef.isSome) ∨ s.Armed

structure DraftInvariant (s : DraftSystem) : Prop where
  first : s.stored.head? = some ""
  clean : s.draft.dirty = false → s.draft.versionRef.isSome → s.Stored
  known : ∀ version, s.draft.versionRef = some version → version < s.stored.length
  remote : ∀ remote, s.draft.remote = some remote → s.stored[remote.version]? = some remote.body
  conflicts : s.draft.conflict = s.draft.remote.isSome
  synced : s.draft.status = .synced → s.draft.dirty = false ∧ s.draft.versionRef.isSome
  unread : ∀ remote, s.draft.remote = some remote → s.draft.versionRef = none → 0 < remote.version
  newer : ∀ remote version, s.draft.remote = some remote → s.draft.versionRef = some version → s.draft.dirty = true →
    version < remote.version
  pending : Pending s s.draft.request
  atRest : s.draft.request = none → AtRest s.draft

theorem DraftInvariant.kept {s : DraftSystem} (h : DraftInvariant s) : s.Kept := by
  constructor
  · intro hrequest
    rcases h.atRest hrequest with hfailed | ⟨hconflict, hstatus⟩ | ⟨hclean, hversion⟩ | harmed
    · exact .inr (.inr (.inl hfailed))
    · exact .inl ⟨hstatus, by rw [← h.conflicts, hconflict]⟩
    · exact .inr (.inl (h.clean hclean hversion))
    · exact .inr (.inr (.inr harmed))
  · intro hstatus
    obtain ⟨hclean, hversion⟩ := h.synced hstatus
    exact h.clean hclean hversion

theorem invariant_mounted (body : String) (drafts : List String) : DraftInvariant (.mounted body drafts) := by
  constructor <;> intros <;> simp_all [DraftSystem.mounted, DraftSync.mounted, Pending]

/-! ### What the server has stored stays -/

private theorem getElem?_stored {stored : List String} {more : List String} {version : Nat} {body : String}
    (h : stored[version]? = some body) : (stored ++ more)[version]? = some body := by
  obtain ⟨hlt, -⟩ := List.getElem?_eq_some_iff.1 h
  rw [List.getElem?_append_left hlt]
  exact h

theorem stored_iff {s : DraftSystem} : s.Stored ↔
    ∃ version, s.draft.versionRef = some version ∧ s.stored[version]? = some s.draft.body := by
  unfold DraftSystem.Stored
  exact Option.bind_eq_some_iff

theorem DraftInvariant.grown {s : DraftSystem} (h : DraftInvariant s) (more : List String) :
    DraftInvariant { s with stored := s.stored ++ more } := by
  have hlength : s.stored.length ≤ (s.stored ++ more).length := by simp
  refine ⟨?_, fun hclean hversion => ?_, fun version hversion => ?_,
    fun remote hremote => getElem?_stored (h.remote _ hremote), h.conflicts, h.synced, h.unread, h.newer, ?_, h.atRest⟩
  · have hfirst := h.first
    cases hstored : s.stored with
    | nil => simp [hstored] at hfirst
    | cons a rest => simpa [hstored] using hfirst
  · obtain ⟨version, hversion, hstored⟩ := stored_iff.1 (h.clean hclean hversion)
    exact stored_iff.2 ⟨version, hversion, getElem?_stored hstored⟩
  · have := h.known version hversion
    show version < (s.stored ++ more).length
    omega
  · have hpending := h.pending
    show Pending _ s.draft.request
    cases hrequest : s.draft.request with
    | none => trivial
    | some request =>
      rw [hrequest] at hpending
      cases request with
      | read answer =>
        cases answer with
        | none => trivial
        | some draft => exact ⟨getElem?_stored hpending.1, hpending.2⟩
      | write snapshot expected answer =>
        obtain ⟨hconflict, hdirty, hversion, hanswer⟩ := hpending
        refine ⟨hconflict, hdirty, hversion, ?_⟩
        cases answer with
        | none => trivial
        | some answer =>
          cases answer with
          | saved version => exact getElem?_stored hanswer
          | staleDraft => exact lt_of_lt_of_le hanswer hlength
      | reread answer =>
        obtain ⟨hconflict, hdirty, expected, hversion, hexpected, hanswer⟩ := hpending
        refine ⟨hconflict, hdirty, expected, hversion, lt_of_lt_of_le hexpected hlength, fun draft hdraft => ?_⟩
        exact ⟨getElem?_stored (hanswer draft hdraft).1, (hanswer draft hdraft).2⟩

/-! ### One step -/

section Step

variable {s : DraftSystem}

/-- A request that is in flight at the same version with the same conflict is known as before. -/
theorem Pending.congr {draft : DraftSync} {request : Option DraftRequest} (h : Pending s request)
    (hversion : draft.versionRef = s.draft.versionRef) (hremote : draft.remote = s.draft.remote)
    (hconflict : draft.conflict = s.draft.conflict) (hdirty : s.draft.dirty = true → draft.dirty = true) :
    Pending { s with draft := draft } request := by
  cases request with
  | none => trivial
  | some request =>
    cases request with
    | read answer =>
      cases answer with
      | none => trivial
      | some found =>
        refine ⟨h.1, fun version hknown => h.2.1 version ?_, fun remote hknown => h.2.2 remote ?_⟩
        · rw [← hversion]
          exact hknown
        · rw [← hremote]
          exact hknown
    | write snapshot expected answer =>
      obtain ⟨hfree, hunsaved, hexpected, hanswer⟩ := h
      exact ⟨hconflict.trans hfree, hdirty hunsaved, hversion.trans hexpected, hanswer⟩
    | reread answer =>
      obtain ⟨hfree, hunsaved, expected, hexpected, hanswer⟩ := h
      exact ⟨hconflict.trans hfree, hdirty hunsaved, expected, hversion.trans hexpected, hanswer⟩

theorem DraftInvariant.edited (h : DraftInvariant s) (body : String) (hne : body ≠ s.draft.body)
    (hsound : ¬ s.draft.HiddenConflict) : DraftInvariant { s with draft := s.draft.edited body } := by
  have hset : s.draft.edited body =
      { s.draft with
        dirty := true
        status := if s.draft.conflict then s.draft.status else .unsaved
        body := body
        debounce := !s.draft.conflict } := by
    unfold DraftSync.edited DraftSync.setBody DraftSync.bodyEffect
    rw [if_neg hne]
    simp
  rw [hset]
  refine ⟨h.first, fun hclean => by simp at hclean, h.known, h.remote, h.conflicts, fun hstatus => ?_, h.unread,
    fun remote version hremote hversion _ => ?_, h.pending.congr rfl rfl rfl fun _ => rfl, fun hrequest => ?_⟩
  · -- during a conflict the status stays, and is not `synced` unless the conflict is hidden
    dsimp only at hstatus
    split at hstatus
    · rename_i hconflict
      obtain ⟨hclean, hversion⟩ := h.synced hstatus
      exact absurd ⟨hconflict, hclean, hversion⟩ hsound
    · cases hstatus
  · by_cases hdirty : s.draft.dirty = true
    · exact h.newer remote version hremote hversion hdirty
    · refine absurd ⟨?_, by simpa using hdirty, ?_⟩ hsound
      · rw [h.conflicts, hremote]
        rfl
      · rw [hversion]
        rfl
  · rcases h.atRest hrequest with hfailed | ⟨hconflict, hstatus⟩ | ⟨hclean, hversion⟩ | ⟨_, hfree, hversion, _⟩
    · exact .inl hfailed
    · refine .inr (.inl ⟨hconflict, ?_⟩)
      dsimp only
      rw [if_pos hconflict]
      exact hstatus
    · cases hconflict : s.draft.conflict with
      | true => exact absurd ⟨hconflict, hclean, hversion⟩ hsound
      | false => exact .inr (.inr (.inr ⟨rfl, hconflict, hversion, .inl (by simp)⟩))
    · exact .inr (.inr (.inr ⟨rfl, hfree, hversion, .inl (by simp [hfree])⟩))

theorem DraftInvariant.read (h : DraftInvariant s) : DraftInvariant { s with draft := s.draft.read } := by
  unfold DraftSync.read
  split
  · exact h
  · exact ⟨h.first, h.clean, h.known, h.remote, h.conflicts, h.synced, h.unread, h.newer, trivial,
      fun hrequest => absurd hrequest (by simp)⟩

/-- A timer that has fired writes, or was set for nothing. -/
theorem DraftInvariant.write (h : DraftInvariant s) (debounce : Bool) (timeouts : List Nat) :
    DraftInvariant { s with draft := { s.draft with debounce := debounce, timeouts := timeouts }.write } := by
  have hidle : s.draft.request = none → ¬ s.draft.Armed →
      AtRest { s.draft with debounce := debounce, timeouts := timeouts } := by
    intro hrequest harmed
    rcases h.atRest hrequest with hfailed | hconflict | hclean | hset
    · exact .inl hfailed
    · exact .inr (.inl hconflict)
    · exact .inr (.inr (.inl hclean))
    · exact absurd hset harmed
  unfold DraftSync.write
  split
  · rename_i hversion
    refine ⟨h.first, h.clean, h.known, h.remote, h.conflicts, h.synced, h.unread, h.newer,
      h.pending.congr rfl rfl rfl id, fun hrequest => hidle hrequest fun harmed => ?_⟩
    have hsome := harmed.2.2.1
    rw [hversion] at hsome
    cases hsome
  · rename_i expected hversion
    split
    · rename_i hblocked
      refine ⟨h.first, h.clean, h.known, h.remote, h.conflicts, h.synced, h.unread, h.newer,
        h.pending.congr rfl rfl rfl id, fun hrequest => hidle hrequest fun ⟨hdirty, hfree, _⟩ => ?_⟩
      simp_all
    · rename_i hready
      rw [not_or, not_or, not_not, Bool.not_eq_true] at hready
      obtain ⟨-, hfree, hdirty⟩ := hready
      exact ⟨h.first, h.clean, h.known, h.remote, h.conflicts, fun hstatus => absurd hstatus (by simp), h.unread,
        h.newer, ⟨by simpa using hfree, by simpa using hdirty, hversion, trivial⟩,
        fun hrequest => absurd hrequest (by simp)⟩

/-- The draft of the server is one of those that it has stored. -/
theorem DraftInvariant.current (h : DraftInvariant s) :
    s.stored[s.current.version]? = some s.current.body ∧ s.current.version + 1 = s.stored.length := by
  have hfirst := h.first
  have hne : s.stored ≠ [] := by
    rintro hnil
    rw [hnil] at hfirst
    cases hfirst
  have hpos := List.length_pos_iff.2 hne
  have hlast := List.getLast?_eq_getElem? (l := s.stored)
  unfold DraftSystem.current
  rw [← hlast, List.getLast?_eq_some_getLast hne]
  refine ⟨rfl, ?_⟩
  show s.stored.length - 1 + 1 = s.stored.length
  omega

theorem DraftInvariant.handled (h : DraftInvariant s) : DraftInvariant s.handled := by
  obtain ⟨hcurrent, hlength⟩ := h.current
  have hpending := h.pending
  unfold DraftSystem.handled
  split
  · refine ⟨h.first, h.clean, h.known, h.remote, h.conflicts, h.synced, h.unread, h.newer,
      ⟨hcurrent, fun version hversion => ?_, fun remote hremote => ?_⟩, fun hrequest => absurd hrequest (by simp)⟩
    · have := h.known version hversion
      omega
    · obtain ⟨hlt, -⟩ := List.getElem?_eq_some_iff.1 (h.remote remote hremote)
      omega
  · rename_i hrequest
    rw [hrequest] at hpending
    obtain ⟨hfree, hdirty, expected, hversion, hexpected, -⟩ := hpending
    refine ⟨h.first, h.clean, h.known, h.remote, h.conflicts, h.synced, h.unread, h.newer,
      ⟨hfree, hdirty, expected, hversion, hexpected, ?_⟩, fun hrequest => absurd hrequest (by simp)⟩
    intro draft hdraft
    obtain rfl := Option.some.inj hdraft
    exact ⟨hcurrent, by omega⟩
  · rename_i snapshot expected hrequest
    rw [hrequest] at hpending
    obtain ⟨hfree, hdirty, hversion, -⟩ := hpending
    split
    · have hgrown := h.grown [snapshot]
      refine ⟨hgrown.first, hgrown.clean, hgrown.known, hgrown.remote, h.conflicts, h.synced, h.unread, h.newer,
        ⟨hfree, hdirty, hversion, ?_⟩, fun hrequest => absurd hrequest (by simp)⟩
      rw [hlength]
      exact List.getElem?_concat_length
    · rename_i hother
      have hknown := h.known expected hversion
      have hstale : expected + 1 < s.stored.length := by omega
      exact ⟨h.first, h.clean, h.known, h.remote, h.conflicts, h.synced, h.unread, h.newer,
        ⟨hfree, hdirty, hversion, hstale⟩, fun hrequest => absurd hrequest (by simp)⟩
  · exact h

/-- The editor takes over a draft of the server. -/
theorem setBody_eq (body : String) (draft : DraftSync) : ∃ debounce,
    draft.setBody body = { draft with body := body, debounce := debounce } := by
  unfold DraftSync.setBody DraftSync.bodyEffect
  split
  · rename_i heq
    exact ⟨draft.debounce, by rw [heq]⟩
  · exact ⟨_, rfl⟩

theorem DraftInvariant.readAnswered (h : DraftInvariant s) {draft : SynchronizedDraft}
    (hrequest : s.draft.request = some (.read (some draft)))
    (hsound : s.draft.versionRef = some draft.version → ¬ s.draft.Stranded) :
    DraftInvariant { s with draft := s.draft.readAnswered draft } := by
  have hpending := h.pending
  rw [hrequest] at hpending
  obtain ⟨hstored, hversions, hremotes⟩ := hpending
  have hlt : draft.version < s.stored.length := (List.getElem?_eq_some_iff.1 hstored).1
  unfold DraftSync.readAnswered
  dsimp only
  split
  · rename_i hnew
    split
    · -- a conflict, shown from now on
      rename_i hconflict
      refine ⟨h.first, h.clean, h.known, fun remote hremote => ?_, rfl, fun hstatus => absurd hstatus (by simp),
        fun remote hremote hnone => ?_, fun remote version hremote hversion _ => ?_, trivial,
        fun _ => .inr (.inl ⟨rfl, rfl⟩)⟩
      · obtain rfl := Option.some.inj hremote
        exact hstored
      · obtain rfl := Option.some.inj hremote
        rcases hconflict.2.2 with hfirst | hpos | hbody
        · simp_all
        · exact hpos
        · -- version 0 is empty
          rcases Nat.eq_zero_or_pos draft.version with hzero | hpos
          · rw [hzero] at hstored
            rw [← List.head?_eq_getElem?, h.first] at hstored
            exact absurd (Option.some.inj hstored).symm hbody
          · exact hpos
      · obtain rfl := Option.some.inj hremote
        have hle := hversions version hversion
        rcases hnew with hne | hfirst
        · have hne' : draft.version ≠ version := fun heq => hne (by rw [heq]; exact hversion.symm)
          omega
        · simp_all
    · split
      · -- the draft is taken over
        rename_i hclean
        obtain ⟨debounce, hset⟩ := setBody_eq draft.body
          { s.draft with request := none, failed := false, versionRef := some draft.version, status := .synced }
        rw [hset]
        have hdirty : s.draft.dirty = false := by simpa using hclean.1
        exact ⟨h.first, fun _ _ => stored_iff.2 ⟨draft.version, rfl, hstored⟩,
          fun version hversion => by obtain rfl := Option.some.inj hversion; exact hlt, h.remote, h.conflicts,
          fun _ => ⟨hdirty, rfl⟩, fun _ _ hnone => absurd hnone (by simp),
          fun _ _ _ _ hunsaved => absurd (hdirty.symm.trans hunsaved) (by simp), trivial,
          fun _ => .inr (.inr (.inl ⟨hdirty, rfl⟩))⟩
      · rename_i hkeep hunclean
        split
        · -- only the first read of an empty draft leaves a text to be written, and there is no conflict then
          rename_i hbody
          have hlocal : s.draft.dirty = true ∨ s.draft.versionRef.isNone = true ∧ s.draft.body ≠ "" := by
            by_contra hnone
            apply hunclean
            rw [not_or, not_and_or, not_not] at hnone
            exact ⟨hnone.1, hnone.2⟩
          have hempty : s.draft.versionRef = none ∧ draft.version = 0 := by
            have hnot : ¬ (¬ s.draft.versionRef.isNone = true ∨ 0 < draft.version ∨ draft.body ≠ "") :=
              fun hfound => hkeep ⟨hlocal, hbody, hfound⟩
            rw [not_or, not_not, not_or] at hnot
            exact ⟨Option.isNone_iff_eq_none.1 hnot.1, by omega⟩
          have hremote : s.draft.remote = none := by
            cases hremote : s.draft.remote with
            | none => rfl
            | some remote =>
              have hpos := h.unread remote hremote hempty.1
              have hle := hremotes remote hremote
              omega
          have hfree : s.draft.conflict = false := by
            rw [h.conflicts, hremote]
            rfl
          exact ⟨h.first, fun hclean => absurd hclean (by simp),
            fun version hversion => by obtain rfl := Option.some.inj hversion; exact hlt, h.remote, h.conflicts,
            fun hstatus => absurd hstatus (by simp), fun _ _ hnone => absurd hnone (by simp),
            fun remote _ hsome => absurd (hremote.symm.trans hsome) (by simp), trivial,
            fun _ => .inr (.inr (.inr ⟨rfl, hfree, rfl, .inr (by simp)⟩))⟩
        · rename_i hbody
          have hsame : s.stored[draft.version]? = some s.draft.body := by
            rw [hstored, not_not.1 hbody]
          exact ⟨h.first, fun _ _ => stored_iff.2 ⟨draft.version, rfl, hsame⟩,
            fun version hversion => by obtain rfl := Option.some.inj hversion; exact hlt, h.remote, h.conflicts,
            fun _ => ⟨rfl, rfl⟩, fun _ _ hnone => absurd hnone (by simp),
            fun _ _ _ _ hunsaved => absurd hunsaved (by simp), trivial, fun _ => .inr (.inr (.inl ⟨rfl, rfl⟩))⟩
  · -- nothing new on the server
    rename_i hnew
    rw [not_or, not_not] at hnew
    have hversion : s.draft.versionRef = some draft.version := hnew.1.symm
    have hknown : s.draft.versionRef.isSome = true := by
      rw [hversion]
      rfl
    split
    · rename_i hfree
      have hfree : s.draft.conflict = false := by simpa using hfree
      refine ⟨h.first, h.clean, h.known, h.remote, h.conflicts, fun hstatus => ?_, h.unread, h.newer, trivial,
        fun _ => ?_⟩
      · dsimp only at hstatus
        cases hdirty : s.draft.dirty with
        | true => simp [hdirty] at hstatus
        | false => exact ⟨rfl, hknown⟩
      · cases hdirty : s.draft.dirty with
        | true =>
          have htimer : s.draft.debounce = true ∨ s.draft.timeouts ≠ [] := by
            by_contra hnone
            rw [not_or, not_not, Bool.not_eq_true] at hnone
            exact hsound hversion ⟨hdirty, hfree, hnone.1, hnone.2⟩
          exact .inr (.inr (.inr ⟨rfl, hfree, hknown, htimer⟩))
        | false => exact .inr (.inr (.inl ⟨rfl, hknown⟩))
    · rename_i hconflict
      have hconflict : s.draft.conflict = true := by simpa using hconflict
      -- a conflict that was shown had a newer draft
      have hdirty : s.draft.dirty = false := by
        have hremote := h.conflicts
        rw [hconflict] at hremote
        obtain ⟨remote, hremote⟩ := Option.isSome_iff_exists.1 hremote.symm
        cases hdirty : s.draft.dirty with
        | true =>
          have hlt := h.newer remote _ hremote hversion hdirty
          have hle := hremotes remote hremote
          omega
        | false => rfl
      exact ⟨h.first, h.clean, h.known, h.remote, h.conflicts, h.synced, h.unread, h.newer, trivial,
        fun _ => .inr (.inr (.inl ⟨hdirty, hknown⟩))⟩

/-- Without a conflict there is no draft of another device. -/
theorem DraftInvariant.remote_none (h : DraftInvariant s) (hfree : s.draft.conflict = false) :
    s.draft.remote = none := by
  have hremote := h.conflicts
  rw [hfree] at hremote
  exact Option.isNone_iff_eq_none.1 (by simpa using hremote.symm)

theorem DraftInvariant.writeSaved (h : DraftInvariant s) {snapshot : String} {expected version : Nat}
    (hrequest : s.draft.request = some (.write snapshot expected (some (.saved version)))) :
    DraftInvariant { s with draft := s.draft.writeSaved snapshot version } := by
  have hpending := h.pending
  rw [hrequest] at hpending
  obtain ⟨hfree, -, -, hstored⟩ := hpending
  have hremote := h.remote_none hfree
  have hlt : version < s.stored.length := (List.getElem?_eq_some_iff.1 hstored).1
  unfold DraftSync.writeSaved DraftSync.writeDone
  refine ⟨h.first, fun hclean _ => stored_iff.2 ⟨version, rfl, ?_⟩,
    fun known hknown => by obtain rfl := Option.some.inj hknown; exact hlt, h.remote, h.conflicts, fun hstatus => ?_,
    fun _ _ hnone => absurd hnone (by simp), fun remote _ hsome => absurd (hremote.symm.trans hsome) (by simp), trivial,
    fun _ => ?_⟩
  · have hsame : s.draft.body = snapshot := by simpa using hclean
    show s.stored[version]? = some s.draft.body
    rw [hstored, hsame]
  · by_cases hsame : s.draft.body = snapshot
    · exact ⟨by simpa using hsame, rfl⟩
    · simp [hsame] at hstatus
  · by_cases hsame : s.draft.body = snapshot
    · exact .inr (.inr (.inl ⟨by simpa using hsame, rfl⟩))
    · exact .inr (.inr (.inr ⟨by simpa using hsame, hfree, rfl, .inr (by simp [hsame, hfree])⟩))

theorem DraftInvariant.writeStale (h : DraftInvariant s) {snapshot : String} {expected : Nat}
    (hrequest : s.draft.request = some (.write snapshot expected (some .staleDraft))) :
    DraftInvariant { s with draft := s.draft.writeStale } := by
  have hpending := h.pending
  rw [hrequest] at hpending
  obtain ⟨hfree, hdirty, hversion, hstale⟩ := hpending
  exact ⟨h.first, h.clean, h.known, h.remote, h.conflicts, h.synced, h.unread, h.newer,
    ⟨hfree, hdirty, expected, hversion, hstale, fun _ hnone => absurd hnone (by simp)⟩,
    fun hnone => absurd hnone (by simp [DraftSync.writeStale])⟩

theorem DraftInvariant.rereadAnswered (h : DraftInvariant s) {draft : SynchronizedDraft}
    (hrequest : s.draft.request = some (.reread (some draft))) :
    DraftInvariant { s with draft := s.draft.rereadAnswered draft } := by
  have hpending := h.pending
  rw [hrequest] at hpending
  obtain ⟨hfree, hdirty, expected, hversion, -, hanswer⟩ := hpending
  obtain ⟨hstored, hlt⟩ := hanswer draft rfl
  refine ⟨h.first, h.clean, h.known, fun remote hremote => ?_, rfl, fun hstatus => ?_, fun _ _ hnone => ?_,
    fun remote version hremote hknown _ => ?_, trivial, fun _ => .inr (.inl ⟨rfl, rfl⟩)⟩
  · obtain rfl := Option.some.inj hremote
    exact hstored
  · cases hstatus
  · exact absurd (hversion.symm.trans hnone) (by simp)
  · obtain rfl := Option.some.inj hremote
    obtain rfl := Option.some.inj (hversion.symm.trans hknown)
    exact hlt

theorem DraftInvariant.readFailed (h : DraftInvariant s) : DraftInvariant { s with draft := s.draft.readFailed } :=
  ⟨h.first, h.clean, h.known, h.remote, h.conflicts, fun hstatus => absurd hstatus (by simp [DraftSync.readFailed]),
    h.unread, h.newer, trivial, fun _ => .inl rfl⟩

theorem DraftInvariant.writeFailed (h : DraftInvariant s) : DraftInvariant { s with draft := s.draft.writeFailed } :=
  ⟨h.first, h.clean, h.known, h.remote, h.conflicts,
    fun hstatus => absurd hstatus (by simp [DraftSync.writeFailed, DraftSync.writeDone]), h.unread, h.newer, trivial,
    fun _ => .inl rfl⟩

/-- While the user chooses a draft, at most a read is in flight. -/
theorem DraftInvariant.pending_choice (h : DraftInvariant s) {remote : SynchronizedDraft}
    (hremote : s.draft.remote = some remote) {draft : DraftSync} (hversion : draft.versionRef = some remote.version)
    (hnone : draft.remote = none) : Pending { s with draft := draft } s.draft.request := by
  have hpending := h.pending
  cases hrequest : s.draft.request with
  | none => trivial
  | some request =>
    rw [hrequest] at hpending
    cases request with
    | read answer =>
      cases answer with
      | none => trivial
      | some found =>
        refine ⟨hpending.1, fun version hknown => ?_, fun other hother => absurd (hnone.symm.trans hother) (by simp)⟩
        obtain rfl := Option.some.inj (hversion.symm.trans hknown)
        exact hpending.2.2 remote hremote
    | write snapshot expected answer =>
      exact absurd ((h.remote_none hpending.1).symm.trans hremote) (by simp)
    | reread answer => exact absurd ((h.remote_none hpending.1).symm.trans hremote) (by simp)

theorem DraftInvariant.useRemote (h : DraftInvariant s) : DraftInvariant { s with draft := s.draft.useRemote } := by
  unfold DraftSync.useRemote
  split
  · exact h
  · rename_i remote hremote
    obtain ⟨debounce, hset⟩ := setBody_eq remote.body
      { s.draft with
        versionRef := some remote.version
        dirty := false
        conflict := false
        remote := none
        status := .synced }
    have hstored := h.remote remote hremote
    rw [hset]
    exact ⟨h.first, fun _ _ => stored_iff.2 ⟨remote.version, rfl, hstored⟩, fun version hversion => by
        obtain rfl := Option.some.inj hversion
        exact (List.getElem?_eq_some_iff.1 hstored).1,
      fun _ hnone => absurd hnone (by simp), rfl, fun _ => ⟨rfl, rfl⟩, fun _ hnone => absurd hnone (by simp),
      fun _ _ hnone => absurd hnone (by simp), h.pending_choice hremote rfl rfl,
      fun _ => .inr (.inr (.inl ⟨rfl, rfl⟩))⟩

theorem DraftInvariant.keepLocal (h : DraftInvariant s) : DraftInvariant { s with draft := s.draft.keepLocal } := by
  unfold DraftSync.keepLocal
  split
  · exact h
  · rename_i remote hremote
    have hstored := h.remote remote hremote
    exact ⟨h.first, fun hclean => absurd hclean (by simp [DraftSync.bodyEffect]), fun version hversion => by
        obtain rfl := Option.some.inj hversion
        exact (List.getElem?_eq_some_iff.1 hstored).1,
      fun _ hnone => absurd hnone (by simp [DraftSync.bodyEffect]), rfl,
      fun hstatus => absurd hstatus (by simp [DraftSync.bodyEffect]),
      fun _ hnone => absurd hnone (by simp [DraftSync.bodyEffect]),
      fun _ _ hnone => absurd hnone (by simp [DraftSync.bodyEffect]), h.pending_choice hremote rfl rfl,
      fun _ => .inr (.inr (.inr ⟨rfl, rfl, rfl, .inl rfl⟩))⟩

theorem DraftInvariant.answered (h : DraftInvariant s) (hsound : sound s .answered) : DraftInvariant s.answered := by
  unfold DraftSystem.answered
  split
  · rename_i draft hrequest
    refine h.readAnswered hrequest fun hversion hstranded => hsound ⟨⟨?_, ?_⟩, hstranded⟩
    · rw [hversion]
      rfl
    · rw [hversion, hrequest]
      rfl
  · rename_i draft hrequest
    exact h.rereadAnswered hrequest
  · rename_i snapshot expected version hrequest
    exact h.writeSaved hrequest
  · rename_i snapshot expected hrequest
    exact h.writeStale hrequest
  · exact h

theorem DraftInvariant.failed (h : DraftInvariant s) : DraftInvariant s.failed := by
  unfold DraftSystem.failed
  split
  · exact h
  · exact h.readFailed
  · exact h.writeFailed

theorem DraftInvariant.next (h : DraftInvariant s) {event : DraftEvent} (hsound : sound s event) :
    DraftInvariant (s.next event) := by
  cases event with
  | edited body =>
    unfold DraftSystem.next
    dsimp only
    split
    · exact h
    · rename_i hne
      exact h.edited body hne hsound
  | debounced =>
    unfold DraftSystem.next
    dsimp only
    split
    · exact h.write false s.draft.timeouts
    · exact h
  | timeout index =>
    unfold DraftSystem.next
    dsimp only
    split
    · exact h.write s.draft.debounce (s.draft.timeouts.eraseIdx index)
    · exact h
  | read => exact h.read
  | handled => exact h.handled
  | answered => exact h.answered hsound
  | failed => exact h.failed
  | written body => exact h.grown [body]
  | useRemote => exact h.useRemote
  | keepLocal => exact h.keepLocal

/-! ### What replaces a text -/

theorem write_body (draft : DraftSync) : draft.write.body = draft.body := by
  unfold DraftSync.write
  split
  · rfl
  · split <;> rfl

theorem readAnswered_body (draft : SynchronizedDraft) (own : DraftSync) :
    (own.readAnswered draft).body = own.body ∨
      own.dirty = false ∧ (own.versionRef.isSome ∨ own.body = "") := by
  unfold DraftSync.readAnswered
  dsimp only
  split
  · split
    · exact .inl rfl
    · split
      · rename_i hclean
        refine .inr ⟨by simpa using hclean.1, ?_⟩
        rcases hclean.2 with hknown | hempty
        · exact .inl (by simpa [Option.isSome_iff_ne_none] using hknown)
        · exact .inr hempty
      · split <;> exact .inl rfl
  · split <;> exact .inl rfl

/-- A text is replaced by the editor, by the choice of the other draft, or after the server has stored it. -/
theorem DraftInvariant.replaced (h : DraftInvariant s) (event : DraftEvent) :
    (s.next event).draft.body = s.draft.body ∨ (∃ body, event = .edited body) ∨ event = .useRemote ∨
      s.draft.body ∈ s.stored := by
  cases event with
  | edited body => exact .inr (.inl ⟨body, rfl⟩)
  | useRemote => exact .inr (.inr (.inl rfl))
  | debounced =>
    refine .inl ?_
    unfold DraftSystem.next
    dsimp only
    split
    · exact write_body _
    · rfl
  | timeout index =>
    refine .inl ?_
    unfold DraftSystem.next
    dsimp only
    split
    · exact write_body _
    · rfl
  | read =>
    refine .inl ?_
    unfold DraftSystem.next DraftSync.read
    dsimp only
    split <;> rfl
  | handled =>
    refine .inl ?_
    unfold DraftSystem.next DraftSystem.handled
    dsimp only
    split
    · rfl
    · rfl
    · split <;> rfl
    · rfl
  | answered =>
    unfold DraftSystem.next DraftSystem.answered
    dsimp only
    split
    · rename_i draft _
      rcases readAnswered_body draft s.draft with hsame | ⟨hclean, hknown | hempty⟩
      · exact .inl hsame
      · obtain ⟨version, -, hstored⟩ := stored_iff.1 (h.clean hclean hknown)
        exact .inr (.inr (.inr (List.mem_of_getElem? hstored)))
      · refine .inr (.inr (.inr ?_))
        rw [hempty]
        exact List.mem_of_mem_head? h.first
    · exact .inl rfl
    · exact .inl rfl
    · exact .inl rfl
    · exact .inl rfl
  | failed =>
    refine .inl ?_
    unfold DraftSystem.next DraftSystem.failed
    dsimp only
    split <;> rfl
  | written body => exact .inl rfl
  | keepLocal =>
    refine .inl ?_
    unfold DraftSystem.next DraftSync.keepLocal
    dsimp only
    split <;> rfl

end Step

/-! ### Runs -/

/-- In every run that stays clear of the two branches, what the user is promised holds in every state, and a step that
replaces a text that the server has not stored is an edit or `useRemote`. -/
theorem draft_kept (body : String) (drafts : List String) (events : List DraftEvent)
    (hsound : Guarded DraftSystem.next sound (.mounted body drafts) events) :
    (runCommands DraftSystem.next (.mounted body drafts) events).Kept ∧
    ∀ before event after, events = before ++ event :: after →
      (runCommands DraftSystem.next (.mounted body drafts) before).draft.body ∉
        (runCommands DraftSystem.next (.mounted body drafts) before).stored →
      (runCommands DraftSystem.next (.mounted body drafts) (before ++ [event])).draft.body =
        (runCommands DraftSystem.next (.mounted body drafts) before).draft.body ∨
      (∃ edit, event = .edited edit) ∨ event = .useRemote := by
  have hrun : ∀ history, Guarded DraftSystem.next sound (.mounted body drafts) history →
      DraftInvariant (runCommands DraftSystem.next (.mounted body drafts) history) :=
    fun history hguard =>
      runCommands_invariant (fun _ _ h hsound => h.next hsound) (invariant_mounted body drafts) hguard
  refine ⟨(hrun events hsound).kept, fun before event after hevents hunstored => ?_⟩
  rw [hevents, Guarded.append] at hsound
  rw [runCommands_append]
  rcases (hrun before hsound.1).replaced event with hsame | hedit | hremote | hstored
  · exact .inl hsame
  · exact .inr (.inl hedit)
  · exact .inr (.inr hremote)
  · exact absurd hstored hunstored

/-- The device loses an acknowledgement, and the user settles the conflict with the own text. -/
theorem draft_kept_sample :
    (runCommands DraftSystem.next (.mounted "" [])
      [.handled, .answered, .edited "a", .debounced, .handled, .failed, .timeout 0, .handled, .answered, .handled,
        .answered, .keepLocal, .debounced, .handled, .answered]).Kept :=
  (draft_kept "" [] _ (by decide)).1

/-- A text without a timer, a failure or a conflict; and a text that is called synchronised and is not. -/
theorem draft_lost :
    (¬ ∀ body drafts events, (runCommands DraftSystem.next (.mounted body drafts) events).draft.request = none →
      (runCommands DraftSystem.next (.mounted body drafts) events).draft.ShowsConflict ∨
      (runCommands DraftSystem.next (.mounted body drafts) events).Stored ∨
      (runCommands DraftSystem.next (.mounted body drafts) events).draft.failed = true ∨
      (runCommands DraftSystem.next (.mounted body drafts) events).draft.Armed) ∧
    ¬ ∀ body drafts events, (runCommands DraftSystem.next (.mounted body drafts) events).draft.status = .synced →
      (runCommands DraftSystem.next (.mounted body drafts) events).Stored := by
  constructor
  · intro h
    have hlost := h "" [] [.handled, .answered, .edited "a", .read, .debounced, .handled, .answered] (by decide)
    revert hlost
    decide
  · intro h
    have hlost := h "y" ["x"] [.handled, .answered, .edited "x", .read, .handled, .answered, .edited "z"]
      (by decide)
    revert hlost
    decide

end KComms.Drafts
