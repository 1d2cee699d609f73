import KComms.Lib.DistinctOn
import KComms.Lib.OrderedMap
import Mathlib.Data.List.Induction

/-!
# Merging into a map in which the latest revision wins

A map from keys to revisions, into which a list of revisions is merged one after the other: a new key goes to the end, a
key that is present keeps its place and its value is replaced if the revision wins.  What matters of `wins` is that it is
a strict order (`StrictWins`): then no revision that was merged wins against what the map holds for its key
(`settled_merge`), so merging it again changes nothing (`merge_of_settled`), and a map is rebuilt from its own values
(`merge_values`).
-/

namespace LatestWins

variable {κ α β : Type} [DecidableEq κ] (key : α → κ) (wins : α → α → Bool)

/-- Let a revision in. -/
def put (m : OrderedMap κ α) (a : α) : OrderedMap κ α :=
  match m.get? (key a) with
  | none => m.set (key a) a
  | some current => if wins current a then m.set (key a) a else m

def merge (m : OrderedMap κ α) (l : List α) : OrderedMap κ α := l.foldl (put key wins) m

/-- Every value stands under its own key. -/
def Keyed (m : OrderedMap κ α) : Prop := ∀ e ∈ m.entries, e.1 = key e.2

/-- The map holds a revision of the key of `a` that `a` does not win against. -/
def Settled (m : OrderedMap κ α) (a : α) : Prop := ∃ current, m.get? (key a) = some current ∧ wins current a = false

/-- `wins` orders the revisions that satisfy `p`. -/
structure StrictWins (p : α → Prop) : Prop where
  irrefl : ∀ a, p a → wins a a = false
  trans : ∀ a b c, p a → p b → p c → wins a b = true → wins b c = true → wins a c = true

variable {l : List α} {m : OrderedMap κ α} {a : α} {p : α → Prop}

section Merge

variable {key wins}

@[simp] theorem merge_nil (m : OrderedMap κ α) : merge key wins m [] = m := rfl

theorem merge_cons (m : OrderedMap κ α) (a : α) (l : List α) :
    merge key wins m (a :: l) = merge key wins (put key wins m a) l := rfl

theorem merge_append (m : OrderedMap κ α) (l l' : List α) :
    merge key wins m (l ++ l') = merge key wins (merge key wins m l) l' := List.foldl_append ..

/-! ### Keys and values -/

omit [DecidableEq κ] in
theorem keyed_empty : Keyed key (OrderedMap.empty : OrderedMap κ α) := by
  intro e he
  cases he

theorem Keyed.get? (h : Keyed key m) {k : κ} (ha : m.get? k = some a) : k = key a :=
  h (k, a) (OrderedMap.mem_entries.2 ha)

theorem Keyed.set (h : Keyed key m) (a : α) : Keyed key (m.set (key a) a) := by
  rintro ⟨k, b⟩ he
  rw [OrderedMap.mem_entries, OrderedMap.get?_set] at he
  split at he
  · rename_i hk
    obtain rfl := Option.some.inj he
    exact hk.symm
  · exact h.get? he

theorem Keyed.put (h : Keyed key m) (a : α) : Keyed key (put key wins m a) := by
  unfold LatestWins.put
  split
  · exact h.set a
  · split
    · exact h.set a
    · exact h

theorem Keyed.merge : ∀ {m : OrderedMap κ α}, Keyed key m → Keyed key (merge key wins m l) := by
  induction l with
  | nil => intro m h; exact h
  | cons a l ih => intro m h; exact ih (h.put a)

theorem put_of_not_mem (h : key a ∉ m.keys) : put key wins m a = m.set (key a) a := by
  unfold put
  rw [OrderedMap.get?_eq_none.2 h]

theorem mem_keys_put {k : κ} : k ∈ (put key wins m a).keys ↔ k ∈ m.keys ∨ k = key a := by
  unfold put
  split
  · rw [OrderedMap.mem_keys_set, or_comm]
  · rename_i current hget
    split
    · rw [OrderedMap.mem_keys_set, or_comm]
    · constructor
      · exact Or.inl
      · rintro (hk | rfl)
        · exact hk
        · exact OrderedMap.mem_keys_iff.2 ⟨current, hget⟩

theorem mem_keys_merge : ∀ {m : OrderedMap κ α} {k : κ},
    k ∈ (merge key wins m l).keys ↔ k ∈ m.keys ∨ k ∈ l.map key := by
  induction l with
  | nil => simp
  | cons a l ih =>
    intro m k
    rw [merge_cons, ih, mem_keys_put, List.map_cons, List.mem_cons, or_assoc]

/-- The keys of a merge, in the order in which they come first. -/
theorem keys_merge (l : List α) : (merge key wins OrderedMap.empty l).keys = (KComms.distinctOn key l).map key := by
  induction l using List.reverseRecOn with
  | nil => rfl
  | append_singleton l a ih =>
    have hkeys : ∀ m : OrderedMap κ α,
        (put key wins m a).keys = if key a ∈ m.keys then m.keys else m.keys ++ [key a] := by
      intro m
      unfold put
      split
      · rw [OrderedMap.keys_set]
      · rename_i current hget
        rw [if_pos (OrderedMap.mem_keys_iff.2 ⟨current, hget⟩)]
        split
        · rw [OrderedMap.keys_set, if_pos (OrderedMap.mem_keys_iff.2 ⟨current, hget⟩)]
        · rfl
    have hmem : key a ∈ (merge key wins OrderedMap.empty l).keys ↔ key a ∈ l.map key := by
      rw [mem_keys_merge]
      simp
    rw [merge_append, merge_cons, merge_nil, hkeys, KComms.distinctOn_concat, List.map_append]
    by_cases hold : key a ∈ l.map key
    · rw [if_pos (hmem.2 hold), if_pos hold, ih, List.map_nil, List.append_nil]
    · rw [if_neg (fun h => hold (hmem.1 h)), if_neg hold, ih]
      rfl

/-- The values of a map after a merge are old ones or merged ones. -/
theorem mem_values_merge : ∀ {m : OrderedMap κ α} {b : α}, b ∈ (merge key wins m l).values →
    b ∈ m.values ∨ b ∈ l := by
  induction l with
  | nil => intro m b h; exact Or.inl h
  | cons a l ih =>
    intro m b h
    have hput : ∀ {b}, b ∈ (put key wins m a).values → b ∈ m.values ∨ b = a := by
      intro b hb
      have hset : b ∈ (m.set (key a) a).values → b ∈ m.values ∨ b = a := by
        intro hb
        obtain ⟨k, hk⟩ := OrderedMap.mem_values.1 hb
        rw [OrderedMap.get?_set] at hk
        split at hk
        · exact Or.inr (Option.some.inj hk).symm
        · exact Or.inl (OrderedMap.mem_values.2 ⟨k, hk⟩)
      unfold put at hb
      split at hb
      · exact hset hb
      · split at hb
        · exact hset hb
        · exact Or.inl hb
    rcases ih h with h | h
    · rcases hput h with h | rfl
      · exact Or.inl h
      · exact Or.inr List.mem_cons_self
    · exact Or.inr (List.mem_cons_of_mem _ h)

/-- Values under new, distinct keys are appended. -/
theorem merge_of_new : ∀ {m : OrderedMap κ α}, (m.keys ++ l.map key).Nodup →
    merge key wins m l = m.setAll (l.map fun a => (key a, a)) := by
  induction l with
  | nil => intro m _; rfl
  | cons a l ih =>
    intro m h
    have hnew : key a ∉ m.keys := by
      intro hm
      rw [List.nodup_append] at h
      exact h.2.2 _ hm _ (by simp) rfl
    rw [merge_cons, put_of_not_mem hnew, ih]
    · rfl
    · rw [OrderedMap.keys_set, if_neg hnew]
      simpa using h

/-- Merging values under distinct keys into an empty map keeps them as they are. -/
theorem values_merge_of_new (h : (l.map key).Nodup) :
    (merge key wins OrderedMap.empty l).values = l := by
  have hnodup : ((l.map fun a => (key a, a)).map Prod.fst).Nodup := by rwa [List.map_map]
  rw [merge_of_new (by simpa using h)]
  change (OrderedMap.ofList (l.map fun a => (key a, a))).values = l
  rw [OrderedMap.values, OrderedMap.entries_ofList hnodup, List.map_map]
  exact List.map_id l

omit [DecidableEq κ] in
theorem Keyed.map_key (h : Keyed key m) : m.values.map key = m.keys := by
  unfold OrderedMap.values OrderedMap.keys
  rw [List.map_map]
  exact List.map_congr_left fun e he => (h e he).symm

/-- A map is rebuilt from its values. -/
theorem merge_values (h : Keyed key m) : merge key wins OrderedMap.empty m.values = m := by
  have hentries : (m.values.map fun a => (key a, a)) = m.entries := by
    unfold OrderedMap.values
    rw [List.map_map]
    conv_rhs => rw [← List.map_id m.entries]
    apply List.map_congr_left
    intro e he
    simp only [Function.comp, id]
    rw [← h e he]
  rw [merge_of_new (by rw [h.map_key]; simpa using m.keys_nodup), hentries]
  exact OrderedMap.ext_entries (OrderedMap.entries_ofList m.nodup)

/-! ### Merging again -/

theorem put_of_settled (h : Settled key wins m a) : put key wins m a = m := by
  obtain ⟨current, hget, hlose⟩ := h
  unfold put
  rw [hget]
  simp [hlose]

theorem merge_of_settled (h : ∀ a ∈ l, Settled key wins m a) :
    merge key wins m l = m := by
  induction l with
  | nil => rfl
  | cons a l ih =>
    rw [merge_cons, put_of_settled (h a (by simp))]
    exact ih fun b hb => h b (by simp [hb])

theorem settled_put (hw : StrictWins wins p) (ha : p a) :
    Settled key wins (put key wins m a) a := by
  unfold put
  split
  · exact ⟨a, by simp, hw.irrefl a ha⟩
  · rename_i current hget
    split
    · exact ⟨a, by simp, hw.irrefl a ha⟩
    · rename_i hlose
      exact ⟨current, hget, by simpa using hlose⟩

theorem Settled.put (hw : StrictWins wins p) {b : α} (hm : ∀ c ∈ m.values, p c) (ha : p a) (hb : p b)
    (h : Settled key wins m a) :
    Settled key wins (LatestWins.put key wins m b) a := by
  obtain ⟨current, hget, hlose⟩ := h
  by_cases hk : key b = key a
  · unfold LatestWins.put
    rw [hk, hget]
    dsimp only
    split
    · rename_i hwin
      refine ⟨b, by simp, ?_⟩
      have hcur : p current := hm current (OrderedMap.mem_values.2 ⟨_, hget⟩)
      by_contra hba
      have := hw.trans current b a hcur hb ha hwin (by simpa using hba)
      rw [hlose] at this
      cases this
    · exact ⟨current, hget, hlose⟩
  · unfold LatestWins.put
    split
    · exact ⟨current, by rw [OrderedMap.get?_set, if_neg hk]; exact hget, hlose⟩
    · split
      · exact ⟨current, by rw [OrderedMap.get?_set, if_neg hk]; exact hget, hlose⟩
      · exact ⟨current, hget, hlose⟩

theorem Settled.merge (hw : StrictWins wins p) (ha : p a) :
    ∀ {m : OrderedMap κ α}, (∀ c ∈ m.values, p c) → (∀ b ∈ l, p b) → Settled key wins m a →
      Settled key wins (LatestWins.merge key wins m l) a := by
  induction l with
  | nil => intro m _ _ h; exact h
  | cons b l ih =>
    intro m hm hl h
    have hb := hl b (by simp)
    refine ih (fun c hc => ?_) (fun c hc => hl c (by simp [hc])) (h.put hw hm ha hb)
    rcases mem_values_merge (l := [b]) hc with hc | hc
    · exact hm c hc
    · rwa [List.mem_singleton.1 hc]

/-- What was merged stays settled. -/
theorem settled_merge (hw : StrictWins wins p) (ha : a ∈ l) :
    ∀ {m : OrderedMap κ α}, (∀ c ∈ m.values, p c) → (∀ b ∈ l, p b) → Settled key wins (merge key wins m l) a := by
  induction l with
  | nil => cases ha
  | cons b l ih =>
    intro m hm hl
    have hb := hl b (by simp)
    have hm' : ∀ c ∈ (put key wins m b).values, p c := by
      intro c hc
      rcases mem_values_merge (l := [b]) hc with hc | hc
      · exact hm c hc
      · rwa [List.mem_singleton.1 hc]
    rcases List.mem_cons.1 ha with rfl | ha
    · have hs : Settled key wins (put key wins m a) a := settled_put hw hb
      have hrest := hs.merge hw hb hm' fun c (hc : c ∈ l) => hl c (by simp [hc])
      exact hrest
    · exact ih ha hm' fun c hc => hl c (by simp [hc])

/-! ### The revision that stands -/

variable (key wins) in
/-- A revision that wins against all revisions of its key before it, and against which no later one wins. -/
def Stands (l : List α) (a : α) : Prop :=
  ∃ before after, l = before ++ a :: after ∧ (∀ b ∈ before, key b = key a → wins b a = true) ∧
    ∀ b ∈ after, key b = key a → wins a b = false

omit [DecidableEq κ] in
theorem Stands.mem (h : Stands key wins l a) : a ∈ l := by
  obtain ⟨before, after, rfl, -⟩ := h
  simp

omit [DecidableEq κ] in
/-- A revision that stands before another one comes. -/
theorem stands_concat {b : α} : Stands key wins (l ++ [b]) a ↔
    (Stands key wins l a ∧ (key b = key a → wins a b = false)) ∨
      (b = a ∧ ∀ c ∈ l, key c = key a → wins c a = true) := by
  constructor
  · rintro ⟨before, after, hl, hbefore, hafter⟩
    rcases List.eq_nil_or_concat after with rfl | ⟨after, last, rfl⟩
    · obtain ⟨rfl, hlast⟩ := List.append_inj' hl rfl
      obtain rfl := List.singleton_injective hlast
      exact .inr ⟨rfl, hbefore⟩
    · rw [List.concat_eq_append] at hl hafter
      rw [← List.cons_append, ← List.append_assoc] at hl
      obtain ⟨rfl, hlast⟩ := List.append_inj' hl rfl
      obtain rfl := List.singleton_injective hlast
      exact .inl ⟨⟨before, after, rfl, hbefore, fun c hc => hafter c (List.mem_append_left _ hc)⟩,
        hafter b (List.mem_append_right _ List.mem_cons_self)⟩
  · rintro (⟨⟨before, after, rfl, hbefore, hafter⟩, hlast⟩ | ⟨rfl, hall⟩)
    · refine ⟨before, after ++ [b], by simp, hbefore, fun c hc => ?_⟩
      rcases List.mem_append.1 hc with hc | hc
      · exact hafter c hc
      · rw [List.mem_singleton.1 hc]
        exact hlast
    · exact ⟨l, [], rfl, hall, fun c hc => by cases hc⟩

/-- After a merge the map holds for each key the revision that stands.  `wins` compares ranks: a revision that wins
against one wins against all that do not win against it. -/
theorem get?_merge_iff (hrank : ∀ a b c, wins a c = true → wins a b = true ∨ wins b c = true)
    (htrans : ∀ a b c, wins a b = true → wins b c = true → wins a c = true) {k : κ} :
    (merge key wins OrderedMap.empty l).get? k = some a ↔ Stands key wins l a ∧ key a = k := by
  induction l using List.reverseRecOn generalizing k a with
  | nil =>
    constructor
    · intro h
      cases h
    · rintro ⟨h, -⟩
      exact absurd h.mem (by simp)
  | append_singleton l b ih =>
    rw [merge_append, merge_cons, merge_nil, stands_concat]
    have hset : ((merge key wins OrderedMap.empty l).set (key b) b).get? k = some a ↔
        (key b = k ∧ b = a) ∨ (key b ≠ k ∧ Stands key wins l a ∧ key a = k) := by
      rw [OrderedMap.get?_set]
      by_cases hk : key b = k
      · rw [if_pos hk]
        simp [hk]
      · rw [if_neg hk, ih]
        simp [hk]
    unfold put
    cases hcurrent : (merge key wins OrderedMap.empty l).get? (key b) with
    | none =>
      -- the first revision of its key
      have hnone : ∀ c ∈ l, key c ≠ key b := by
        intro c hc hkey
        have hmem : key b ∈ (merge key wins OrderedMap.empty l).keys :=
          mem_keys_merge.2 (.inr (hkey ▸ List.mem_map_of_mem hc))
        exact OrderedMap.get?_eq_none.1 hcurrent hmem
      rw [hset]
      constructor
      · rintro (⟨rfl, rfl⟩ | ⟨hne, hstands, rfl⟩)
        · exact ⟨.inr ⟨rfl, fun c hc hkey => absurd hkey (hnone c hc)⟩, rfl⟩
        · exact ⟨.inl ⟨hstands, fun hkey => absurd hkey hne⟩, rfl⟩
      · rintro ⟨⟨hstands, -⟩ | ⟨rfl, -⟩, rfl⟩
        · exact .inr ⟨fun hkey => hnone a hstands.mem hkey.symm, hstands, rfl⟩
        · exact .inl ⟨rfl, rfl⟩
    | some current =>
      obtain ⟨hstands, hkey⟩ := ih.1 hcurrent
      have hunique : ∀ c, Stands key wins l c → key c = key b → c = current := by
        intro c hc hkey
        have hcurrent' := ih.2 ⟨hc, hkey⟩
        rw [hcurrent] at hcurrent'
        exact (Option.some.inj hcurrent').symm
      dsimp only
      by_cases hwins : wins current b = true
      · rw [if_pos hwins, hset]
        constructor
        · rintro (⟨rfl, rfl⟩ | ⟨hne, ha, rfl⟩)
          · -- it wins against the one that stood, and so against all others
            refine ⟨.inr ⟨rfl, fun c hc hkey' => ?_⟩, rfl⟩
            obtain ⟨before, after, rfl, hbefore, hafter⟩ := hstands
            rcases List.mem_append.1 hc with hc | hc
            · exact htrans c current b (hbefore c hc (hkey'.trans hkey.symm)) hwins
            · rcases List.mem_cons.1 hc with rfl | hc
              · exact hwins
              · rcases hrank current c b hwins with h | h
                · rw [hafter c hc (hkey'.trans hkey.symm)] at h
                  cases h
                · exact h
          · exact ⟨.inl ⟨ha, fun h => absurd h hne⟩, rfl⟩
        · rintro ⟨⟨ha, hlast⟩ | ⟨rfl, -⟩, rfl⟩
          · by_cases hk : key b = key a
            · obtain rfl := hunique a ha hk.symm
              rw [hlast hk] at hwins
              cases hwins
            · exact .inr ⟨hk, ha, rfl⟩
          · exact .inl ⟨rfl, rfl⟩
      · rw [if_neg hwins, ih]
        rw [Bool.not_eq_true] at hwins
        constructor
        · rintro ⟨ha, rfl⟩
          refine ⟨.inl ⟨ha, fun hk => ?_⟩, rfl⟩
          rw [hunique a ha hk.symm]
          exact hwins
        · rintro ⟨⟨ha, -⟩ | ⟨rfl, hall⟩, rfl⟩
          · exact ⟨ha, rfl⟩
          · rw [hall current hstands.mem hkey] at hwins
            cases hwins

/-! ### Translating the revisions -/

/-- A translation that keeps keys, and winners among the revisions of one key, commutes with merging. -/
theorem map_merge {key' : β → κ} {wins' : β → β → Bool} {f : α → β} (hkey : ∀ a, key' (f a) = key a)
    (hwins : ∀ a b, p a → p b → key a = key b → wins' (f a) (f b) = wins a b) : ∀ {m : OrderedMap κ α},
    Keyed key m → (∀ c ∈ m.values, p c) → (∀ b ∈ l, p b) →
      (merge key wins m l).map f = merge key' wins' (m.map f) (l.map f) := by
  induction l with
  | nil => intro m _ _ _; rfl
  | cons b l ih =>
    intro m hkeyed hm hl
    have hb := hl b (by simp)
    have hput : (put key wins m b).map f = put key' wins' (m.map f) (f b) := by
      unfold put
      rw [hkey, OrderedMap.get?_map]
      cases hget : m.get? (key b) with
      | none => exact OrderedMap.map_set f m (key b) b
      | some current =>
        have hcur : p current := hm current (OrderedMap.mem_values.2 ⟨_, hget⟩)
        simp only [Option.map_some, hwins current b hcur hb (hkeyed.get? hget).symm]
        split
        · exact OrderedMap.map_set f m (key b) b
        · rfl
    rw [merge_cons, List.map_cons, merge_cons, ← hput]
    refine ih (hkeyed.put b) (fun c hc => ?_) fun c hc => hl c (by simp [hc])
    rcases mem_values_merge (l := [b]) hc with hc | hc
    · exact hm c hc
    · rwa [List.mem_singleton.1 hc]

end Merge

end LatestWins
