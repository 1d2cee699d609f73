import KComms.RateLimits.PlatformRateLimits

/-!
# What rate limits admit

Every decision of a run is that of a counter which knows of the calls of one key in one window only (`run_expected`): a
bucket counts all calls of its window as long as the window has not ended, and what is cleaned up are buckets of windows
that have (`TableInv`).  The bounds on what is admitted are facts of such a counter.
-/

namespace KComms.PlatformRateLimits

open FixedWindow (total)

/-! ### The counter -/

/-- The call was of this key in this window, and was counted. -/
def Entry.counted (key : Key) (window : Nat) (entry : Entry) : Bool :=
  entry.call.key = key ∧ entry.call.window = window ∧ entry.result.isOk

variable {entry : Entry} {bucket : Bucket}

theorem counted_iff {key : Key} {window : Nat} : entry.counted key window = true ↔
    entry.call.key = key ∧ entry.call.window = window ∧ entry.result.isOk = true := by
  unfold Entry.counted
  rw [decide_eq_true_eq]

/-- What has been spent of a key in a window. -/
def spent (log : List Entry) (key : Key) (window : Nat) : Nat := total (fun entry => entry.call.cost) (Entry.counted key window) log

/-- The result of a call in whose window so much has been spent. -/
def expected (call : Call) (spent : Nat) : Except Raised Decision :=
  if !call.valid then .error .invalidArguments
  else if !call.inRange then .error .outOfRange
  else if maximumBigint < spent + call.cost then .error .outOfRange
  else .ok (decision call (spent + call.cost))

/-- What the table has counted of a key in a window. -/
def countOf (table : List Bucket) (key : Key) (window : Nat) : Nat :=
  match table.find? fun bucket => bucket.key = key ∧ bucket.windowStartedAt = window * key.windowSeconds with
  | some bucket => bucket.requestCount
  | none => 0

/-- The table at the second `now`. -/
structure TableInv (log : List Entry) (table : List Bucket) (now : Nat) : Prop where
  expires : ∀ bucket ∈ table, bucket.expiresAt = bucket.windowStartedAt + bucket.windowSeconds
  counts : ∀ key window, 0 < key.windowSeconds → now < (window + 1) * key.windowSeconds →
    countOf table key window = spent log key window

theorem tableInv_nil (now : Nat) : TableInv [] [] now :=
  ⟨fun bucket hbucket => (by cases hbucket), fun _ _ _ _ => rfl⟩

section Table

variable {log : List Entry} {table : List Bucket} {now now' : Nat} {call : Call}

theorem TableInv.later (h : TableInv log table now) (hle : now ≤ now') : TableInv log table now' :=
  ⟨h.expires, fun key window hpos hlive => h.counts key window hpos (by omega)⟩

theorem spent_snoc (log : List Entry) (entry : Entry) (key : Key) (window : Nat) :
    spent (log ++ [entry]) key window =
      spent log key window + if entry.counted key window then entry.call.cost else 0 :=
  FixedWindow.total_snoc ..

/-- A call that raises is not counted. -/
theorem TableInv.raised (h : TableInv log table now) (call : Call) (raised : Raised) :
    TableInv (log ++ [⟨call, .error raised⟩]) table now := by
  refine ⟨h.expires, fun key window hpos hlive => ?_⟩
  have hnot : Entry.counted key window ⟨call, .error raised⟩ = false := by
    unfold Entry.counted
    simp [Except.isOk, Except.toBool]
  rw [spent_snoc, hnot, h.counts key window hpos hlive]
  rfl

theorem mem_expired (h : bucket ∈ expired call table) : bucket.expiresAt ≤ call.epochSecond := by
  unfold expired at h
  have hmem := List.mem_of_mem_filter (List.mem_of_mem_take h)
  rw [List.mem_insertionSort, List.mem_filter, decide_eq_true_eq] at hmem
  exact hmem.2

/-- The cleanup removes no bucket of a window that has not ended. -/
theorem TableInv.cleanup (h : TableInv log table call.epochSecond) :
    TableInv log (table.filter fun bucket => bucket ∉ expired call table) call.epochSecond := by
  refine ⟨fun bucket hbucket => h.expires bucket (List.mem_of_mem_filter hbucket), fun key window hpos hlive => ?_⟩
  rw [← h.counts key window hpos hlive]
  unfold countOf
  rw [List.find?_filter]
  have hsame : ∀ bucket ∈ table, decide ((decide (bucket ∉ expired call table) = true) ∧
      (decide (bucket.key = key ∧ bucket.windowStartedAt = window * key.windowSeconds) = true)) =
      decide (bucket.key = key ∧ bucket.windowStartedAt = window * key.windowSeconds) := by
    intro bucket hbucket
    by_cases hkey : bucket.key = key ∧ bucket.windowStartedAt = window * key.windowSeconds
    · have hexpires := h.expires bucket hbucket
      have hseconds : bucket.windowSeconds = key.windowSeconds := by
        rw [← hkey.1]
        rfl
      have hstays : bucket ∉ expired call table := by
        intro hgone
        have hended := mem_expired hgone
        rw [hexpires, hkey.2, hseconds] at hended
        rw [Nat.add_mul] at hlive
        omega
      simp [hstays, hkey]
    · simp [hkey]
  rw [List.find?_congr hsame]

theorem counts_iff : call.counts bucket = true ↔
    bucket.key = call.key ∧ bucket.windowStartedAt = call.window * call.key.windowSeconds := by
  unfold Call.counts
  rw [decide_eq_true_eq]
  rfl

theorem counts_eq : call.counts = fun bucket : Bucket =>
    decide (bucket.key = call.key ∧ bucket.windowStartedAt = call.window * call.key.windowSeconds) := by
  funext bucket
  rw [Bool.eq_iff_iff, counts_iff, decide_eq_true_eq]

theorem increment_snd : (increment call table).2 = countOf table call.key call.window + call.cost := by
  unfold increment countOf
  rw [counts_eq]
  cases table.find? fun bucket : Bucket =>
      decide (bucket.key = call.key ∧ bucket.windowStartedAt = call.window * call.key.windowSeconds) with
  | some bucket => rfl
  | none => exact (Nat.zero_add _).symm

/-- The upsert counts in one window of one key. -/
theorem countOf_increment (hpos : 0 < call.windowSeconds) (key : Key) (window : Nat) :
    countOf (increment call table).1 key window =
      countOf table key window + if call.key = key ∧ call.window = window then call.cost else 0 := by
  have hstarted : ∀ window', window' * call.key.windowSeconds = call.window * call.key.windowSeconds ↔
      window' = call.window := fun window' => Nat.mul_left_inj (show call.windowSeconds ≠ 0 by omega)
  unfold increment
  cases hfind : table.find? call.counts with
  | some found =>
    dsimp only
    unfold countOf
    rw [List.find?_map]
    have hsame : (fun bucket : Bucket => decide (bucket.key = key ∧ bucket.windowStartedAt = window * key.windowSeconds)) ∘
        (fun bucket : Bucket => if call.counts bucket then { bucket with requestCount := bucket.requestCount + call.cost }
          else bucket) =
        fun bucket : Bucket => decide (bucket.key = key ∧ bucket.windowStartedAt = window * key.windowSeconds) := by
      funext bucket
      simp only [Function.comp]
      split <;> rfl
    rw [hsame]
    by_cases hkey : call.key = key ∧ call.window = window
    · obtain ⟨rfl, rfl⟩ := hkey
      rw [counts_eq] at hfind
      rw [hfind]
      have hfound := List.find?_some hfind
      rw [decide_eq_true_eq] at hfound
      rw [if_pos ⟨rfl, rfl⟩]
      dsimp only [Option.map_some]
      rw [if_pos (counts_iff.2 hfound)]
    · rw [if_neg hkey]
      cases hother : table.find? fun bucket : Bucket =>
          decide (bucket.key = key ∧ bucket.windowStartedAt = window * key.windowSeconds) with
      | none => rfl
      | some bucket =>
        have hbucket := List.find?_some hother
        rw [decide_eq_true_eq] at hbucket
        have hnot : ¬ call.counts bucket = true := by
          intro hcounts
          obtain ⟨hbkey, hbstarted⟩ := counts_iff.1 hcounts
          apply hkey
          have hsamekey : call.key = key := hbkey.symm.trans hbucket.1
          refine ⟨hsamekey, ?_⟩
          rw [← hsamekey, hbstarted] at hbucket
          exact ((hstarted window).1 hbucket.2.symm).symm
        dsimp only [Option.map_some]
        rw [if_neg hnot]
        rfl
  | none =>
    dsimp only
    unfold countOf
    rw [List.find?_append]
    by_cases hkey : call.key = key ∧ call.window = window
    · obtain ⟨rfl, rfl⟩ := hkey
      rw [counts_eq] at hfind
      rw [hfind, if_pos ⟨rfl, rfl⟩, Option.none_or, List.find?_cons_of_pos]
      · exact (Nat.zero_add _).symm
      · rw [decide_eq_true_eq]
        exact ⟨rfl, rfl⟩
    · rw [if_neg hkey, List.find?_cons_of_neg, List.find?_nil, Option.or_none]
      · rfl
      · rw [decide_eq_true_eq]
        rintro ⟨hbkey, hbstarted⟩
        apply hkey
        have hsamekey : call.key = key := hbkey
        refine ⟨hsamekey, ?_⟩
        rw [← hsamekey] at hbstarted
        exact ((hstarted window).1 hbstarted.symm).symm

theorem increment_expires (h : ∀ bucket ∈ table, bucket.expiresAt = bucket.windowStartedAt + bucket.windowSeconds) :
    ∀ bucket ∈ (increment call table).1, bucket.expiresAt = bucket.windowStartedAt + bucket.windowSeconds := by
  unfold increment
  split
  · intro bucket hbucket
    obtain ⟨old, hold, rfl⟩ := List.mem_map.1 hbucket
    have := h old hold
    split
    · exact this
    · exact this
  · intro bucket hbucket
    rcases List.mem_append.1 hbucket with hold | hnew
    · exact h bucket hold
    · rw [List.mem_singleton.1 hnew]
      exact Nat.succ_mul ..

theorem live (hpos : 0 < call.windowSeconds) : call.epochSecond < (call.window + 1) * call.key.windowSeconds := by
  have hdiv := Nat.div_add_mod call.epochSecond call.windowSeconds
  have hmod := Nat.mod_lt call.epochSecond hpos
  change call.epochSecond < (call.epochSecond / call.windowSeconds + 1) * call.windowSeconds
  rw [Nat.add_mul, Nat.mul_comm]
  omega

theorem valid_iff : call.valid = true ↔
    call.keyDigest.length = 32 ∧ 0 < call.limit ∧ 0 < call.windowSeconds ∧ 0 < call.cost := by
  unfold Call.valid
  rw [decide_eq_true_eq]

/-- A call decides on what has been spent, and is counted. -/
theorem step_spec (h : TableInv log table now) (hle : now ≤ call.epochSecond) :
    ∃ table', step ⟨log, table⟩ call = ⟨log ++ [⟨call, expected call (spent log call.key call.window)⟩], table'⟩ ∧
      TableInv (log ++ [⟨call, expected call (spent log call.key call.window)⟩]) table' call.epochSecond := by
  have hnow := h.later hle
  unfold step allow expected
  dsimp only
  by_cases hvalid : call.valid = true
  · obtain ⟨-, -, hpos, -⟩ := valid_iff.1 hvalid
    have hclean := hnow.cleanup
    have hcount := hclean.counts call.key call.window hpos (live hpos)
    rw [hvalid]
    by_cases hrange : call.inRange = true
    · rw [hrange]
      have hsnd : (increment call (table.filter fun bucket => bucket ∉ expired call table)).2 =
          spent log call.key call.window + call.cost := by
        rw [increment_snd, hcount]
      simp only [Bool.not_true, Bool.false_eq_true, if_false]
      rw [hsnd]
      by_cases hbig : maximumBigint < spent log call.key call.window + call.cost
      · rw [if_pos hbig, if_pos hbig]
        exact ⟨table, rfl, hnow.raised _ _⟩
      · rw [if_neg hbig, if_neg hbig]
        refine ⟨_, rfl, increment_expires hclean.expires, fun key window hkey hlive => ?_⟩
        rw [countOf_increment hpos, hclean.counts key window hkey hlive, spent_snoc]
        congr 1
        unfold Entry.counted
        simp [Except.isOk, Except.toBool]
    · rw [Bool.not_eq_true] at hrange
      rw [hrange]
      exact ⟨table, rfl, hnow.raised _ _⟩
  · rw [Bool.not_eq_true] at hvalid
    rw [hvalid]
    exact ⟨table, rfl, hnow.raised _ _⟩

end Table

/-! ### Runs -/

section Runs

variable {calls : List Call} {call : Call}

/-- The clock of the database never goes back. -/
def Clocked (calls : List Call) : Prop := calls.Pairwise fun call call' => call.clock ≤ call'.clock

theorem run_snoc (calls : List Call) (call : Call) : run (calls ++ [call]) = step (run calls) call := by
  unfold run
  rw [List.foldl_append]
  rfl

theorem Clocked.snoc (h : Clocked (calls ++ [call])) :
    Clocked calls ∧ ∀ earlier ∈ calls, earlier.epochSecond ≤ call.epochSecond := by
  obtain ⟨hcalls, -, hlast⟩ := List.pairwise_append.1 h
  refine ⟨hcalls, fun earlier hearlier => ?_⟩
  have := hlast earlier hearlier call (by simp)
  unfold Call.epochSecond
  exact Nat.div_le_div_right this

theorem run_inv (h : Clocked calls) : ∃ now, TableInv (run calls).log (run calls).table now ∧
    ∀ bound, (∀ call ∈ calls, call.epochSecond ≤ bound) → now ≤ bound := by
  induction calls using List.reverseRecOn with
  | nil => exact ⟨0, tableInv_nil 0, fun _ _ => Nat.zero_le _⟩
  | append_singleton calls call ih =>
    obtain ⟨hcalls, hlast⟩ := h.snoc
    obtain ⟨now, hinv, hbound⟩ := ih hcalls
    obtain ⟨table, hstep, hinv'⟩ := step_spec hinv (hbound _ hlast)
    rw [run_snoc]
    refine ⟨call.epochSecond, ?_, fun bound hall => hall call (by simp)⟩
    rw [show run calls = ⟨(run calls).log, (run calls).table⟩ from rfl, hstep]
    exact hinv'

/-- The next call of a run. -/
theorem run_next (h : Clocked (calls ++ [call])) : (run (calls ++ [call])).log = (run calls).log ++
    [⟨call, expected call (spent (run calls).log call.key call.window)⟩] := by
  obtain ⟨hcalls, hlast⟩ := h.snoc
  obtain ⟨now, hinv, hbound⟩ := run_inv hcalls
  obtain ⟨table, hstep, -⟩ := step_spec hinv (hbound _ hlast)
  rw [run_snoc, show run calls = ⟨(run calls).log, (run calls).table⟩ from rfl, hstep]

theorem run_expected (h : Clocked calls) {before after : List Entry}
    (heq : (run calls).log = before ++ entry :: after) :
    entry.result = expected entry.call (spent before entry.call.key entry.call.window) := by
  induction calls using List.reverseRecOn generalizing after with
  | nil => exact absurd heq.symm (by simp [run])
  | append_singleton calls call ih =>
    rw [run_next h] at heq
    rcases List.eq_nil_or_concat after with rfl | ⟨init, last, rfl⟩
    · obtain ⟨hbefore, hentry⟩ := List.append_inj' heq rfl
      rw [← hbefore, ← (List.cons.inj hentry).1]
    · rw [List.concat_eq_append, ← List.cons_append, ← List.append_assoc] at heq
      exact ih h.snoc.1 (List.append_inj' heq rfl).1

/-- The calls of a key go as if there were no others. -/
theorem run_filter (h : Clocked calls) (key : Key) : (run calls).log.filter (fun entry => entry.call.key = key) =
    (run (calls.filter fun call => call.key = key)).log := by
  induction calls using List.reverseRecOn with
  | nil => rfl
  | append_singleton calls call ih =>
    have hrest := ih h.snoc.1
    have hfiltered : Clocked ((calls ++ [call]).filter fun call => call.key = key) :=
      List.Pairwise.sublist List.filter_sublist h
    rw [run_next h, List.filter_append, hrest]
    rw [List.filter_append] at hfiltered ⊢
    by_cases hkey : call.key = key
    · subst hkey
      rw [List.filter_cons_of_pos (by simp), List.filter_nil, List.filter_cons_of_pos (by simp), List.filter_nil] at *
      rw [run_next hfiltered, ← hrest]
      unfold spent
      rw [FixedWindow.total_filter]
      intro entry hcounted
      simp [(counted_iff.1 hcounted).1]
    · rw [List.filter_cons_of_neg (by simp [hkey]), List.filter_nil, List.filter_cons_of_neg (by simp [hkey]),
        List.filter_nil, List.append_nil, List.append_nil]

end Runs

/-! ### The bounds -/

/-- The call was admitted. -/
def Entry.allowed (entry : Entry) : Bool :=
  match entry.result with
  | .ok decision => decision.allowed
  | .error _ => false

/-- The cost of the admitted calls that satisfy a condition. -/
def admitted (log : List Entry) (p : Entry → Bool) : Nat :=
  total (fun entry => entry.call.cost) (fun entry => p entry && entry.allowed) log

theorem allowed_iff : entry.allowed = true ↔
    ∃ result, entry.result = .ok result ∧ result.allowed = true := by
  unfold Entry.allowed
  cases entry.result with
  | ok result => simp
  | error raised => simp

theorem expected_allowed {call : Call} {spent : Nat} {result : Decision} (h : expected call spent = .ok result) :
    call.valid = true ∧ call.inRange = true ∧ result = decision call (spent + call.cost) := by
  unfold expected at h
  by_cases hvalid : call.valid = true
  · by_cases hrange : call.inRange = true
    · rw [hvalid, hrange] at h
      simp only [Bool.not_true, Bool.false_eq_true, if_false] at h
      split at h
      · cases h
      · exact ⟨hvalid, hrange, (Except.ok.inj h).symm⟩
    · simp [hvalid, hrange] at h
  · simp [hvalid] at h

theorem decision_allowed {call : Call} {count : Nat} : (decision call count).allowed = true ↔ count ≤ call.limit := by
  unfold decision
  split
  · simp [*]
  · simp [*]

/-- What the limits of a run promise. -/
structure Limits (calls : List Call) : Prop where
  window : ∀ key limit window, admitted (run calls).log (fun entry =>
    entry.call.key = key ∧ entry.call.limit = limit ∧ entry.call.window = window) ≤ limit
  interval : ∀ (key : Key) limit start, admitted (run calls).log (fun entry =>
    entry.call.key = key ∧ entry.call.limit = limit ∧
      start ≤ entry.call.clock ∧ entry.call.clock ≤ start + 1000000 * key.windowSeconds) ≤ 2 * limit
  cleanup : ∀ before call after, calls = before ++ call :: after → ∀ bucket ∈ (run before).table,
    call.epochSecond < bucket.windowStartedAt + bucket.windowSeconds →
    ∃ bucket' ∈ (run (before ++ [call])).table, bucket'.key = bucket.key ∧
      bucket'.windowStartedAt = bucket.windowStartedAt ∧ bucket.requestCount ≤ bucket'.requestCount
  independent : ∀ key calls', Clocked calls' →
    (calls.filter fun call => call.key = key) = (calls'.filter fun call => call.key = key) →
    ((run calls).log.filter fun entry => entry.call.key = key) = (run calls').log.filter fun entry => entry.call.key = key
  retry : ∀ before entry after result, (run calls).log = before ++ entry :: after → entry.result = .ok result →
    result.allowed = false → 1 ≤ result.retryAfter ∧
      entry.call.epochSecond + result.retryAfter = (entry.call.window + 1) * entry.call.windowSeconds ∧
      ∀ before' first after', (run calls).log = before' ++ first :: after' → first.call.key = entry.call.key →
        first.call.limit = entry.call.limit → first.call.window = entry.call.window + 1 →
        (∀ earlier ∈ before', earlier.call.key = entry.call.key → earlier.call.window ≠ entry.call.window + 1) →
        0 < first.call.cost → first.call.cost ≤ first.call.limit →
        first.result = .ok ⟨true, 0⟩ ∨ first.result = .error .outOfRange ∧ maximumTimestamp < first.call.endsEpoch

section Bounds

variable {calls : List Call}

theorem admitted_window (h : Clocked calls) (key : Key) (limit window : Nat) : admitted (run calls).log (fun entry =>
    entry.call.key = key ∧ entry.call.limit = limit ∧ entry.call.window = window) ≤ limit := by
  -- the counter of the window also counts the calls with other limits
  have hbound : total (fun entry => entry.call.cost)
      (fun entry => Entry.counted key window entry && (decide (entry.call.limit = limit) && entry.allowed))
      (run calls).log ≤ limit := by
    apply FixedWindow.total_admitted_le
    intro before entry after heq hcounted hallowed
    rw [Bool.and_eq_true, decide_eq_true_eq] at hallowed
    obtain ⟨hkey, hwindow, -⟩ := counted_iff.1 hcounted
    obtain ⟨result, hresult, htrue⟩ := allowed_iff.1 hallowed.2
    rw [run_expected h heq] at hresult
    obtain ⟨-, -, rfl⟩ := expected_allowed hresult
    have hle := decision_allowed.1 htrue
    rw [hkey, hwindow, hallowed.1] at hle
    exact hle
  refine le_trans (FixedWindow.total_mono _ ?_) hbound
  intro entry _ hentry
  simp only [Bool.and_eq_true, decide_eq_true_eq] at hentry ⊢
  obtain ⟨⟨hkey, hlimit, hwindow⟩, hallowed⟩ := hentry
  obtain ⟨result, hresult, -⟩ := allowed_iff.1 hallowed
  exact ⟨counted_iff.2 ⟨hkey, hwindow, by rw [hresult]; rfl⟩, hlimit, hallowed⟩

theorem admitted_interval (h : Clocked calls) (key : Key) (limit start : Nat) : admitted (run calls).log (fun entry =>
    entry.call.key = key ∧ entry.call.limit = limit ∧
      start ≤ entry.call.clock ∧ entry.call.clock ≤ start + 1000000 * key.windowSeconds) ≤ 2 * limit := by
  have hfirst := admitted_window h key limit (start / (1000000 * key.windowSeconds))
  have hsecond := admitted_window h key limit (start / (1000000 * key.windowSeconds) + 1)
  have hboth := FixedWindow.total_or_le (fun entry : Entry => entry.call.cost)
    (fun entry => decide (entry.call.key = key ∧ entry.call.limit = limit ∧
      entry.call.window = start / (1000000 * key.windowSeconds)) && entry.allowed)
    (fun entry => decide (entry.call.key = key ∧ entry.call.limit = limit ∧
      entry.call.window = start / (1000000 * key.windowSeconds) + 1) && entry.allowed) (run calls).log
  rw [Nat.two_mul]
  refine le_trans (FixedWindow.total_mono _ ?_) (le_trans hboth (Nat.add_le_add hfirst hsecond))
  intro entry hentry hmet
  rw [Bool.and_eq_true, decide_eq_true_eq] at hmet
  obtain ⟨⟨hkey, hlimit, hfrom, hto⟩, hallowed⟩ := hmet
  obtain ⟨result, hresult, -⟩ := allowed_iff.1 hallowed
  obtain ⟨before, after, heq⟩ := List.append_of_mem hentry
  rw [run_expected h heq] at hresult
  obtain ⟨-, -, hpos, -⟩ := valid_iff.1 (expected_allowed hresult).1
  have hseconds : entry.call.windowSeconds = key.windowSeconds := by
    rw [← hkey]
    rfl
  have hwindow : entry.call.window = entry.call.clock / (1000000 * key.windowSeconds) := by
    unfold Call.window Call.epochSecond
    rw [Nat.div_div_eq_div_mul, hseconds]
  have hmeets := FixedWindow.div_eq_or_succ (by omega) hfrom hto
  rw [← hwindow] at hmeets
  rw [Bool.or_eq_true, Bool.and_eq_true, Bool.and_eq_true, decide_eq_true_eq, decide_eq_true_eq]
  rcases hmeets with hmeets | hmeets
  · exact Or.inl ⟨⟨hkey, hlimit, hmeets⟩, hallowed⟩
  · exact Or.inr ⟨⟨hkey, hlimit, hmeets⟩, hallowed⟩

/-- A bucket of a window that has not ended stays, and may count more. -/
theorem cleanup_keeps {before after : List Call} {call : Call} (h : Clocked (before ++ call :: after))
    (hbucket : bucket ∈ (run before).table) (hlive : call.epochSecond < bucket.windowStartedAt + bucket.windowSeconds) :
    ∃ bucket' ∈ (run (before ++ [call])).table, bucket'.key = bucket.key ∧
      bucket'.windowStartedAt = bucket.windowStartedAt ∧ bucket.requestCount ≤ bucket'.requestCount := by
  have hbefore : Clocked before := (List.pairwise_append.1 h).1
  obtain ⟨now, hinv, -⟩ := run_inv hbefore
  have hexpires := hinv.expires bucket hbucket
  have hkept : bucket ∈ (run before).table.filter fun bucket => bucket ∉ expired call (run before).table := by
    rw [List.mem_filter, decide_eq_true_eq]
    refine ⟨hbucket, fun hgone => ?_⟩
    have := mem_expired hgone
    omega
  rw [run_snoc]
  unfold step
  cases hallow : allow call (run before).table with
  | error raised => exact ⟨bucket, hbucket, rfl, rfl, le_refl _⟩
  | ok result =>
    dsimp only
    unfold allow at hallow
    dsimp only at hallow
    split at hallow
    · cases hallow
    split at hallow
    · cases hallow
    split at hallow
    · cases hallow
    rw [← Except.ok.inj hallow]
    unfold increment
    split
    · refine ⟨_, List.mem_map_of_mem hkept, ?_⟩
      split
      · exact ⟨rfl, rfl, Nat.le_add_right ..⟩
      · exact ⟨rfl, rfl, le_refl _⟩
    · exact ⟨bucket, List.mem_append_left _ hkept, rfl, rfl, le_refl _⟩

/-- The first call of a window is admitted. -/
theorem first_admitted {call : Call} (hvalid : call.valid = true) (hlimit : call.limit ≤ maximumBigint)
    (hwindow : call.windowSeconds ≤ maximumBigint) (hcost : call.cost ≤ call.limit) :
    expected call 0 = .ok ⟨true, 0⟩ ∨ expected call 0 = .error .outOfRange ∧ maximumTimestamp < call.endsEpoch := by
  unfold expected
  rw [hvalid]
  by_cases hends : call.endsEpoch ≤ maximumTimestamp
  · have hrange : call.inRange = true := by
      unfold Call.inRange
      rw [decide_eq_true_eq]
      exact ⟨hlimit, hwindow, by omega, hends⟩
    rw [hrange, Nat.zero_add]
    left
    simp only [Bool.not_true, Bool.false_eq_true, if_false]
    rw [if_neg (by omega)]
    unfold decision
    rw [if_pos hcost]
  · have hrange : call.inRange = false := by
      unfold Call.inRange
      rw [decide_eq_false_iff_not]
      exact fun hall => hends hall.2.2.2
    rw [hrange]
    exact Or.inr ⟨rfl, by omega⟩

theorem retry_later (h : Clocked calls) {before after : List Entry} {result : Decision}
    (heq : (run calls).log = before ++ entry :: after) (hresult : entry.result = .ok result)
    (hdenied : result.allowed = false) : 1 ≤ result.retryAfter ∧
      entry.call.epochSecond + result.retryAfter = (entry.call.window + 1) * entry.call.windowSeconds ∧
      ∀ before' first after', (run calls).log = before' ++ first :: after' → first.call.key = entry.call.key →
        first.call.limit = entry.call.limit → first.call.window = entry.call.window + 1 →
        (∀ earlier ∈ before', earlier.call.key = entry.call.key → earlier.call.window ≠ entry.call.window + 1) →
        0 < first.call.cost → first.call.cost ≤ first.call.limit →
        first.result = .ok ⟨true, 0⟩ ∨ first.result = .error .outOfRange ∧ maximumTimestamp < first.call.endsEpoch := by
  rw [run_expected h heq] at hresult
  obtain ⟨hvalid, hrange, rfl⟩ := expected_allowed hresult
  obtain ⟨hlength, hlimitPos, hpos, -⟩ := valid_iff.1 hvalid
  have hlive : entry.call.epochSecond < (entry.call.window + 1) * entry.call.windowSeconds := live hpos
  have hretry : (decision entry.call (spent before entry.call.key entry.call.window + entry.call.cost)).retryAfter =
      max 1 (entry.call.endsEpoch - entry.call.epochSecond) := by
    have hnot := mt decision_allowed.2 (by rw [hdenied]; simp)
    unfold decision
    rw [if_neg hnot]
  rw [hretry]
  unfold Call.endsEpoch
  refine ⟨by omega, by omega, ?_⟩
  intro before' first after' heq' hkey hlimit hwindow hfirst hcostPos hcost
  rw [run_expected h heq', hkey]
  have hnone : spent before' entry.call.key first.call.window = 0 := by
    apply FixedWindow.total_eq_zero
    intro earlier hearlier
    by_contra hcounted
    rw [Bool.not_eq_false] at hcounted
    obtain ⟨hearlierKey, hearlierWindow, -⟩ := counted_iff.1 hcounted
    exact hfirst earlier hearlier hearlierKey (hearlierWindow.trans hwindow)
  rw [hnone]
  have hdigest : first.call.keyDigest = entry.call.keyDigest := congrArg Key.keyDigest hkey
  have hseconds : first.call.windowSeconds = entry.call.windowSeconds := congrArg Key.windowSeconds hkey
  unfold Call.inRange at hrange
  rw [decide_eq_true_eq] at hrange
  apply first_admitted
  · rw [valid_iff, hdigest, hseconds]
    omega
  · omega
  · omega
  · exact hcost

end Bounds

theorem fixed_window_limits (calls : List Call) (hclock : Clocked calls) : Limits calls := by
  refine ⟨?_, ?_, ?_, ?_, ?_⟩
  · exact fun key limit window => admitted_window hclock key limit window
  · exact fun key limit start => admitted_interval hclock key limit start
  · rintro before call after rfl bucket hbucket hlive
    exact cleanup_keeps hclock hbucket hlive
  · intro key calls' hclock' hsame
    rw [run_filter hclock, run_filter hclock', hsame]
  · exact fun before entry after result heq hresult hdenied => retry_later hclock heq hresult hdenied

/-- A limit of two in a minute, called three times before the turn of the minute and three times after it. -/
def burst : List Call :=
  [57, 58, 58, 63, 63, 64].map fun second =>
    { scope := .instantRoomJoin, keyDigest := List.replicate 32 0, limit := 2, windowSeconds := 60, cost := 1,
      clock := second * 1000000, locked := fun _ => false }

theorem fixed_window_limits_burst : Limits burst ∧
    (run burst).log.map (fun entry => entry.result.toOption) =
      [some ⟨true, 0⟩, some ⟨true, 0⟩, some ⟨false, 2⟩, some ⟨true, 0⟩, some ⟨true, 0⟩, some ⟨false, 56⟩] :=
  ⟨fixed_window_limits burst (by unfold Clocked burst; decide), by decide⟩

end KComms.PlatformRateLimits
