import Mathlib.Data.Set.Basic
import KComms.Accounts.Scim

/-!
# Patches of a group

A patch is folded into the attributes before any entry is read as a UUID.  `membership` says what the operations of a
patch mean for a set of UUIDs; what is stored differs from it where an addition without a path leaves a member out, and
where a removal meets another spelling of its id.
-/

namespace KComms.Accounts

open Attempt

/-! ### What operations mean -/

/-- What an operation does to the members of a group. -/
inductive MembershipChange
  | insert (given : List ScimMember) (atPath : Bool)
  | set (given : List ScimMember)
  | clear
  | erase (text : String)
  | leave
  deriving DecidableEq, Repr

def ScimValue.members : ScimValue → List ScimMember
  | .list members => members
  | _ => []

def PatchOperation.change (op : PatchOperation) : MembershipChange :=
  match op.operation with
  | none => .leave
  | some name =>
    let operation := name.toLower
    match op.path, op.value with
    | .absent, .map attrs =>
      if attrs.has "members" then
        if operation = "add" then .insert (attrs.get "members" .null).members false
        else .set (attrs.get "members" .null).members
      else .leave
    | .text path, value =>
      if path = "members" then
        if operation = "add" then .insert value.asValue.members true
        else if operation = "replace" then .set value.asValue.members
        else if operation = "remove" then .clear
        else .leave
      else if operation = "remove" then
        match removedMember path with
        | some text => .erase text
        | none => .leave
      else .leave
    | _, _ => .leave

section Membership

variable (castUuid : String → Option String)

/-- The entries that give an id, in any spelling. -/
def Gives (given : List ScimMember) (id : String) : Prop :=
  ∃ text rest, .value text rest ∈ given ∧ castUuid text = some id

def MembershipChange.apply (members : Set String) : MembershipChange → Set String
  | .insert given _ => members ∪ {id | Gives castUuid given id}
  | .set given => {id | Gives castUuid given id}
  | .clear => ∅
  | .erase text => {id ∈ members | castUuid text ≠ some id}
  | .leave => members

/-- The members of a group after the changes, one after the other. -/
def membership (start : Set String) (changes : List MembershipChange) : Set String :=
  changes.foldl (MembershipChange.apply castUuid) start

/-! ### Where the code agrees -/

/-- An entry gives the id in another spelling than its own. -/
def Misspells (given : List ScimMember) (id : String) : Prop :=
  ∃ text rest, .value text rest ∈ given ∧ castUuid text = some id ∧ text ≠ id

/-- The id was given in another spelling after the list was last written as a whole; the last change comes first. -/
def Misspelled (id : String) : List MembershipChange → Prop
  | [] => False
  | .insert given true :: earlier => Misspells castUuid given id ∨ Misspelled id earlier
  | .insert given false :: _ => Misspells castUuid given id
  | .set given :: _ => Misspells castUuid given id
  | .clear :: _ => False
  | .erase _ :: earlier => Misspelled id earlier
  | .leave :: earlier => Misspelled id earlier

/-- The last change that decides about an id is no addition without a path that leaves out a member, and no removal of
an id that was given in another spelling; the last change comes first. -/
def Decided (start : Set String) (id : String) : List MembershipChange → Prop
  | [] => True
  | .insert given true :: earlier => Gives castUuid given id ∨ Decided start id earlier
  | .insert given false :: earlier => Gives castUuid given id ∨ id ∉ membership castUuid start earlier.reverse
  | .set _ :: _ => True
  | .clear :: _ => True
  | .erase text :: earlier =>
    (castUuid text = some id → ¬ Misspelled castUuid id earlier) ∧
      (castUuid text ≠ some id → Decided start id earlier)
  | .leave :: earlier => Decided start id earlier

end Membership

/-! ### The list of entries -/

/-- What the code does with the entries. -/
def MembershipChange.relist (listed : List ScimMember) : MembershipChange → List ScimMember
  | .insert given true => (listed ++ given).eraseDups
  | .insert given false => given
  | .set given => given
  | .clear => []
  | .erase text => listed.filter (!·.hasId text)
  | .leave => listed

variable {text : String} {given existing : List ScimMember} {latest : List MembershipChange} {ids : List String}
  {resources : List ScimResource}

section Relist

variable {castUuid : String → Option String} {own : List ScimMember} {start : Set String} {id : String}

theorem gives_append {listed : List ScimMember} :
    Gives castUuid (listed ++ given).eraseDups id ↔ Gives castUuid listed id ∨ Gives castUuid given id := by
  unfold Gives
  constructor
  · rintro ⟨text, rest, hmem, hcast⟩
    rw [List.mem_eraseDups, List.mem_append] at hmem
    rcases hmem with hmem | hmem
    · exact .inl ⟨text, rest, hmem, hcast⟩
    · exact .inr ⟨text, rest, hmem, hcast⟩
  · rintro (⟨text, rest, hmem, hcast⟩ | ⟨text, rest, hmem, hcast⟩)
    · exact ⟨text, rest, by rw [List.mem_eraseDups, List.mem_append]; exact .inl hmem, hcast⟩
    · exact ⟨text, rest, by rw [List.mem_eraseDups, List.mem_append]; exact .inr hmem, hcast⟩

theorem misspells_append {listed : List ScimMember} :
    Misspells castUuid (listed ++ given).eraseDups id ↔
      Misspells castUuid listed id ∨ Misspells castUuid given id := by
  unfold Misspells
  constructor
  · rintro ⟨text, rest, hmem, hcast⟩
    rw [List.mem_eraseDups, List.mem_append] at hmem
    rcases hmem with hmem | hmem
    · exact .inl ⟨text, rest, hmem, hcast⟩
    · exact .inr ⟨text, rest, hmem, hcast⟩
  · rintro (⟨text, rest, hmem, hcast⟩ | ⟨text, rest, hmem, hcast⟩)
    · exact ⟨text, rest, by rw [List.mem_eraseDups, List.mem_append]; exact .inl hmem, hcast⟩
    · exact ⟨text, rest, by rw [List.mem_eraseDups, List.mem_append]; exact .inr hmem, hcast⟩

theorem not_gives_nil : ¬ Gives castUuid [] id := by
  rintro ⟨text, rest, hmem, -⟩
  cases hmem

theorem not_misspells_nil : ¬ Misspells castUuid [] id := by
  rintro ⟨text, rest, hmem, -⟩
  cases hmem

theorem mem_filter_hasId {listed : List ScimMember} {erased rest : String} :
    .value text rest ∈ listed.filter (!·.hasId erased) ↔ .value text rest ∈ listed ∧ text ≠ erased := by
  simp [List.mem_filter, ScimMember.hasId]

/-- The entries after the changes, the last of them first. -/
def relisted (own : List ScimMember) (latest : List MembershipChange) : List ScimMember :=
  latest.reverse.foldl MembershipChange.relist own

theorem relisted_cons (change : MembershipChange) (earlier : List MembershipChange) :
    relisted own (change :: earlier) = change.relist (relisted own earlier) := by
  unfold relisted
  rw [List.reverse_cons, List.foldl_append]
  rfl

theorem membership_cons (change : MembershipChange) (earlier : List MembershipChange) :
    membership castUuid start (change :: earlier).reverse =
      change.apply castUuid (membership castUuid start earlier.reverse) := by
  unfold membership
  rw [List.reverse_cons, List.foldl_append]
  rfl

/-- The texts that are removed by id are spelled as the database spells ids. -/
def ErasesOwnSpelling (castUuid : String → Option String) (changes : List MembershipChange) : Prop :=
  ∀ text id, .erase text ∈ changes → castUuid text = some id → text = id

theorem misspelled_iff (hown : ¬ Misspells castUuid own id) (herase : ErasesOwnSpelling castUuid latest) :
    Misspells castUuid (relisted own latest) id ↔ Misspelled castUuid id latest := by
  induction latest with
  | nil => exact iff_of_false hown fun h => h
  | cons change earlier ih =>
    have ih := ih fun text id hmem => herase text id (List.mem_cons_of_mem _ hmem)
    rw [relisted_cons]
    cases change with
    | insert given atPath =>
      cases atPath with
      | false => exact Iff.rfl
      | true => exact misspells_append.trans (or_comm.trans (or_congr Iff.rfl ih))
    | set given => exact Iff.rfl
    | clear => exact iff_of_false not_misspells_nil fun h => h
    | erase erased =>
      refine Iff.trans ?_ ih
      constructor
      · rintro ⟨text, rest, hmem, hcast, hne⟩
        exact ⟨text, rest, (mem_filter_hasId.1 hmem).1, hcast, hne⟩
      · rintro ⟨text, rest, hmem, hcast, hne⟩
        refine ⟨text, rest, mem_filter_hasId.2 ⟨hmem, ?_⟩, hcast, hne⟩
        -- an erased text is no other spelling
        rintro rfl
        exact hne (herase text id List.mem_cons_self hcast)
    | leave => exact ih

/-- The entries give an id after the changes just when it is a member, if the changes are decided about it. -/
theorem gives_relisted_iff (hown : ∀ id, Gives castUuid own id ↔ id ∈ start) (hspelled : ¬ Misspells castUuid own id)
    (herase : ErasesOwnSpelling castUuid latest) :
    (Gives castUuid (relisted own latest) id ↔ id ∈ membership castUuid start latest.reverse) ↔
      Decided castUuid start id latest := by
  induction latest with
  | nil => exact iff_of_true (hown id) trivial
  | cons change earlier ih =>
    have hearlier : ErasesOwnSpelling castUuid earlier :=
      fun text id hmem => herase text id (List.mem_cons_of_mem _ hmem)
    have ih := ih hearlier
    rw [relisted_cons, membership_cons]
    cases change with
    | insert given atPath =>
      cases atPath with
      | false =>
        show (Gives castUuid given id ↔ id ∈ membership castUuid start earlier.reverse ∨ Gives castUuid given id) ↔
          Gives castUuid given id ∨ id ∉ membership castUuid start earlier.reverse
        grind
      | true =>
        show (Gives castUuid (relisted own earlier ++ given).eraseDups id ↔
            id ∈ membership castUuid start earlier.reverse ∨ Gives castUuid given id) ↔
          Gives castUuid given id ∨ Decided castUuid start id earlier
        rw [gives_append, ← ih]
        grind
    | set given => exact iff_of_true Iff.rfl trivial
    | clear => exact iff_of_true (iff_of_false not_gives_nil fun h => h) trivial
    | erase erased =>
      by_cases herased : castUuid erased = some id
      · -- what the removal leaves of the id are its other spellings
        have hsame : erased = id := herase erased id List.mem_cons_self herased
        have hleft : Gives castUuid ((relisted own earlier).filter (!·.hasId erased)) id ↔
            Misspells castUuid (relisted own earlier) id := by
          constructor
          · rintro ⟨text, rest, hmem, hcast⟩
            obtain ⟨hmem, hne⟩ := mem_filter_hasId.1 hmem
            exact ⟨text, rest, hmem, hcast, hsame ▸ hne⟩
          · rintro ⟨text, rest, hmem, hcast, hne⟩
            exact ⟨text, rest, mem_filter_hasId.2 ⟨hmem, hsame ▸ hne⟩, hcast⟩
        have hout : id ∉ MembershipChange.apply castUuid (membership castUuid start earlier.reverse) (.erase erased) :=
          fun h => h.2 herased
        rw [misspelled_iff hspelled hearlier] at hleft
        show (Gives castUuid ((relisted own earlier).filter (!·.hasId erased)) id ↔ _) ↔ _ ∧ _
        rw [hleft]
        grind
      · have hleft : Gives castUuid ((relisted own earlier).filter (!·.hasId erased)) id ↔
            Gives castUuid (relisted own earlier) id := by
          constructor
          · rintro ⟨text, rest, hmem, hcast⟩
            exact ⟨text, rest, (mem_filter_hasId.1 hmem).1, hcast⟩
          · rintro ⟨text, rest, hmem, hcast⟩
            refine ⟨text, rest, mem_filter_hasId.2 ⟨hmem, ?_⟩, hcast⟩
            rintro rfl
            exact herased hcast
        have hkept : id ∈ MembershipChange.apply castUuid (membership castUuid start earlier.reverse) (.erase erased) ↔
            id ∈ membership castUuid start earlier.reverse := ⟨fun h => h.1, fun h => ⟨h, herased⟩⟩
        show (Gives castUuid ((relisted own earlier).filter (!·.hasId erased)) id ↔ _) ↔ _ ∧ _
        rw [hleft, hkept, ih]
        grind
    | leave => exact ih

end Relist

/-! ### The attributes of a patch -/

section Patch

variable {attrs attrs' changes : ScimAttrs} {key key' : String} {value default : ScimValue}

theorem ScimAttrs.get_put : (attrs.put key value).get key default = value := by
  simp [ScimAttrs.get, ScimAttrs.put]

theorem ScimAttrs.get_put_of_ne (h : key ≠ key') : (attrs.put key' value).get key default = attrs.get key default := by
  have hfind : (attrs.filter fun entry => entry.1 ≠ key').find? (fun entry => entry.1 = key) =
      attrs.find? fun entry => entry.1 = key := by
    rw [List.find?_filter]
    congr 1
    funext entry
    by_cases hkey : entry.1 = key
    · simp [hkey, h]
    · simp [hkey]
  simp only [ScimAttrs.get, ScimAttrs.put, List.find?_cons, Ne.symm h, decide_false]
  rw [hfind]

theorem ScimAttrs.get_of_has (h : attrs.has key) (default' : ScimValue) :
    attrs.get key default = attrs.get key default' := by
  obtain ⟨entry, hmem, hkey⟩ := List.any_eq_true.1 h
  have hsome : (attrs.find? fun entry => entry.1 = key).isSome := List.find?_isSome.2 ⟨entry, hmem, hkey⟩
  obtain ⟨found, hfound⟩ := Option.isSome_iff_exists.1 hsome
  unfold ScimAttrs.get
  rw [hfound]
  rfl

theorem ScimAttrs.get_of_not_has (h : ¬ attrs.has key) : attrs.get key default = default := by
  have hnone : (attrs.find? fun entry => entry.1 = key) = none := by
    rw [List.find?_eq_none]
    intro entry hmem hkey
    exact h (List.any_eq_true.2 ⟨entry, hmem, hkey⟩)
  unfold ScimAttrs.get
  rw [hnone]
  rfl

theorem ScimAttrs.get_merge : (attrs.merge changes).get key default =
    if changes.has key then changes.get key default else attrs.get key default := by
  unfold ScimAttrs.merge ScimAttrs.get
  rw [List.find?_append]
  split
  · rename_i h
    obtain ⟨entry, hmem, hkey⟩ := List.any_eq_true.1 h
    have hsome : (changes.find? fun entry => entry.1 = key).isSome := List.find?_isSome.2 ⟨entry, hmem, hkey⟩
    obtain ⟨found, hfound⟩ := Option.isSome_iff_exists.1 hsome
    rw [hfound]
    rfl
  · rename_i h
    have hnone : (changes.find? fun entry => entry.1 = key) = none := by
      rw [List.find?_eq_none]
      intro entry hmem hkey
      exact h (List.any_eq_true.2 ⟨entry, hmem, hkey⟩)
    have hfind : (attrs.filter fun entry => !ScimAttrs.has changes entry.1).find? (fun entry => entry.1 = key) =
        attrs.find? fun entry => entry.1 = key := by
      rw [List.find?_filter]
      congr 1
      funext entry
      by_cases hkey : entry.1 = key
      · simp [hkey, h]
      · simp [hkey]
    rw [hnone, hfind, Option.none_or]

variable {resource : ScimResource} {op : PatchOperation} {castUuid : String → Option String}

/-- The entries of the members in the attributes of a patch. -/
def listed (attrs : ScimAttrs) (resource : ScimResource) : List ScimMember :=
  (attrs.get "members" (ownMembers resource)).members

theorem listed_put (value : ScimValue) : listed (attrs.put "members" value) resource = value.members := by
  unfold listed
  rw [ScimAttrs.get_put]

theorem listed_put_of_ne (h : key ≠ "members") : listed (attrs.put key value) resource = listed attrs resource := by
  unfold listed
  rw [ScimAttrs.get_put_of_ne h.symm]

theorem listed_merge (attrs changes : ScimAttrs) (resource : ScimResource) :
    listed (attrs.merge changes) resource =
      if changes.has "members" then (changes.get "members" .null).members else listed attrs resource := by
  unfold listed
  rw [ScimAttrs.get_merge]
  split
  · rename_i h
    rw [ScimAttrs.get_of_has h .null]
  · rfl

theorem patchMembers_commits (h : (patchMembers attrs resource).Commits existing) :
    existing = listed attrs resource := by
  unfold patchMembers at h
  unfold listed
  split at h
  · rename_i members hmembers
    rw [commits_pure] at h
    rw [hmembers, ← h]
    rfl
  · exact absurd h (commits_rollback _ _)

theorem removableMembers_commits
    (h : (removableMembers attrs resource).Commits existing) : existing = listed attrs resource := by
  unfold removableMembers at h
  unfold listed
  split at h
  · rename_i members hmembers
    simp only [commits_bind, commits_pure] at h
    obtain ⟨-, -, h⟩ := h
    rw [hmembers, ← h]
    rfl
  · rename_i hmembers
    rw [commits_pure] at h
    rw [hmembers, ← h]
    rfl
  · exact absurd h (commits_rollback _ _)

/-- The operations with `members` as their path. -/
private theorem patchStep_members {name : String} (hname : op.operation = some name) (hpath : op.path = .text "members")
    (h : (patchStep resource attrs op).Commits attrs') :
    listed attrs' resource =
      (if name.toLower = "add" then MembershipChange.insert op.value.asValue.members true
        else if name.toLower = "replace" then .set op.value.asValue.members
        else if name.toLower = "remove" then .clear
        else .leave).relist (listed attrs resource) := by
  have hother : ["active", "displayName", "userName", "externalId"].contains "members" = false := by decide
  unfold patchStep at h
  rw [hname, hpath] at h
  simp only [hother, Bool.and_false, Bool.false_eq_true, if_false, String.reduceEq, decide_false, decide_true,
    Bool.and_true, decide_eq_true_eq] at h
  by_cases hadd : name.toLower = "add"
  · simp only [hadd, String.reduceEq, if_false, decide_true] at h
    rw [if_pos hadd]
    split at h
    · rename_i added _ hvalue
      simp only [commits_bind, commits_pure] at h
      obtain ⟨existing, hexisting, h⟩ := h
      rw [← h, listed_put, patchMembers_commits hexisting, hvalue]
      rfl
    · exact absurd h (commits_rollback _ _)
  · rw [if_neg hadd]
    simp only [hadd, decide_false] at h
    by_cases hreplace : name.toLower = "replace"
    · rw [if_pos hreplace] at h ⊢
      rw [commits_pure] at h
      rw [← h, listed_put]
      rfl
    · rw [if_neg hreplace] at h ⊢
      by_cases hremove : name.toLower = "remove"
      · rw [if_pos hremove] at h ⊢
        rw [commits_pure] at h
        rw [← h, listed_put]
        rfl
      · rw [if_neg hremove, if_neg hremove] at h
        exact absurd h (commits_rollback _ _)

/-- The operations with another path. -/
private theorem patchStep_path {name path : String} (hname : op.operation = some name) (hpath : op.path = .text path)
    (hmembers : path ≠ "members") (h : (patchStep resource attrs op).Commits attrs') :
    listed attrs' resource =
      (if name.toLower = "remove" then
          match removedMember path with
          | some text => MembershipChange.erase text
          | none => .leave
        else .leave).relist (listed attrs resource) := by
  unfold patchStep at h
  rw [hname, hpath] at h
  dsimp only at h
  split at h
  · -- another attribute is put
    rename_i hputs
    have hremove : name.toLower ≠ "remove" := by
      intro hremove
      simp [hremove] at hputs
    rw [commits_pure] at h
    rw [if_neg hremove, ← h, listed_put_of_ne hmembers]
    rfl
  · split at h
    · rename_i hputs
      have hremove : name.toLower ≠ "remove" := by
        intro hremove
        simp [hremove] at hputs
      rw [commits_pure] at h
      rw [if_neg hremove, ← h, listed_put_of_ne (by decide)]
      rfl
    · simp only [hmembers, decide_false, Bool.and_false, Bool.false_eq_true, if_false] at h
      split at h
      · rename_i hremove
        rw [if_pos hremove]
        split at h
        · exact absurd h (commits_rollback _ _)
        · rename_i text htext
          simp only [commits_bind, commits_pure] at h
          obtain ⟨existing, hexisting, h⟩ := h
          rw [← h, listed_put, removableMembers_commits hexisting, htext]
          rfl
      · exact absurd h (commits_rollback _ _)

/-- An operation that is accepted relists the entries. -/
theorem patchStep_listed (h : (patchStep resource attrs op).Commits attrs') :
    listed attrs' resource = op.change.relist (listed attrs resource) := by
  unfold PatchOperation.change
  cases hname : op.operation with
  | none =>
    unfold patchStep at h
    rw [hname] at h
    exact absurd h (commits_rollback _ _)
  | some name =>
    dsimp only
    cases hpath : op.path with
    | text path =>
      dsimp only
      by_cases hmembers : path = "members"
      · subst hmembers
        rw [if_pos rfl]
        exact patchStep_members hname hpath h
      · rw [if_neg hmembers]
        exact patchStep_path hname hpath hmembers h
    | absent =>
      unfold patchStep at h
      rw [hname, hpath] at h
      dsimp only at h
      cases hvalue : op.value with
      | map changes =>
        rw [hvalue] at h
        dsimp only at h ⊢
        split at h
        · rw [commits_pure] at h
          rw [← h, listed_merge]
          split
          · split <;> rfl
          · rfl
        · exact absurd h (commits_rollback _ _)
      | value plain =>
        rw [hvalue] at h
        exact absurd h (commits_rollback _ _)
    | other =>
      unfold patchStep at h
      rw [hname, hpath] at h
      exact absurd h (commits_rollback _ _)

theorem foldlM_listed {operations : List PatchOperation}
    (h : (operations.foldlM (patchStep resource) attrs).Commits attrs') :
    listed attrs' resource =
      (operations.map PatchOperation.change).foldl MembershipChange.relist (listed attrs resource) := by
  induction operations generalizing attrs with
  | nil =>
    rw [List.foldlM_nil, commits_pure] at h
    rw [h]
    rfl
  | cons op operations ih =>
    rw [List.foldlM_cons, commits_bind] at h
    obtain ⟨next, hnext, h⟩ := h
    rw [ih h, patchStep_listed hnext]
    rfl

/-- The entries after a patch that is accepted; before it they are the members of the group. -/
theorem patchAttrs_listed {request : PatchRequest} (h : (patchAttrs request resource).Commits attrs) :
    listed attrs resource =
      relisted (resource.members.map fun id => .value id "") (request.operations.map PatchOperation.change).reverse := by
  simp only [patchAttrs, commits_bind, commits_check] at h
  obtain ⟨-, -, -, -, h⟩ := h
  rw [foldlM_listed h]
  unfold relisted
  rw [List.reverse_reverse]
  rfl

theorem patchAttrs_length {request : PatchRequest} (h : (patchAttrs request resource).Commits attrs) :
    1 ≤ request.operations.length ∧ request.operations.length ≤ 25 := by
  simp only [patchAttrs, commits_bind, commits_check] at h
  obtain ⟨-, hlength, -⟩ := h
  simpa using hlength

theorem removedMember_some {path : String} (h : removedMember path = some text) :
    text.length = 36 ∧ text.toList.all uuidCharacter = true := by
  unfold removedMember at h
  dsimp only at h
  split at h
  · rename_i hid
    obtain rfl := Option.some.inj h
    simp only [Bool.and_eq_true, decide_eq_true_eq] at hid
    exact hid.1
  · cases h

theorem change_erase (h : op.change = .erase text) :
    text.length = 36 ∧ text.toList.all uuidCharacter = true := by
  unfold PatchOperation.change at h
  split at h
  · cases h
  · dsimp only at h
    split at h
    · split at h
      · split at h <;> cases h
      · cases h
    · split at h
      · split at h
        · cases h
        · split at h
          · cases h
          · split at h <;> cases h
      · split at h
        · split at h
          · rename_i hremoved
            cases h
            exact removedMember_some hremoved
          · cases h
        · cases h
    · cases h

/-! ### The members that are stored -/

theorem mem_castMembers {members : List ScimMember} (h : castMembers castUuid members = some ids)
    (id : String) : id ∈ ids ↔ Gives castUuid members id := by
  induction members generalizing ids with
  | nil =>
    obtain rfl : [] = ids := Option.some.inj h
    exact iff_of_false (by simp) not_gives_nil
  | cons member members ih =>
    unfold castMembers at h
    rw [List.mapM_cons, Option.bind_eq_bind, Option.bind_eq_some_iff] at h
    obtain ⟨found, hfound, h⟩ := h
    rw [Option.bind_eq_bind, Option.bind_eq_some_iff] at h
    obtain ⟨rest, hrest, h⟩ := h
    obtain rfl : found :: rest = ids := Option.some.inj h
    rw [List.mem_cons, ih hrest]
    unfold Gives
    cases member with
    | value text rest =>
      constructor
      · rintro (rfl | ⟨text', rest', hmem, hcast⟩)
        · exact ⟨text, rest, List.mem_cons_self, hfound⟩
        · exact ⟨text', rest', List.mem_cons_of_mem _ hmem, hcast⟩
      · rintro ⟨text', rest', hmem, hcast⟩
        rcases List.mem_cons.1 hmem with heq | hmem
        · cases heq
          exact .inl (Option.some.inj (hcast.symm.trans hfound))
        · exact .inr ⟨text', rest', hmem, hcast⟩
    | unidentified rest => cases hfound
    | other rest => cases hfound

theorem scimMembers_commits (h : (scimMembers castUuid resources .group value).Commits ids) (id : String) :
    id ∈ ids ↔ Gives castUuid value.members id := by
  unfold scimMembers at h
  split at h
  · cases ‹ScimKind.group = .user›
  · cases ‹ScimKind.group = .user›
  · rw [commits_pure] at h
    subst h
    exact iff_of_false (by simp) not_gives_nil
  · rename_i members _ _
    simp only [commits_bind] at h
    obtain ⟨-, -, h⟩ := h
    split at h
    · exact absurd h (commits_rollback _ _)
    · rename_i cast hcast
      simp only [commits_bind, commits_pure] at h
      obtain ⟨-, -, rfl⟩ := h
      rw [List.mem_eraseDups]
      exact mem_castMembers hcast id
  · exact absurd h (commits_rollback _ _)

theorem gives_own (hstored : ∀ member ∈ resource.members, castUuid member = some member) (id : String) :
    Gives castUuid (resource.members.map fun id => .value id "") id ↔ id ∈ resource.members := by
  constructor
  · rintro ⟨text, rest, hmem, hcast⟩
    obtain ⟨member, hmember, heq⟩ := List.mem_map.1 hmem
    cases heq
    rw [hstored text hmember] at hcast
    obtain rfl := Option.some.inj hcast
    exact hmember
  · intro hmem
    exact ⟨id, "", List.mem_map.2 ⟨id, hmem, rfl⟩, hstored id hmem⟩

theorem not_misspells_own (hstored : ∀ member ∈ resource.members, castUuid member = some member) (id : String) :
    ¬ Misspells castUuid (resource.members.map fun id => .value id "") id := by
  rintro ⟨text, rest, hmem, hcast, hne⟩
  obtain ⟨member, hmember, heq⟩ := List.mem_map.1 hmem
  cases heq
  rw [hstored text hmember] at hcast
  exact hne (Option.some.inj hcast)

theorem changedMembers_commits {members : List String}
    (hstored : ∀ member ∈ resource.members, castUuid member = some member)
    (h : (changedMembers castUuid resources .group attrs resource).Commits members) (id : String) :
    id ∈ members ↔ Gives castUuid (listed attrs resource) id := by
  unfold changedMembers at h
  split at h
  · rename_i hhas
    rw [scimMembers_commits h id]
    unfold listed
    rw [ScimAttrs.get_of_has hhas (ownMembers resource)]
  · rename_i hhas
    rw [commits_pure] at h
    subst h
    unfold listed
    rw [ScimAttrs.get_of_not_has hhas]
    exact (gives_own hstored id).symm

end Patch

/-! ### Patches -/

section Groups

variable {facts : ScimFacts} {castUuid : String → Option String} {rawId version : String} {request : PatchRequest}
  {directory directory' : ScimDirectory}

/-- The directory after a patch of a group; one that is rejected leaves no trace. -/
def afterPatch (facts : ScimFacts) (castUuid : String → Option String) (rawId version : String)
    (request : PatchRequest) (directory : ScimDirectory) : ScimDirectory :=
  match (scimMutate facts castUuid .group rawId (.patch request) version directory).outcome with
  | .ok directory' => directory'
  | .error _ => directory

theorem findResource_update (resources : List ScimResource) (kind : ScimKind) (id : String)
    {change : ScimResource → ScimResource} (hid : ∀ resource, (change resource).id = resource.id)
    (hkind : ∀ resource, (change resource).kind = resource.kind) :
    findResource (updateResource resources id change) kind id = (findResource resources kind id).map change := by
  unfold findResource updateResource
  induction resources with
  | nil => rfl
  | cons resource resources ih =>
    rw [List.map_cons, List.find?_cons, List.find?_cons]
    by_cases hsame : resource.id = id
    · rw [if_pos hsame, hid, hkind]
      split
      · rfl
      · exact ih
    · rw [if_neg hsame]
      simp only [hsame, decide_false]
      exact ih

/-- What a patch that is accepted stores. -/
theorem patch_commits (hstored : ∀ resource ∈ directory.resources, ∀ member ∈ resource.members,
      castUuid member = some member)
    (h : (scimMutate facts castUuid .group rawId (.patch request) version directory).Commits directory') :
    (1 ≤ request.operations.length ∧ request.operations.length ≤ 25) ∧
      ∃ id resource resource', castUuid rawId = some id ∧ findResource directory.resources .group id = some resource ∧
        findResource directory'.resources .group id = some resource' ∧
        ∀ member, member ∈ resource'.members ↔
          Gives castUuid (relisted (resource.members.map fun id => .value id "")
            (request.operations.map PatchOperation.change).reverse) member := by
  unfold scimMutate at h
  split at h
  · exact absurd h (commits_rollback _ _)
  rename_i id hid
  simp only [commits_bind, commits_check, commits_pure] at h
  obtain ⟨-, -, resource, hresource, attrs, hattrs, -, -, -, -, name, -, members, hmembers, users, -, rfl⟩ := h
  have hattrs : (patchAttrs request resource).Commits attrs := hattrs
  have hfound : findResource directory.resources .group id = some resource := by
    unfold lockedResource at hresource
    split at hresource
    · exact absurd hresource (commits_rollback _ _)
    · rename_i found hfound
      simp only [commits_bind, commits_pure] at hresource
      obtain ⟨-, -, rfl⟩ := hresource
      exact hfound
  refine ⟨patchAttrs_length hattrs, id, resource,
    { resource with
      displayName := name.getD resource.displayName
      members := members
      lockVersion := resource.lockVersion + 1 }, hid, hfound, ?_, fun member => ?_⟩
  · refine Eq.trans (findResource_update directory.resources .group id ?_ ?_) ?_
    · exact fun _ => rfl
    · exact fun _ => rfl
    · rw [hfound]
      rfl
  · rw [← patchAttrs_listed hattrs]
    exact changedMembers_commits (hstored resource (List.mem_of_find?_eq_some hfound)) hmembers member

/-- A patch that is accepted stores what its operations mean just when the last change that decides about each id is
no addition without a path that leaves out a member, and no removal of an id that was given in another spelling; one
that is rejected changes nothing. -/
theorem patch_membership (facts : ScimFacts) (castUuid : String → Option String) (rawId version : String)
    (request : PatchRequest) (directory : ScimDirectory)
    (hlower : ∀ text id, text.length = 36 → text.toList.all uuidCharacter = true → castUuid text = some id → text = id)
    (hstored : ∀ resource ∈ directory.resources, ∀ member ∈ resource.members, castUuid member = some member) :
    (∀ directory', (scimMutate facts castUuid .group rawId (.patch request) version directory).Commits directory' →
      afterPatch facts castUuid rawId version request directory = directory' ∧
      (1 ≤ request.operations.length ∧ request.operations.length ≤ 25) ∧
      ∃ id resource resource', castUuid rawId = some id ∧ findResource directory.resources .group id = some resource ∧
        findResource directory'.resources .group id = some resource' ∧
        ((∀ member, member ∈ resource'.members ↔
            member ∈ membership castUuid {own | own ∈ resource.members}
              (request.operations.map PatchOperation.change)) ↔
          ∀ member, Decided castUuid {own | own ∈ resource.members} member
            (request.operations.map PatchOperation.change).reverse)) ∧
    ((∀ directory', ¬ (scimMutate facts castUuid .group rawId (.patch request) version directory).Commits directory') →
      afterPatch facts castUuid rawId version request directory = directory) := by
  constructor
  · intro directory' h
    obtain ⟨hlength, id, resource, resource', hid, hfound, hfound', hmembers⟩ := patch_commits hstored h
    refine ⟨?_, hlength, id, resource, resource', hid, hfound, hfound', ?_⟩
    · unfold afterPatch
      rw [h]
    have hstored := hstored resource (List.mem_of_find?_eq_some hfound)
    have herase : ErasesOwnSpelling castUuid (request.operations.map PatchOperation.change).reverse := by
      intro text id hmem hcast
      obtain ⟨op, -, hop⟩ := List.mem_map.1 (List.mem_reverse.1 hmem)
      obtain ⟨hlength, hall⟩ := change_erase hop
      exact hlower text id hlength hall hcast
    refine forall_congr' fun member => ?_
    rw [hmembers member]
    have hiff := gives_relisted_iff (gives_own hstored) (not_misspells_own hstored member) herase
    rw [List.reverse_reverse] at hiff
    exact hiff
  · intro h
    unfold afterPatch
    split
    · rename_i directory' hdirectory'
      exact absurd hdirectory' (h directory')
    · rfl

end Groups

/-! ### A group with a member -/

/-- `Ecto.UUID.cast` on the texts of the example. -/
def sampleCast (text : String) : Option String :=
  if text = "AAAAAAAA-0000-4000-8000-000000000001" then some "aaaaaaaa-0000-4000-8000-000000000001"
  else if ["aaaaaaaa-0000-4000-8000-000000000001", "bbbbbbbb-0000-4000-8000-000000000002",
      "cccccccc-0000-4000-8000-000000000003"].contains text then some text
  else none

def sampleUserResource (id : String) : ScimResource where
  id := id
  userId := some id
  kind := .user
  externalId := id
  displayName := "User"
  members := []
  lockVersion := 1

/-- Two users, and a group with the first of them. -/
def sampleDirectory : ScimDirectory where
  users := .empty
  resources :=
    [sampleUserResource "aaaaaaaa-0000-4000-8000-000000000001", sampleUserResource "bbbbbbbb-0000-4000-8000-000000000002",
      { id := "cccccccc-0000-4000-8000-000000000003", userId := none, kind := .group, externalId := "group",
        displayName := "Group", members := ["aaaaaaaa-0000-4000-8000-000000000001"], lockVersion := 1 }]

def samplePatch (operations : List PatchOperation) : PatchRequest where
  schemas := ["urn:ietf:params:scim:api:messages:2.0:PatchOp"]
  operations := operations

/-- An addition without a path. -/
def addWithoutPath : PatchOperation where
  operation := some "add"
  path := .absent
  value := .map [("members", .list [.value "bbbbbbbb-0000-4000-8000-000000000002" ""])]

def sampleScimFacts : ScimFacts := ⟨true, true, true, true, true⟩

private theorem addWithoutPath_change : [addWithoutPath].map PatchOperation.change =
    [.insert [.value "bbbbbbbb-0000-4000-8000-000000000002" ""] false] := by
  decide +kernel

/-- The patch of the group with an addition without a path removes the member that it had. -/
theorem addition_removes :
    (scimMutate sampleScimFacts sampleCast .group "cccccccc-0000-4000-8000-000000000003" (.patch (samplePatch
        [addWithoutPath])) "W/\"1\"" sampleDirectory).outcome.toOption.map
          (fun directory => (findResource directory.resources .group "cccccccc-0000-4000-8000-000000000003").map
            ScimResource.members) = some (some ["bbbbbbbb-0000-4000-8000-000000000002"]) ∧
      "aaaaaaaa-0000-4000-8000-000000000001" ∈ membership sampleCast {"aaaaaaaa-0000-4000-8000-000000000001"}
        ([addWithoutPath].map PatchOperation.change) := by
  constructor
  · decide +kernel
  · rw [addWithoutPath_change]
    exact Or.inl rfl

/-- An addition at the path. -/
def addAtPath : PatchOperation where
  operation := some "Add"
  path := .text "members"
  value := .value (.list [.value "bbbbbbbb-0000-4000-8000-000000000002" "display"])

private theorem sampleCast_lower (text id : String) (hall : text.toList.all uuidCharacter = true)
    (hcast : sampleCast text = some id) : text = id := by
  unfold sampleCast at hcast
  split at hcast
  · rename_i htext
    rw [htext] at hall
    exact absurd hall (by decide)
  · split at hcast
    · exact Option.some.inj hcast
    · cases hcast

theorem patch_membership_sample :
    ∃ id resource resource', sampleCast "cccccccc-0000-4000-8000-000000000003" = some id ∧
      findResource sampleDirectory.resources .group id = some resource ∧
      findResource (afterPatch sampleScimFacts sampleCast "cccccccc-0000-4000-8000-000000000003" "W/\"1\""
        (samplePatch [addAtPath]) sampleDirectory).resources .group id = some resource' ∧
      ∀ member, member ∈ resource'.members ↔
        member ∈ membership sampleCast {own | own ∈ resource.members} ([addAtPath].map PatchOperation.change) := by
  have hcommits : ∃ directory', (scimMutate sampleScimFacts sampleCast .group "cccccccc-0000-4000-8000-000000000003"
      (.patch (samplePatch [addAtPath])) "W/\"1\"" sampleDirectory).Commits directory' := by
    cases houtcome : (scimMutate sampleScimFacts sampleCast .group "cccccccc-0000-4000-8000-000000000003"
      (.patch (samplePatch [addAtPath])) "W/\"1\"" sampleDirectory).outcome with
    | ok directory' => exact ⟨directory', houtcome⟩
    | error reason =>
      have hok : (scimMutate sampleScimFacts sampleCast .group "cccccccc-0000-4000-8000-000000000003"
        (.patch (samplePatch [addAtPath])) "W/\"1\"" sampleDirectory).outcome.toOption.isSome = true := by
          decide +kernel
      rw [houtcome] at hok
      cases hok
  obtain ⟨directory', hcommits⟩ := hcommits
  have hpatch := patch_membership sampleScimFacts sampleCast "cccccccc-0000-4000-8000-000000000003" "W/\"1\""
    (samplePatch [addAtPath]) sampleDirectory (fun text id _ => sampleCast_lower text id) (by decide)
  obtain ⟨hafter, -, id, resource, resource', hid, hfound, hfound', hiff⟩ := hpatch.1 directory' hcommits
  have hchange : [addAtPath].map PatchOperation.change =
      [.insert [.value "bbbbbbbb-0000-4000-8000-000000000002" "display"] true] := by decide +kernel
  refine ⟨id, resource, resource', hid, hfound, by rw [hafter]; exact hfound', hiff.2 fun member => ?_⟩
  show Decided sampleCast _ member ([addAtPath].map PatchOperation.change).reverse
  rw [hchange]
  exact .inr trivial

end KComms.Accounts
