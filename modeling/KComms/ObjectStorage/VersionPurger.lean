import KComms.Lib.TracedSession
import KComms.ObjectStorage.VersionListing
import Mathlib.Data.String.Basic

/-!
# Purges of object versions (`ObjectStorage.S3.VersionPurger`)

A purge lists the versions of a key and deletes them, ten times at most, and reports whether its last listing was empty.
The clock, the signer and the store are an environment that may do anything between two requests and answer none of them;
what is assumed is that a listing that is answered is a page of what the store has under the prefix (`ListingLaw`).
-/

namespace KComms.ObjectStorage

open VersionListing Session

def versionPageSize : Nat := 100
def maxPurgePasses : Nat := 10
def purgeBudgetMs : Int := 60000

/-- `GET ?versions` with a prefix, or `DELETE` of a key with `versionId`.  Only the key and the identifier of an entry are
sent. -/
inductive Request
  | list (pathPrefix : String) (maxKeys : Nat)
  | delete (objectKey : String) (entry : Entry)
  deriving DecidableEq, Repr

/-- How a request ends: with the result of the requester, or its task exits or is cancelled. -/
inductive Reply
  | response (status : Nat) (body : String)
  | failed (reason : StorageError)
  | exit
  | timeout
  deriving DecidableEq, Repr

/-- A request, what the store had when it took it, and the reply. -/
structure Exchange where
  request : Request
  bucket : List StoredVersion
  reply : Reply
  deriving DecidableEq, Repr

structure Environment (σ : Type) where
  clock : σ → Int × σ
  presign : σ → Option StorageError × σ
  take : σ → Request → (List StoredVersion × Reply) × σ

abbrev Purge (σ : Type) := Session σ Exchange StorageError

variable {σ : Type} (environment : Environment σ) (sax : String → Option (List SaxEvent × String))
  (upcase : String → String)

def now : Purge σ Int := ask environment.clock

/-- `Presigner.presign` -/
def presign : Purge σ Unit := do
  match ← ask environment.presign with
  | some reason => fail reason
  | none => pure ()

def request (request : Request) : Purge σ Reply := do
  let exchange ← exchange fun s =>
    let ((bucket, reply), s) := environment.take s request
    (⟨request, bucket, reply⟩, s)
  pure exchange.reply

def beforeDeadline (deadline : Int) : Purge σ Unit := do
  let time ← now environment
  if time < deadline then pure () else fail .objectStoragePurgeTimeout

/-- `bounded_request` -/
def boundedRequest (asked : Request) (deadline : Int) : Purge σ (Nat × String) := do
  let time ← now environment
  if deadline - time ≤ 1 then fail .objectStoragePurgeTimeout
  else do
    match ← request environment asked with
    | .response status body => do
      beforeDeadline environment deadline
      pure (status, body)
    | .failed reason => do
      beforeDeadline environment deadline
      fail reason
    | .exit => fail .objectStorageUnavailable
    | .timeout => fail .objectStoragePurgeTimeout

/-- `list_exact_versions` -/
def listExactVersions (objectKey : String) (deadline : Int) : Purge σ Listing := do
  presign environment
  let (status, body) ← boundedRequest environment (.list objectKey versionPageSize) deadline
  if 200 ≤ status ∧ status ≤ 299 then do
    let listing ← ofExcept (parse sax upcase body)
    pure { listing with entries := listing.entries.filter fun entry => entry.key = Utf8.octets objectKey }
  else fail (.objectStorageStatus status)

/-- `delete_listed_version` -/
def deleteListedVersion (objectKey : String) (entry : Entry) (deadline : Int) : Purge σ Unit :=
  if entry.versionId = [] then fail .objectVersionListingInvalid
  else do
    presign environment
    let (status, _) ← boundedRequest environment (.delete objectKey entry) deadline
    if (200 ≤ status ∧ status ≤ 299) ∨ status = 404 then pure () else fail (.objectStorageStatus status)

/-- `delete_listed_versions` -/
def deleteListedVersions (objectKey : String) (deadline : Int) : List Entry → Purge σ Unit
  | [] => pure ()
  | entry :: entries => do
    deleteListedVersion environment objectKey entry deadline
    deleteListedVersions objectKey deadline entries

structure PurgeCounts where
  deletedVersions : Nat
  deletedMarkers : Nat
  deriving DecidableEq, Repr

structure PurgeResult extends PurgeCounts where
  verifiedEmpty : Bool
  deriving DecidableEq, Repr

/-- `count_deleted` -/
def countDeleted (counts : PurgeCounts) (entries : List Entry) : PurgeCounts :=
  entries.foldl (fun counts entry =>
    match entry.kind with
    | .version => { counts with deletedVersions := counts.deletedVersions + 1 }
    | .deleteMarker => { counts with deletedMarkers := counts.deletedMarkers + 1 }) counts

/-- `purge_version_pages`, which has no clause for zero passes. -/
def purgeVersionPages (objectKey : String) (deadline : Int) : Nat → PurgeCounts → Purge σ PurgeResult
  | 0, _ => fail .objectVersionListingFailed
  | remaining + 1, counts => do
    let listing ← listExactVersions environment sax upcase objectKey deadline
    deleteListedVersions environment objectKey deadline listing.entries
    beforeDeadline environment deadline
    let counts := countDeleted counts listing.entries
    if listing.entries = [] then pure ⟨counts, true⟩
    else if remaining = 0 then do
      let verification ← listExactVersions environment sax upcase objectKey deadline
      beforeDeadline environment deadline
      pure ⟨counts, verification.entries = []⟩
    else purgeVersionPages objectKey deadline remaining counts

/-- `unsafe_object_key?` -/
def unsafeObjectKey (relative : String) : Bool :=
  relative = "" || relative.toList.contains '\\' || (relative.toList.any fun c => c.toNat ≤ 0x1F || c.toNat == 0x7F) ||
    (ElixirString.pieces '/' relative.toList).any fun piece => piece = [] || piece = ['.'] || piece = ['.', '.']

/-- `validate_object_request` -/
def validateObjectRequest (tenantId objectKey : Option String) : Except StorageError String :=
  match tenantId.filter (· ≠ ""), objectKey.filter (· ≠ "") with
  | none, _ => .error .invalidObjectTenant
  | some _, none => .error .invalidObjectKey
  | some tenantId, some objectKey =>
    let start := (tenantId ++ "/").toList
    if !start.isPrefixOf objectKey.toList then .error .objectTenantMismatch
    else if unsafeObjectKey (String.ofList (objectKey.toList.drop start.length)) then .error .invalidObjectKey
    else .ok objectKey

/-- `purge_object_versions` -/
def purgeObjectVersions (tenantId objectKey : Option String) : Purge σ PurgeResult := do
  let objectKey ← ofExcept (validateObjectRequest tenantId objectKey)
  let time ← now environment
  purgeVersionPages environment sax upcase objectKey (time + purgeBudgetMs) maxPurgePasses ⟨0, 0⟩

/-! ### What the store promises -/

/-- A listing that is answered is a page of what the store has under the prefix, in the order of the keys.  It has at most
the requested number of entries, and one of them if there is any. -/
def ListingLaw (exchange : Exchange) : Prop :=
  ∀ pathPrefix maxKeys status body, exchange.request = .list pathPrefix maxKeys →
    exchange.reply = .response status body → 200 ≤ status → status ≤ 299 →
    ∃ listed : List StoredVersion, ∃ size : Nat,
      listed.Perm (exchange.bucket.filter fun stored => pathPrefix.toList.isPrefixOf stored.key.toList) ∧
        listed.Pairwise (fun stored stored' => stored.key ≤ stored'.key) ∧
        (1 ≤ size ∧ size ≤ maxKeys) ∧ Reads sax (listed.take size) body

variable {counts : PurgeCounts} {passes : Nat} {trace rest deletions : List Exchange} {listing exchange : Exchange}
  {entries : List Entry}

private theorem entry_key {stored : StoredVersion} {objectKey : String} :
    stored.entry.key = Utf8.octets objectKey ↔ stored.key = objectKey :=
  ⟨fun h => Utf8.octets_inj_ascii stored.key_ascii h, fun h => by rw [← h]; rfl⟩

/-- A key comes before the keys that it starts. -/
private theorem le_of_isPrefixOf {key key' : String} (h : key.toList.isPrefixOf key'.toList = true) : key ≤ key' := by
  refine not_lt.1 fun hlt => ?_
  have hle := (List.isPrefixOf_iff_prefix.1 h).le
  exact hle (String.lt_iff_toList_lt.1 hlt)

section Listing

variable {sax} {objectKey : String} {exchange : Exchange} {status maxKeys : Nat} {body : String} {listing : Listing}
  {upcase} (hlaw : ListingLaw sax exchange) (hrequest : exchange.request = .list objectKey maxKeys)
  (hreply : exchange.reply = .response status body) (hstatus : 200 ≤ status ∧ status ≤ 299)
  (hparse : parse sax upcase body = .ok listing)

include hlaw hrequest hreply hstatus hparse

/-- The entries of the key are what the store has of it. -/
private theorem listed_stored {entry : Entry} (hentry : entry ∈ listing.entries)
    (hkey : entry.key = Utf8.octets objectKey) :
    ∃ stored ∈ exchange.bucket, stored.key = objectKey ∧ stored.entry = entry := by
  obtain ⟨listed, size, hperm, -, -, hreads⟩ := hlaw _ _ _ _ hrequest hreply hstatus.1 hstatus.2
  rw [parse_entries hreads hparse] at hentry
  obtain ⟨stored, hstored, rfl⟩ := List.mem_map.1 hentry
  have hmem := (hperm.mem_iff).1 (List.mem_of_mem_take hstored)
  exact ⟨stored, (List.mem_filter.1 hmem).1, entry_key.1 hkey, rfl⟩

/-- If no entry of the page is one of the key, the store has none: the key is the first one under its prefix. -/
private theorem listed_empty
    (hempty : (listing.entries.filter fun entry => entry.key = Utf8.octets objectKey) = []) :
    ∀ stored ∈ exchange.bucket, stored.key ≠ objectKey := by
  intro stored hstored hkey
  obtain ⟨listed, size, hperm, hsorted, hsize, hreads⟩ := hlaw _ _ _ _ hrequest hreply hstatus.1 hstatus.2
  have hlisted : stored ∈ listed := by
    refine hperm.mem_iff.2 (List.mem_filter.2 ⟨hstored, ?_⟩)
    rw [hkey]
    exact List.isPrefixOf_iff_prefix.2 (List.prefix_refl _)
  cases listed with
  | nil => cases hlisted
  | cons first rest =>
    have hbegins := (List.mem_filter.1 (hperm.mem_iff.1 (List.mem_cons_self (a := first) (l := rest)))).2
    have hle : first.key ≤ objectKey := by
      rcases List.mem_cons.1 hlisted with rfl | hrest
      · exact le_of_eq hkey
      · rw [← hkey]
        exact (List.pairwise_cons.1 hsorted).1 stored hrest
    have hfirst : first.key = objectKey := le_antisymm hle (le_of_isPrefixOf hbegins)
    have hentry : first.entry ∈ listing.entries := by
      obtain ⟨size, rfl⟩ : ∃ n, size = n + 1 := ⟨size - 1, by omega⟩
      rw [parse_entries hreads hparse, List.take_succ_cons, List.map_cons]
      exact List.mem_cons_self
    have hmem : first.entry ∈ listing.entries.filter fun entry => entry.key = Utf8.octets objectKey :=
      List.mem_filter.2 ⟨hentry, decide_eq_true (entry_key.2 hfirst)⟩
    rw [hempty] at hmem
    cases hmem

end Listing

/-! ### The steps -/

def Exchange.isListing (exchange : Exchange) : Bool :=
  match exchange.request with
  | .list _ _ => true
  | .delete _ _ => false

def Exchange.confirmed (exchange : Exchange) : Bool :=
  match exchange.reply with
  | .response status _ => (200 ≤ status && status ≤ 299) || status == 404
  | _ => false

/-- A deletion of a version, or of a marker, that the store has confirmed. -/
def Exchange.deletes (kind : EntryKind) (exchange : Exchange) : Bool :=
  match exchange.request with
  | .list _ _ => false
  | .delete _ entry => entry.kind = kind && exchange.confirmed

variable {environment} {sax} {upcase} {objectKey : String} {deadline : Int}

private theorem now_silent : (now environment).Ensures fun trace result => trace = [] ∧ ∃ time, result = .ok time :=
  ensures_ask fun time => ⟨rfl, time, rfl⟩

private theorem beforeDeadline_silent : (beforeDeadline environment deadline).Ensures fun trace _ => trace = [] := by
  unfold beforeDeadline
  refine now_silent.bind_silent (fun _ _ => rfl) fun time _ => ?_
  split
  · exact ensures_pure rfl
  · exact ensures_fail rfl

private theorem presign_silent : (presign environment).Ensures fun trace _ => trace = [] := by
  unfold presign
  refine Ensures.bind (P := fun trace _ => trace = []) (ensures_ask fun _ => rfl) (fun _ _ h => h) ?_
  rintro trace (_ | reason) rfl
  · exact ensures_pure rfl
  · exact ensures_fail rfl

private theorem request_ensures (asked : Request) :
    (request environment asked).Ensures fun trace result => ∃ exchange, trace = [exchange] ∧
      exchange.request = asked ∧ result = .ok exchange.reply := by
  unfold request
  refine Ensures.bind (P := fun trace result => ∃ exchange, trace = [exchange] ∧ exchange.request = asked ∧
    result = .ok exchange) (ensures_exchange fun s => ⟨_, rfl, rfl, rfl⟩) ?_ ?_
  · rintro trace reason ⟨exchange, -, -, h⟩
    cases h
  · rintro trace answer ⟨_, rfl, hasked, h⟩
    cases h
    exact ensures_pure ⟨answer, rfl, hasked, rfl⟩

/-- A request is sent once, or not at all. -/
private theorem boundedRequest_ensures (asked : Request) :
    (boundedRequest environment asked deadline).Ensures fun trace result =>
      (trace = [] ∧ ∃ reason, result = .error reason) ∨
        ∃ exchange, trace = [exchange] ∧ exchange.request = asked ∧
          ∀ status body, result = .ok (status, body) → exchange.reply = .response status body := by
  unfold boundedRequest
  refine now_silent.bind_silent (fun reason _ => .inl ⟨rfl, reason, rfl⟩) fun time _ => ?_
  split
  · exact ensures_fail (.inl ⟨rfl, _, rfl⟩)
  · refine (request_ensures asked).bind ?_ ?_
    · rintro trace reason ⟨exchange, -, -, h⟩
      cases h
    · rintro trace _ ⟨exchange, rfl, hasked, h⟩
      cases h
      split
      · rename_i status body hreply
        refine beforeDeadline_silent.bind ?_ ?_
        · rintro trace reason rfl
          exact .inr ⟨exchange, rfl, hasked, nofun⟩
        · rintro trace _ rfl
          refine ensures_pure (.inr ⟨exchange, rfl, hasked, fun status' body' h => ?_⟩)
          cases h
          exact hreply
      · refine beforeDeadline_silent.bind ?_ ?_
        · rintro trace reason rfl
          exact .inr ⟨exchange, rfl, hasked, nofun⟩
        · rintro trace _ rfl
          exact ensures_fail (.inr ⟨exchange, rfl, hasked, nofun⟩)
      · exact ensures_fail (.inr ⟨exchange, rfl, hasked, nofun⟩)
      · exact ensures_fail (.inr ⟨exchange, rfl, hasked, nofun⟩)

/-- What a listing of the key is read from. -/
def ReadFrom (sax : String → Option (List SaxEvent × String)) (upcase : String → String) (objectKey : String)
    (exchange : Exchange) (entries : List Entry) : Prop :=
  ∃ status body listing, exchange.reply = .response status body ∧ (200 ≤ status ∧ status ≤ 299) ∧
    parse sax upcase body = .ok listing ∧
      entries = listing.entries.filter fun entry => entry.key = Utf8.octets objectKey

private theorem listExactVersions_ensures :
    (listExactVersions environment sax upcase objectKey deadline).Ensures fun trace result =>
      (trace = [] ∧ ∃ reason, result = .error reason) ∨
        ∃ exchange, trace = [exchange] ∧ exchange.request = .list objectKey versionPageSize ∧
          ∀ listing, result = .ok listing → ReadFrom sax upcase objectKey exchange listing.entries := by
  unfold listExactVersions
  refine presign_silent.bind ?_ ?_
  · rintro trace reason rfl
    exact .inl ⟨rfl, reason, rfl⟩
  · rintro trace _ rfl
    refine (boundedRequest_ensures _).bind ?_ ?_
    · rintro trace reason (⟨rfl, -⟩ | ⟨exchange, rfl, hasked, -⟩)
      · exact .inl ⟨rfl, reason, rfl⟩
      · exact .inr ⟨exchange, rfl, hasked, nofun⟩
    · rintro trace ⟨status, body⟩ (⟨-, reason, h⟩ | ⟨exchange, rfl, hasked, hreply⟩)
      · cases h
      · have hresponse := hreply status body rfl
        dsimp only
        split
        · rename_i hstatus
          refine Ensures.bind (P := fun trace result => trace = [] ∧ result = parse sax upcase body)
            (ensures_ofExcept ⟨rfl, rfl⟩) ?_ ?_
          · rintro trace reason ⟨rfl, -⟩
            exact .inr ⟨exchange, rfl, hasked, nofun⟩
          · rintro trace listing ⟨rfl, hparse⟩
            refine ensures_pure (.inr ⟨exchange, rfl, hasked, fun exact h => ?_⟩)
            cases h
            exact ⟨status, body, listing, hresponse, hstatus, hparse.symm, rfl⟩
        · exact ensures_fail (.inr ⟨exchange, rfl, hasked, nofun⟩)

/-- A deletion is sent at most once, and counts when it succeeds. -/
private theorem deleteListedVersion_ensures {entry : Entry} :
    (deleteListedVersion environment objectKey entry deadline).Ensures fun trace result =>
      (∀ exchange ∈ trace, exchange.request = .delete objectKey entry) ∧
        (result = .ok () → ∀ kind, trace.countP (Exchange.deletes kind) = if entry.kind = kind then 1 else 0) := by
  unfold deleteListedVersion
  split
  · exact ensures_fail ⟨nofun, nofun⟩
  · refine presign_silent.bind ?_ ?_
    · rintro trace reason rfl
      exact ⟨nofun, nofun⟩
    · rintro trace _ rfl
      refine (boundedRequest_ensures _).bind ?_ ?_
      · rintro trace reason (⟨rfl, -⟩ | ⟨exchange, rfl, hasked, -⟩)
        · exact ⟨nofun, nofun⟩
        · exact ⟨List.forall_mem_singleton.2 hasked, nofun⟩
      · rintro trace ⟨status, body⟩ (⟨-, reason, h⟩ | ⟨exchange, rfl, hasked, hreply⟩)
        · cases h
        · have hresponse := hreply status body rfl
          dsimp only
          split
          · rename_i hstatus
            refine ensures_pure ⟨List.forall_mem_singleton.2 hasked, fun _ kind => ?_⟩
            have hconfirmed : exchange.confirmed = true := by
              simpa [Exchange.confirmed, hresponse] using hstatus
            have hdeletes : exchange.deletes kind = decide (entry.kind = kind) := by
              simp [Exchange.deletes, hasked, hconfirmed]
            simp only [List.append_nil, List.nil_append, List.countP_singleton, hdeletes, decide_eq_true_eq]
          · exact ensures_fail ⟨List.forall_mem_singleton.2 hasked, nofun⟩

private theorem deleteListedVersions_ensures (entries : List Entry) :
    (deleteListedVersions environment objectKey deadline entries).Ensures fun trace result =>
      (∀ exchange ∈ trace, ∃ entry ∈ entries, exchange.request = .delete objectKey entry) ∧
        (result = .ok () → ∀ kind, trace.countP (Exchange.deletes kind) = entries.countP fun entry => entry.kind = kind) := by
  induction entries with
  | nil => exact ensures_pure ⟨nofun, fun _ _ => rfl⟩
  | cons entry entries ih =>
    rw [deleteListedVersions]
    refine deleteListedVersion_ensures.bind ?_ ?_
    · rintro trace reason ⟨hsent, -⟩
      exact ⟨fun exchange h => ⟨entry, List.mem_cons_self, hsent exchange h⟩, nofun⟩
    · rintro trace _ ⟨hsent, hcount⟩
      refine ih.mono fun rest result ⟨hrest, hrestCount⟩ => ⟨fun exchange h => ?_, fun hok kind => ?_⟩
      · rcases List.mem_append.1 h with h | h
        · exact ⟨entry, List.mem_cons_self, hsent exchange h⟩
        · obtain ⟨other, hother, hasked⟩ := hrest exchange h
          exact ⟨other, List.mem_cons_of_mem _ hother, hasked⟩
      · rw [List.countP_append, hcount rfl kind, hrestCount hok kind, List.countP_cons]
        simp only [decide_eq_true_eq]
        omega

private theorem countDeleted_eq (entries : List Entry) (counts : PurgeCounts) :
    countDeleted counts entries =
      ⟨counts.deletedVersions + entries.countP fun entry => entry.kind = .version,
        counts.deletedMarkers + entries.countP fun entry => entry.kind = .deleteMarker⟩ := by
  unfold countDeleted
  induction entries generalizing counts with
  | nil => rfl
  | cons entry entries ih =>
    rw [List.foldl_cons, ih]
    cases hkind : entry.kind <;> simp [hkind] <;> omega

/-! ### Purges -/

/-- Every deletion is one of an entry of the key that the store had when an earlier listing was taken. -/
def Sourced (objectKey : String) (trace : List Exchange) : Prop :=
  ∀ before exchange after, trace = before ++ exchange :: after → ∀ key entry, exchange.request = .delete key entry →
    key = objectKey ∧ ∃ listing ∈ before, listing.isListing = true ∧
      ∃ stored ∈ listing.bucket, stored.key = objectKey ∧ stored.entry = entry

/-- The store had nothing of the key when the last listing was taken. -/
def EmptyAtLast (objectKey : String) (trace : List Exchange) : Prop :=
  ∃ before listing after, trace = before ++ listing :: after ∧ listing.isListing = true ∧
    (∀ exchange ∈ after, exchange.isListing = false) ∧ ∀ stored ∈ listing.bucket, stored.key ≠ objectKey

/-- What is proved of a purge of a key: with `passes` of its listings to go, and these counts so far. -/
structure Purged (objectKey : String) (passes : Nat) (counts : PurgeCounts) (trace : List Exchange)
    (result : Except StorageError PurgeResult) : Prop where
  sourced : Sourced objectKey trace
  verified : ∀ purged, result = .ok purged → purged.verifiedEmpty = true → EmptyAtLast objectKey trace
  versions : ∀ purged, result = .ok purged →
    purged.deletedVersions = counts.deletedVersions + trace.countP (Exchange.deletes .version)
  markers : ∀ purged, result = .ok purged →
    purged.deletedMarkers = counts.deletedMarkers + trace.countP (Exchange.deletes .deleteMarker)
  listings : trace.countP Exchange.isListing ≤ passes

private theorem Sourced.nil : Sourced objectKey [] := by
  intro before exchange after h
  cases before <;> cases h

private theorem Sourced.append (h : Sourced objectKey trace) (hrest : Sourced objectKey rest) :
    Sourced objectKey (trace ++ rest) := by
  intro before exchange after heq key entry hrequest
  rcases List.append_eq_append_iff.1 heq with ⟨mid, rfl, hmid⟩ | ⟨mid, htrace, hmid⟩
  · obtain ⟨hkey, listing, hlisting, hstored⟩ := hrest mid exchange after hmid key entry hrequest
    exact ⟨hkey, listing, List.mem_append_right _ hlisting, hstored⟩
  · cases mid with
    | nil =>
      rw [List.nil_append] at hmid
      rw [List.append_nil] at htrace
      obtain ⟨hkey, listing, hlisting, -⟩ := hrest [] exchange after hmid.symm key entry hrequest
      cases hlisting
    | cons first mid =>
      rw [List.cons_append, List.cons.injEq] at hmid
      obtain ⟨rfl, -⟩ := hmid
      exact h before exchange mid htrace key entry hrequest

/-- A listing and the deletions of its entries. -/
private theorem sourced_page (hlisting : listing.isListing = true)
    (hstored : ∀ entry ∈ entries, ∃ stored ∈ listing.bucket, stored.key = objectKey ∧ stored.entry = entry)
    (hdeletions : ∀ exchange ∈ deletions, ∃ entry ∈ entries, exchange.request = .delete objectKey entry) :
    Sourced objectKey (listing :: deletions) := by
  intro before exchange after heq key entry hrequest
  cases before with
  | nil =>
    rw [List.nil_append, List.cons.injEq] at heq
    rw [heq.1, Exchange.isListing, hrequest] at hlisting
    cases hlisting
  | cons first before =>
    rw [List.cons_append, List.cons.injEq] at heq
    obtain ⟨rfl, rfl⟩ := heq
    obtain ⟨listed, hlisted, hasked⟩ := hdeletions exchange (List.mem_append_right _ List.mem_cons_self)
    rw [hasked] at hrequest
    cases hrequest
    exact ⟨rfl, listing, List.mem_cons_self, hlisting, hstored entry hlisted⟩

private theorem isListing_list {maxKeys : Nat} (h : exchange.request = .list objectKey maxKeys) :
    exchange.isListing = true := by
  rw [Exchange.isListing, h]

private theorem deletes_list {maxKeys : Nat} (h : exchange.request = .list objectKey maxKeys)
    (kind : EntryKind) : exchange.deletes kind = false := by
  rw [Exchange.deletes, h]

private theorem not_isListing_delete {entry : Entry}
    (h : exchange.request = .delete objectKey entry) : exchange.isListing = false := by
  rw [Exchange.isListing, h]

/-- One page: a listing that was read and the deletions that were sent for it. -/
structure Page (sax : String → Option (List SaxEvent × String)) (upcase : String → String) (objectKey : String)
    (entries : List Entry) (listing : Exchange) (deletions : List Exchange) : Prop where
  asked : listing.request = .list objectKey versionPageSize
  read : ReadFrom sax upcase objectKey listing entries
  deletions : ∀ exchange ∈ deletions, ∃ entry ∈ entries, exchange.request = .delete objectKey entry

section Pages

private theorem Page.stored (hpage : Page sax upcase objectKey entries listing deletions) (hlaw : ListingLaw sax listing) :
    ∀ entry ∈ entries, ∃ stored ∈ listing.bucket, stored.key = objectKey ∧ stored.entry = entry := by
  obtain ⟨status, body, parsed, hreply, hstatus, hparse, rfl⟩ := hpage.read
  intro entry hentry
  obtain ⟨hmem, hkey⟩ := List.mem_filter.1 hentry
  exact listed_stored hlaw hpage.asked hreply hstatus hparse hmem (of_decide_eq_true hkey)

private theorem Page.sourced (hpage : Page sax upcase objectKey entries listing deletions)
    (hlaw : ListingLaw sax listing) : Sourced objectKey (listing :: deletions) :=
  sourced_page (isListing_list hpage.asked) (hpage.stored hlaw) hpage.deletions

private theorem Page.empty (hpage : Page sax upcase objectKey [] listing deletions) (hlaw : ListingLaw sax listing) :
    ∀ stored ∈ listing.bucket, stored.key ≠ objectKey := by
  obtain ⟨status, body, parsed, hreply, hstatus, hparse, hempty⟩ := hpage.read
  exact listed_empty hlaw hpage.asked hreply hstatus hparse hempty.symm

private theorem Page.not_listing (hpage : Page sax upcase objectKey entries listing deletions) :
    ∀ exchange ∈ deletions, exchange.isListing = false := by
  intro exchange hexchange
  obtain ⟨entry, -, hasked⟩ := hpage.deletions exchange hexchange
  exact not_isListing_delete hasked

private theorem Page.listings (hpage : Page sax upcase objectKey entries listing deletions) :
    (listing :: deletions).countP Exchange.isListing = 1 := by
  have hnone : deletions.countP Exchange.isListing = 0 :=
    List.countP_eq_zero.2 fun exchange hexchange => by simp [hpage.not_listing exchange hexchange]
  rw [List.countP_cons, hnone, if_pos (isListing_list hpage.asked)]

private theorem Page.deletes (hpage : Page sax upcase objectKey entries listing deletions) (kind : EntryKind) :
    (listing :: deletions).countP (Exchange.deletes kind) = deletions.countP (Exchange.deletes kind) := by
  rw [List.countP_cons, deletes_list hpage.asked kind]
  simp

end Pages

private theorem Purged.of_error {reason : StorageError} (hsourced : Sourced objectKey trace)
    (hlistings : trace.countP Exchange.isListing ≤ passes) :
    Purged objectKey passes counts trace (.error reason) :=
  ⟨hsourced, nofun, nofun, nofun, hlistings⟩

private theorem EmptyAtLast.after (h : EmptyAtLast objectKey rest) :
    EmptyAtLast objectKey (trace ++ rest) := by
  obtain ⟨before, listing, after, rfl, hrest⟩ := h
  exact ⟨trace ++ before, listing, after, (List.append_assoc ..).symm, hrest⟩

/-- A page, all of whose entries were deleted, before the rest of a purge. -/
private theorem Purged.after_page {result : Except StorageError PurgeResult}
    (hpage : Page sax upcase objectKey entries listing deletions) (hlaw : ListingLaw sax listing)
    (hcount : ∀ kind, deletions.countP (Exchange.deletes kind) = entries.countP fun entry => entry.kind = kind)
    (hrest : Purged objectKey passes (countDeleted counts entries) rest result) :
    Purged objectKey (passes + 1) counts ((listing :: deletions) ++ rest) result where
  sourced := (hpage.sourced hlaw).append hrest.sourced
  verified := fun purged hresult hempty => (hrest.verified purged hresult hempty).after
  versions := fun purged hresult => by
    rw [hrest.versions purged hresult, countDeleted_eq, List.countP_append, hpage.deletes, hcount]
    exact Nat.add_assoc ..
  markers := fun purged hresult => by
    rw [hrest.markers purged hresult, countDeleted_eq, List.countP_append, hpage.deletes, hcount]
    exact Nat.add_assoc ..
  listings := by
    have := hrest.listings
    rw [List.countP_append, hpage.listings]
    omega

/-- A page without entries ends a purge. -/
private theorem Purged.of_empty (hpage : Page sax upcase objectKey [] listing deletions)
    (hlaw : ListingLaw sax listing) :
    Purged objectKey (passes + 1) counts (listing :: deletions) (.ok ⟨counts, true⟩) := by
  have hnone : deletions = [] := List.eq_nil_iff_forall_not_mem.2 fun exchange hexchange => by
    obtain ⟨entry, hentry, -⟩ := hpage.deletions exchange hexchange
    cases hentry
  refine ⟨hpage.sourced hlaw, fun _ _ _ => ?_, fun purged hresult => ?_, fun purged hresult => ?_, ?_⟩
  · exact ⟨[], listing, deletions, rfl, isListing_list hpage.asked, hpage.not_listing, hpage.empty hlaw⟩
  · cases hresult
    rw [hpage.deletes, hnone]
    rfl
  · cases hresult
    rw [hpage.deletes, hnone]
    rfl
  · rw [hpage.listings]
    omega

/-- The last listing, which only tells whether the key is empty. -/
private theorem Purged.of_verification (hasked : listing.request = .list objectKey versionPageSize)
    (hread : ReadFrom sax upcase objectKey listing entries)
    (hlaw : ListingLaw sax listing) : Purged objectKey 1 counts [listing] (.ok ⟨counts, entries = []⟩) := by
  have hpage : Page sax upcase objectKey entries listing [] := ⟨hasked, hread, nofun⟩
  refine ⟨hpage.sourced hlaw, fun purged hresult hverified => ?_, fun purged hresult => ?_, fun purged hresult => ?_, ?_⟩
  · cases hresult
    have hentries : entries = [] := of_decide_eq_true hverified
    subst hentries
    exact ⟨[], listing, [], rfl, isListing_list hasked, nofun, hpage.empty hlaw⟩
  · cases hresult
    rw [hpage.deletes]
    rfl
  · cases hresult
    rw [hpage.deletes]
    rfl
  · rw [hpage.listings]

/-- A purge that ends with the request for a listing. -/
private theorem Purged.of_unread {reason : StorageError} (hasked : listing.request = .list objectKey versionPageSize) :
    Purged objectKey (passes + 1) counts [listing] (.error reason) := by
  have hlisting := isListing_list hasked
  have hsourced : Sourced objectKey [listing] := sourced_page hlisting (fun entry (h : entry ∈ []) => nomatch h) nofun
  refine .of_error hsourced ?_
  rw [List.countP_singleton, if_pos hlisting]
  omega

private theorem verification_ensures (counts : PurgeCounts) :
    (do
      let verification ← listExactVersions environment sax upcase objectKey deadline
      beforeDeadline environment deadline
      pure ⟨counts, verification.entries = []⟩ : Purge σ PurgeResult).Ensures fun trace result =>
        (∀ exchange ∈ trace, ListingLaw sax exchange) → Purged objectKey 1 counts trace result := by
  refine listExactVersions_ensures.bind ?_ ?_
  · rintro trace reason (⟨rfl, -⟩ | ⟨verification, rfl, hasked, -⟩) hlaw
    · exact .of_error .nil (Nat.zero_le _)
    · exact .of_unread hasked
  · rintro trace verification (⟨-, reason, h⟩ | ⟨listing, rfl, hasked, hread⟩)
    · cases h
    · refine beforeDeadline_silent.bind ?_ ?_
      · rintro trace reason rfl hlaw
        exact .of_unread hasked
      · rintro trace _ rfl
        exact ensures_pure fun hlaw => .of_verification hasked (hread verification rfl) (hlaw listing List.mem_cons_self)

/-- By induction on the passes: a page and what comes after it. -/
private theorem purgeVersionPages_ensures (passes : Nat) : ∀ counts : PurgeCounts,
    (purgeVersionPages environment sax upcase objectKey deadline passes counts).Ensures fun trace result =>
      (∀ exchange ∈ trace, ListingLaw sax exchange) → Purged objectKey (passes + 1) counts trace result := by
  induction passes with
  | zero => exact fun counts => ensures_fail fun _ => .of_error .nil (Nat.zero_le _)
  | succ passes ih =>
    intro counts
    rw [purgeVersionPages]
    refine listExactVersions_ensures.bind ?_ ?_
    · rintro trace reason (⟨rfl, -⟩ | ⟨listing, rfl, hasked, -⟩) hlaw
      · exact .of_error .nil (Nat.zero_le _)
      · exact .of_unread hasked
    · rintro trace parsed (⟨-, reason, h⟩ | ⟨listing, rfl, hasked, hread⟩)
      · cases h
      · refine (deleteListedVersions_ensures parsed.entries).bind ?_ ?_
        · rintro deletions reason ⟨hsent, -⟩ hlaw
          have hpage : Page sax upcase objectKey parsed.entries listing deletions := ⟨hasked, hread parsed rfl, hsent⟩
          refine .of_error (hpage.sourced (hlaw listing List.mem_cons_self)) ?_
          rw [List.singleton_append, hpage.listings]
          omega
        · rintro deletions _ ⟨hsent, hcount⟩
          have hpage : Page sax upcase objectKey parsed.entries listing deletions := ⟨hasked, hread parsed rfl, hsent⟩
          refine beforeDeadline_silent.bind ?_ ?_
          · rintro trace reason rfl hlaw
            have hlisting := hlaw listing List.mem_cons_self
            rw [List.append_nil, List.singleton_append]
            have hafter : Purged objectKey (passes + 1) (countDeleted counts parsed.entries) [] (.error reason) :=
              .of_error .nil (Nat.zero_le _)
            have hall := hafter.after_page hpage hlisting (hcount rfl)
            rwa [List.append_nil] at hall
          · rintro trace _ rfl
            dsimp only
            split
            · rename_i hempty
              refine ensures_pure fun hlaw => ?_
              have hlisting := hlaw listing List.mem_cons_self
              rw [hempty] at hpage ⊢
              rw [List.append_nil, List.append_nil, List.singleton_append]
              exact .of_empty hpage hlisting
            · split
              · rename_i hzero
                refine (verification_ensures _).mono fun rest result hrest hlaw => ?_
                have hlisting := hlaw listing List.mem_cons_self
                have hafter := hrest fun exchange hexchange => hlaw exchange (by simp [hexchange])
                have hall := hafter.after_page hpage hlisting (hcount rfl)
                rw [hzero]
                simpa using hall
              · refine (ih _).mono fun rest result hrest hlaw => ?_
                have hlisting := hlaw listing List.mem_cons_self
                have hafter := hrest fun exchange hexchange => hlaw exchange (by simp [hexchange])
                have hall := hafter.after_page hpage hlisting (hcount rfl)
                simpa using hall

private theorem validateObjectRequest_ok {tenantId objectKey : Option String} {key : String}
    (h : validateObjectRequest tenantId objectKey = .ok key) : objectKey = some key := by
  unfold validateObjectRequest at h
  split at h
  · cases h
  · cases h
  · rename_i hkey
    dsimp only at h
    split at h
    · cases h
    · split at h
      · cases h
      · cases h
        exact (Option.filter_eq_some_iff.1 hkey).1

/-- Whatever the environment does: a purge deletes entries of its key only, finds the key empty only when the store had
nothing of it, counts what was confirmed, and lists eleven times at most. -/
theorem purge_sound (environment : Environment σ) (sax : String → Option (List SaxEvent × String))
    (upcase : String → String) (tenantId objectKey : Option String) (s : σ)
    (hstore : ∀ exchange ∈ (purgeObjectVersions environment sax upcase tenantId objectKey).trace s,
      ListingLaw sax exchange) :
    Purged (objectKey.getD "") 11 ⟨0, 0⟩ ((purgeObjectVersions environment sax upcase tenantId objectKey).trace s)
      ((purgeObjectVersions environment sax upcase tenantId objectKey).result s) := by
  have hall : (purgeObjectVersions environment sax upcase tenantId objectKey).Ensures fun trace result =>
      (∀ exchange ∈ trace, ListingLaw sax exchange) → Purged (objectKey.getD "") 11 ⟨0, 0⟩ trace result := by
    unfold purgeObjectVersions
    refine Ensures.bind (P := fun trace result => trace = [] ∧ result = validateObjectRequest tenantId objectKey)
      (ensures_ofExcept ⟨rfl, rfl⟩) ?_ ?_
    · rintro trace reason ⟨rfl, -⟩ -
      exact .of_error .nil (Nat.zero_le _)
    · rintro trace key ⟨rfl, hvalid⟩
      rw [validateObjectRequest_ok hvalid.symm, Option.getD_some]
      refine now_silent.bind ?_ ?_
      · rintro trace reason ⟨rfl, time, h⟩
        cases h
      · rintro trace time ⟨rfl, -⟩
        exact (purgeVersionPages_ensures maxPurgePasses ⟨0, 0⟩).mono fun trace result h => h
  exact hall s hstore

/-! ### One run -/

section Runs

variable {parsed : Listing} {s s₁ s₂ s₃ s₄ : σ} {last : List Exchange}
  (hlist : listExactVersions environment sax upcase objectKey deadline s = (.ok parsed, trace, s₁))

include hlist

/-- A pass that finds nothing is the last one. -/
private theorem purgeVersionPages_last (hempty : parsed.entries = [])
    (hintime : beforeDeadline environment deadline s₁ = (.ok (), [], s₂)) :
    purgeVersionPages environment sax upcase objectKey deadline (passes + 1) counts s =
      (.ok ⟨counts, true⟩, trace, s₂) := by
  rw [purgeVersionPages, bind_of_ok hlist, hempty, deleteListedVersions,
    bind_of_silent (show (pure () : Purge σ Unit) s₁ = (.ok (), [], s₁) from rfl), bind_of_silent hintime, if_pos rfl]
  show (_, trace ++ [], _) = _
  rw [List.append_nil]
  rfl

/-- A pass that finds something is followed by another one. -/
private theorem purgeVersionPages_more {result : Except StorageError PurgeResult}
    (hdelete : deleteListedVersions environment objectKey deadline parsed.entries s₁ = (.ok (), deletions, s₂))
    (hintime : beforeDeadline environment deadline s₂ = (.ok (), [], s₃)) (hfound : parsed.entries ≠ [])
    (hpasses : passes ≠ 0)
    (hrest : purgeVersionPages environment sax upcase objectKey deadline passes (countDeleted counts parsed.entries) s₃ =
      (result, last, s₄)) :
    purgeVersionPages environment sax upcase objectKey deadline (passes + 1) counts s =
      (result, trace ++ (deletions ++ last), s₄) := by
  rw [purgeVersionPages, bind_of_ok hlist, bind_of_ok hdelete, bind_of_silent hintime, if_neg hfound, if_neg hpasses,
    hrest]

end Runs

/-! ### A store that deletes what it is told to -/

def renderElement (stored : StoredVersion) : String :=
  "<" ++ elementName stored.kind ++ "><Key>" ++ stored.key ++ "</Key><VersionId>" ++ stored.versionId ++ "</VersionId></" ++
    elementName stored.kind ++ ">"

def renderListing (page : List StoredVersion) : String :=
  "<ListVersionsResult>" ++ String.join (page.map renderElement) ++ "</ListVersionsResult>"

def textEvents (name text : String) : List SaxEvent := [.startElement name, .characters text.toList, .endElement name]

def elementEvents (stored : StoredVersion) : List SaxEvent :=
  .startElement (elementName stored.kind) :: ([] ++ (textEvents "Key" stored.key ++ ([] ++
    (textEvents "VersionId" stored.versionId ++ ([] ++ [.endElement (elementName stored.kind)])))))

def listingEvents (page : List StoredVersion) : List SaxEvent :=
  .other :: .startElement "ListVersionsResult" ::
    (page.flatMap elementEvents ++ [.endElement "ListVersionsResult", .other])

theorem listingEvents_spec (page : List StoredVersion) : ListingEvents page (listingEvents page) := by
  have hroot : entryElement "ListVersionsResult" = none ∧ captureElement "ListVersionsResult" = none := by decide
  refine .noise trivial (.noise hroot ?_)
  induction page with
  | nil => exact .noise hroot (.noise trivial .done)
  | cons stored page ih =>
    rw [List.flatMap_cons, List.append_assoc]
    refine .entry ⟨[], _, [], _, [], rfl, ⟨nofun, nofun, nofun⟩, .inl ⟨?_, ?_⟩⟩ ih
    · exact ⟨[.characters stored.key.toList], rfl, List.forall_mem_singleton.2 trivial, by simp [SaxEvent.text]⟩
    · exact ⟨[.characters stored.versionId.toList], rfl, List.forall_mem_singleton.2 trivial, by simp [SaxEvent.text]⟩

def simpleStore : Environment (List StoredVersion) where
  clock bucket := (0, bucket)
  presign bucket := (none, bucket)
  take bucket
    | .list pathPrefix maxKeys =>
      let page := (bucket.filter fun stored => pathPrefix.toList.isPrefixOf stored.key.toList).take maxKeys
      ((bucket, .response 200 (renderListing page)), bucket)
    | .delete objectKey entry =>
      ((bucket, .response 204 ""), bucket.filter fun stored =>
        !(stored.key = objectKey && Utf8.octets stored.versionId = entry.versionId))

def sampleVersion : StoredVersion := ⟨.version, "t/a", "v", by decide, by decide, by decide⟩

def sampleMarker : StoredVersion := ⟨.deleteMarker, "t/a", "m", by decide, by decide, by decide⟩

/-- Of another object, whose key begins with the one that is purged. -/
def sampleSibling : StoredVersion := ⟨.version, "t/ab", "w", by decide, by decide, by decide⟩

def sampleBucket : List StoredVersion := [sampleVersion, sampleMarker, sampleSibling]

/-- The documents of the sample, read as they are. -/
def sampleSax (body : String) : Option (List SaxEvent × String) :=
  [sampleBucket, [sampleSibling]].findSome? fun page =>
    if body.utf8ByteSize = (renderListing page).utf8ByteSize then some (listingEvents page, "") else none

def samplePurge : Purge (List StoredVersion) PurgeResult :=
  purgeObjectVersions simpleStore sampleSax id (some "t") (some "t/a")

private theorem renderListing_toList (page : List StoredVersion) : (renderListing page).toList =
    '<' :: ("ListVersionsResult>".toList ++ page.flatMap (fun stored => "<".toList ++ (elementName stored.kind).toList ++
      "><Key>".toList ++ stored.key.toList ++ "</Key><VersionId>".toList ++ stored.versionId.toList ++
      "</VersionId></".toList ++ (elementName stored.kind).toList ++ ">".toList) ++ "</ListVersionsResult>".toList) := by
  unfold renderListing
  rw [String.toList_append, String.toList_append, String.toList_join, List.flatMap_map]
  simp only [renderElement, String.toList_append]
  rfl

private theorem trimLeading_renderListing (page : List StoredVersion) :
    trimLeading (renderListing page) = renderListing page := by
  unfold trimLeading
  rw [renderListing_toList, List.dropWhile_cons_of_neg (by decide), ← renderListing_toList, String.ofList_toList]

private theorem parse_renderListing {page : List StoredVersion} {state : ParserState}
    (hsize : (renderListing page).utf8ByteSize ≤ maxXmlBytes)
    (hplain : forbiddenDeclaration id (renderListing page) = false)
    (hsax : sampleSax (renderListing page) = some (listingEvents page, ""))
    (hevents : (listingEvents page).foldlM handleEvent initial = .ok state) :
    parse sampleSax id (renderListing page) = .ok ⟨state.entries.reverse,
      state.isTruncated = "true".toList.map fun c => UInt8.ofNat c.toNat, state.nextKeyMarker, state.nextVersionIdMarker⟩ := by
  unfold parse
  rw [if_neg (Nat.not_lt.2 hsize), trimLeading_renderListing]
  dsimp only
  rw [hplain, hsax]
  dsimp only
  rw [hevents]
  rfl

private theorem sampleSax_bucket : sampleSax (renderListing sampleBucket) = some (listingEvents sampleBucket, "") := by
  decide +kernel

private theorem sampleSax_sibling :
    sampleSax (renderListing [sampleSibling]) = some (listingEvents [sampleSibling], "") := by
  decide +kernel

private theorem parse_bucket :
    parse sampleSax id (renderListing sampleBucket) = .ok ⟨sampleBucket.map StoredVersion.entry, false, none, none⟩ := by
  refine parse_renderListing (by decide +kernel) ?_ sampleSax_bucket rfl
  unfold forbiddenDeclaration
  rw [id, renderListing_toList]
  decide +kernel

private theorem parse_sibling :
    parse sampleSax id (renderListing [sampleSibling]) = .ok ⟨[sampleSibling.entry], false, none, none⟩ := by
  refine parse_renderListing (by decide +kernel) ?_ sampleSax_sibling rfl
  unfold forbiddenDeclaration
  rw [id, renderListing_toList]
  decide +kernel

private theorem listing_run (bucket page : List StoredVersion) {parsed : Listing} {own : List Entry}
    (hpage : (bucket.filter fun stored => "t/a".toList.isPrefixOf stored.key.toList).take versionPageSize = page)
    (hparse : parse sampleSax id (renderListing page) = .ok parsed)
    (hown : (parsed.entries.filter fun entry => entry.key = Utf8.octets "t/a") = own) :
    listExactVersions simpleStore sampleSax id "t/a" purgeBudgetMs bucket = (.ok { parsed with entries := own },
      [⟨.list "t/a" versionPageSize, bucket, .response 200 (renderListing page)⟩], bucket) := by
  have hrequest : boundedRequest simpleStore (.list "t/a" versionPageSize) purgeBudgetMs bucket =
      (.ok (200, renderListing page), [⟨.list "t/a" versionPageSize, bucket, .response 200 (renderListing page)⟩], bucket) := by
    rw [← hpage]
    rfl
  unfold listExactVersions
  rw [bind_of_silent (show presign simpleStore bucket = (.ok (), [], bucket) from rfl), bind_of_ok hrequest]
  dsimp only
  rw [if_pos (by decide), hparse, ← hown]
  rfl

private theorem samplePurge_eq : samplePurge = ofExcept (.ok "t/a") >>= fun objectKey => now simpleStore >>= fun time =>
    purgeVersionPages simpleStore sampleSax id objectKey (time + purgeBudgetMs) maxPurgePasses ⟨0, 0⟩ := by
  have hvalid : validateObjectRequest (some "t") (some "t/a") = .ok "t/a" := by decide +kernel
  unfold samplePurge purgeObjectVersions
  rw [hvalid]

/-- One pass finds the version and the marker, the next one only the sibling. -/
private theorem samplePurge_run : samplePurge sampleBucket =
    (.ok ⟨⟨1, 1⟩, true⟩,
      [⟨.list "t/a" versionPageSize, sampleBucket, .response 200 (renderListing sampleBucket)⟩,
        ⟨.delete "t/a" sampleVersion.entry, sampleBucket, .response 204 ""⟩,
        ⟨.delete "t/a" sampleMarker.entry, [sampleMarker, sampleSibling], .response 204 ""⟩,
        ⟨.list "t/a" versionPageSize, [sampleSibling], .response 200 (renderListing [sampleSibling])⟩],
      [sampleSibling]) := by
  have hfirst := listing_run sampleBucket sampleBucket (by decide +kernel) parse_bucket
    (show _ = [sampleVersion.entry, sampleMarker.entry] by decide +kernel)
  have hlast := listing_run [sampleSibling] [sampleSibling] (by decide +kernel) parse_sibling (show _ = [] by decide +kernel)
  have hdelete : deleteListedVersions simpleStore "t/a" purgeBudgetMs [sampleVersion.entry, sampleMarker.entry] sampleBucket =
      (.ok (), [⟨.delete "t/a" sampleVersion.entry, sampleBucket, .response 204 ""⟩,
        ⟨.delete "t/a" sampleMarker.entry, [sampleMarker, sampleSibling], .response 204 ""⟩], [sampleSibling]) := by
    decide +kernel
  have hbudget : purgeVersionPages simpleStore sampleSax id "t/a" (0 + purgeBudgetMs) maxPurgePasses ⟨0, 0⟩ =
      purgeVersionPages simpleStore sampleSax id "t/a" purgeBudgetMs (9 + 1) ⟨0, 0⟩ := by
    rw [Int.zero_add, maxPurgePasses]
  rw [samplePurge_eq,
    bind_of_silent (show (ofExcept (.ok "t/a") : Purge _ _) sampleBucket = (.ok "t/a", [], sampleBucket) from rfl),
    bind_of_silent (show now simpleStore sampleBucket = (.ok 0, [], sampleBucket) from rfl), hbudget]
  exact purgeVersionPages_more hfirst hdelete rfl (by decide) (by decide) (purgeVersionPages_last hlast rfl rfl)

private theorem sample_law {page : List StoredVersion} {maxKeys : Nat} (hmax : 1 ≤ maxKeys ∧ page.length ≤ maxKeys)
    (hbegins : ∀ stored ∈ page, "t/a".toList.isPrefixOf stored.key.toList = true)
    (hsorted : page.Pairwise fun stored stored' => stored.key ≤ stored'.key)
    (hsax : sampleSax (renderListing page) = some (listingEvents page, "")) :
    ListingLaw sampleSax ⟨.list "t/a" maxKeys, page, .response 200 (renderListing page)⟩ := by
  intro pathPrefix maxKeys' status body hrequest hreply _ _
  cases hrequest
  cases hreply
  rw [← trimLeading_renderListing] at hsax
  refine ⟨page, maxKeys, ?_, hsorted, ⟨hmax.1, Nat.le_refl _⟩, listingEvents page, "", hsax, ?_⟩
  · rw [List.filter_eq_self.2 hbegins]
  · rw [List.take_of_length_le hmax.2]
    exact listingEvents_spec page

private theorem deletion_law (objectKey : String) (entry : Entry) (bucket : List StoredVersion) (reply : Reply) :
    ListingLaw sampleSax ⟨.delete objectKey entry, bucket, reply⟩ := by
  intro pathPrefix maxKeys status body hrequest
  cases hrequest

private theorem sample_laws : ∀ exchange ∈ samplePurge.trace sampleBucket, ListingLaw sampleSax exchange := by
  rw [Session.trace, samplePurge_run]
  simp only [List.forall_mem_cons]
  exact ⟨sample_law (by decide) (by decide) (by decide) sampleSax_bucket, deletion_law _ _ _ _, deletion_law _ _ _ _,
    sample_law (by decide) (by decide) (by decide) sampleSax_sibling, nofun⟩

theorem purge_sound_sample :
    Purged "t/a" 11 ⟨0, 0⟩ (samplePurge.trace sampleBucket) (samplePurge.result sampleBucket) ∧
      samplePurge.result sampleBucket = .ok ⟨⟨1, 1⟩, true⟩ := by
  constructor
  · have hpurged := purge_sound simpleStore sampleSax id (some "t") (some "t/a") sampleBucket sample_laws
    exact hpurged
  · rw [Session.result, samplePurge_run]

end KComms.ObjectStorage
