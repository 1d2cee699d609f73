import KComms.Attachments.AttachmentChange
import KComms.Lib.DotSegments
import KComms.Lib.Utf8

/-!
# Object keys (`Attachments.Uploads`, `ObjectStorage.S3.Presigner`)

The key of an object is `tenant/id/leaf`, where the leaf is what is left of the file name, or the kind of a variant.  The
intents whose names are harmless have keys of their own, and the path that is signed for a key is the one that a client
sends (`harmless_keys`).  A name that is a dot segment or that of the variant is let through, and does harm
(`harmless_of_keysSound`).
-/

namespace KComms.Attachments

open Attempt DotSegments
open ElixirString (pieces)

/-! ### The path of a presigned URL -/

/-- `URI.char_unreserved?` -/
def charUnreserved (octet : UInt8) : Bool :=
  let n := octet.toNat
  (0x41 ≤ n && n ≤ 0x5A) || (0x61 ≤ n && n ≤ 0x7A) || (0x30 ≤ n && n ≤ 0x39) || n == 0x7E || n == 0x5F || n == 0x2D ||
    n == 0x2E

def upperHexDigit (n : Nat) : Char := if n < 10 then Char.ofNat (48 + n) else Char.ofNat (55 + n)

/-- `URI.encode` of one octet. -/
def percent (octet : UInt8) : List Char :=
  if charUnreserved octet then [Char.ofNat octet.toNat]
  else ['%', upperHexDigit (octet.toNat / 16), upperHexDigit (octet.toNat % 16)]

/-- `encode` -/
def encode (value : List Char) : List Char := (value.flatMap String.utf8EncodeChar).flatMap percent

/-- `path` -/
def signedPath (value : String) : List Char := ['/'].intercalate ((pieces '/' value.toList).map encode)

/-- `"/#{path(bucket)}/#{path(object_key)}"` -/
def canonicalUri (bucket objectKey : String) : List Char := '/' :: (signedPath bucket ++ '/' :: signedPath objectKey)

private theorem forall_octet {P : UInt8 → Prop} (h : ∀ n < 256, P (UInt8.ofNat n)) (octet : UInt8) : P octet := by
  have hoctet := h octet.toNat (UInt8.toNat_lt octet)
  rwa [UInt8.ofNat_toNat] at hoctet

private theorem percent_no_slash : ∀ octet, ∀ c ∈ percent octet, c ≠ '/' :=
  forall_octet (by decide +kernel)

/-- A full stop is only written for itself. -/
private theorem percent_dot : ∀ octet, (percent octet).head? = some '.' → octet = 46 :=
  forall_octet (by decide +kernel)

theorem encode_no_slash (value : List Char) : ∀ c ∈ encode value, c ≠ '/' := by
  intro c hc
  obtain ⟨octet, -, hoctet⟩ := List.mem_flatMap.1 hc
  exact percent_no_slash octet c hoctet

private theorem encode_cons (c : Char) (value : List Char) :
    encode (c :: value) = (String.utf8EncodeChar c).flatMap percent ++ encode value := by
  unfold encode
  rw [List.flatMap_cons, List.flatMap_append]

private theorem encode_dot (value : List Char) : encode ('.' :: value) = '.' :: encode value := by
  rw [encode_cons]
  rfl

private theorem head?_percent_ne_none (octet : UInt8) : (percent octet).head? ≠ none := by
  unfold percent
  split <;> simp

/-- The encoding of a value starts with a full stop only if the value does. -/
private theorem encode_head_dot {c : Char} {value rest : List Char} (h : encode (c :: value) = '.' :: rest) :
    c = '.' := by
  rw [encode_cons] at h
  obtain ⟨octet, octets, hoctets⟩ := List.exists_cons_of_ne_nil (String.utf8EncodeChar_ne_nil (c := c))
  rw [hoctets, List.flatMap_cons, List.append_assoc] at h
  have hhead : (percent octet).head? = some '.' := by
    cases hpercent : percent octet with
    | nil => exact absurd (by rw [hpercent]; rfl) (head?_percent_ne_none octet)
    | cons d others =>
      rw [hpercent, List.cons_append, List.cons.injEq] at h
      rw [h.1]
      rfl
  have hdot := percent_dot octet hhead
  subst hdot
  have hcode := Utf8.utf8EncodeChar_ascii (c := c) (b := 46) (by rw [hoctets]; exact List.mem_cons_self) (by decide)
  exact Char.toNat_inj.1 hcode

private theorem encode_ne_nil (c : Char) (value : List Char) : encode (c :: value) ≠ [] := by
  rw [encode_cons]
  obtain ⟨octet, octets, hoctets⟩ := List.exists_cons_of_ne_nil (String.utf8EncodeChar_ne_nil (c := c))
  rw [hoctets, List.flatMap_cons]
  intro h
  have hpercent := (List.append_eq_nil_iff.1 (List.append_eq_nil_iff.1 h).1).1
  exact head?_percent_ne_none octet (by rw [hpercent]; rfl)

theorem encode_eq_dots (n : Nat) : ∀ {value : List Char},
    encode value = List.replicate n '.' ↔ value = List.replicate n '.' := by
  induction n with
  | zero =>
    intro value
    cases value with
    | nil => exact iff_of_true rfl rfl
    | cons c value => exact iff_of_false (encode_ne_nil c value) (List.cons_ne_nil c value)
  | succ n ih =>
    intro value
    cases value with
    | nil => exact iff_of_false (fun h => by cases h) fun h => by cases h
    | cons c value =>
      rw [List.replicate_succ]
      constructor
      · intro h
        obtain rfl := encode_head_dot h
        rw [encode_dot, List.cons.injEq] at h
        rw [ih.1 h.2]
      · intro h
        rw [List.cons.injEq] at h
        rw [h.1, encode_dot, ih.2 h.2]

theorem isDot_encode {value : List Char} : IsDot (encode value) ↔ IsDot value :=
  or_congr (encode_eq_dots 1) (encode_eq_dots 2)

private theorem slash_intercalate {segments : List (List Char)} (h : segments ≠ []) :
    '/' :: ['/'].intercalate segments = absolutePath segments := by
  induction segments with
  | nil => exact absurd rfl h
  | cons segment segments ih =>
    cases segments with
    | nil => simp [List.intercalate, absolutePath]
    | cons other segments =>
      have hrest := ih (List.cons_ne_nil other segments)
      have hpath : absolutePath (segment :: other :: segments) = '/' :: (segment ++ absolutePath (other :: segments)) :=
        rfl
      rw [hpath, ← hrest]
      simp [List.intercalate]

theorem canonicalUri_eq (bucket objectKey : String) :
    canonicalUri bucket objectKey =
      absolutePath ((pieces '/' bucket.toList).map encode ++ (pieces '/' objectKey.toList).map encode) := by
  have hbucket : (pieces '/' bucket.toList).map encode ≠ [] := by simp [ElixirString.pieces_ne_nil]
  have hkey : (pieces '/' objectKey.toList).map encode ≠ [] := by simp [ElixirString.pieces_ne_nil]
  unfold canonicalUri signedPath
  rw [slash_intercalate hkey, ← List.cons_append, slash_intercalate hbucket, absolutePath, absolutePath,
    absolutePath, List.flatMap_append]

/-- What is sent is what was signed if and only if neither the bucket nor the key has a dot segment. -/
theorem removeDotSegments_canonicalUri (bucket objectKey : String) :
    removeDotSegments (canonicalUri bucket objectKey) = canonicalUri bucket objectKey ↔
      (∀ piece ∈ pieces '/' bucket.toList, ¬ IsDot piece) ∧ ∀ piece ∈ pieces '/' objectKey.toList, ¬ IsDot piece := by
  have hslash : ∀ segment ∈ (pieces '/' bucket.toList).map encode ++ (pieces '/' objectKey.toList).map encode,
      ∀ c ∈ segment, c ≠ '/' := by
    intro segment hsegment
    rw [← List.map_append] at hsegment
    obtain ⟨piece, -, rfl⟩ := List.mem_map.1 hsegment
    exact encode_no_slash piece
  rw [canonicalUri_eq, removeDotSegments_absolutePath hslash, List.forall_mem_append, List.forall_mem_map,
    List.forall_mem_map]
  simp only [isDot_encode]

/-! ### Leaves -/

/-- Characters that `sanitize_file_name` keeps and does not put in place of others. -/
def plain (c : Char) : Bool := c.isAlphanum || c = '.' || c = '-'

private theorem map_eq_plain {f : Char → Char} (hkeep : ∀ c, plain c = true → f c = c)
    (hother : ∀ c, plain (f c) = true → f c = c) {leaf : List Char} (hleaf : ∀ c ∈ leaf, plain c = true) :
    ∀ {l : List Char}, l.map f = leaf ↔ l = leaf := by
  induction leaf with
  | nil =>
    intro l
    exact List.map_eq_nil_iff
  | cons d leaf ih =>
    obtain ⟨hd, hrest⟩ := List.forall_mem_cons.1 hleaf
    intro l
    cases l with
    | nil => simp
    | cons c l =>
      rw [List.map_cons, List.cons.injEq, List.cons.injEq, ih hrest]
      refine and_congr_left fun _ => ⟨fun h => ?_, fun h => ?_⟩
      · rw [← h]
        exact (hother c (by rw [h]; exact hd)).symm
      · rw [h]
        exact hkeep d hd

/-- A short leaf of plain characters comes from itself only. -/
theorem sanitizeFileName_eq {name : String} {leaf : List Char} (hleaf : ∀ c ∈ leaf, plain c = true)
    (hshort : leaf.length < 255) : (sanitizeFileName name).toList = leaf ↔ basename name = leaf := by
  unfold sanitizeFileName
  rw [String.toList_ofList]
  have htake : ∀ l : List Char, l.take 255 = leaf ↔ l = leaf := by
    intro l
    by_cases hl : l.length ≤ 255
    · rw [List.take_of_length_le hl]
    · refine iff_of_false (fun h => ?_) fun h => ?_
      · have hlength := congrArg List.length h
        rw [List.length_take] at hlength
        omega
      · rw [h] at hl
        omega
  rw [htake]
  refine map_eq_plain (fun c hc => ?_) (fun c hc => ?_) hleaf
  · have hkept : (c.isAlphanum || c = '.' || c = '_' || c = '-') = true := by
      simp only [plain, Bool.or_eq_true, decide_eq_true_eq] at hc ⊢
      tauto
    exact if_pos hkept
  · split at hc
    · rename_i hkept
      exact if_pos hkept
    · cases hc

theorem isDot_sanitizeFileName (name : String) :
    IsDot (sanitizeFileName name).toList ↔ IsDot (basename name) :=
  or_congr (sanitizeFileName_eq (by decide) (by decide)) (sanitizeFileName_eq (by decide) (by decide))

theorem sanitizeFileName_no_slash (name : String) : ∀ c ∈ (sanitizeFileName name).toList, c ≠ '/' := by
  intro c hc
  unfold sanitizeFileName at hc
  rw [String.toList_ofList] at hc
  obtain ⟨d, -, rfl⟩ := List.mem_map.1 (List.mem_of_mem_take hc)
  intro hslash
  split at hslash
  · rename_i hkept
    rw [hslash] at hkept
    exact absurd hkept (by decide)
  · cases hslash

/-- The names whose object keys do no harm: the last part of the name is no dot segment, and with a thumbnail not its
leaf. -/
def harmless (attrs : IntentAttrs) : Bool :=
  let leaf := basename (attrs.fileName.getD "attachment")
  !decide (IsDot leaf) && (attrs.thumbnail.isNone || leaf ≠ "thumbnail".toList)

/-! ### Keys -/

/-- `Ecto.UUID` as text. -/
def isUuid (id : String) : Bool :=
  (pieces '-' id.toList).map List.length = [8, 4, 4, 4, 12] &&
    id.toList.all fun c => c.isDigit || ('a' ≤ c && c ≤ 'f') || c = '-'

def objectKeyOf (tenantId id leaf : String) : String := tenantId ++ "/" ++ id ++ "/" ++ leaf

def AttachmentStore.objectKeys (store : AttachmentStore) : List String :=
  store.attachments.rows.map Attachment.objectKey ++ store.variants.map AttachmentVariant.objectKey

/-- `tenant/id/leaf` with a leaf that is not empty. -/
def HasForm (tenantId id objectKey : String) : Prop :=
  ∃ leaf, leaf ≠ [] ∧ pieces '/' objectKey.toList = [tenantId.toList, id.toList, leaf]

structure KeysSound (bucket : String) (store : AttachmentStore) : Prop where
  distinct : store.objectKeys.Nodup
  attachments : ∀ row ∈ store.attachments.rows, HasForm row.tenantId row.id row.objectKey
  variants : ∀ variant ∈ store.variants, HasForm variant.tenantId variant.attachmentId variant.objectKey
  sent : ∀ objectKey ∈ store.objectKeys, removeDotSegments (canonicalUri bucket objectKey) = canonicalUri bucket objectKey

structure IntentCall where
  facts : UploadFacts
  id : String
  attrs : IntentAttrs
  subject : AttachmentSubject

/-- The store after an intent; one that is refused leaves it as it is. -/
def AttachmentStore.submit (store : AttachmentStore) (call : IntentCall) : AttachmentStore :=
  match (createIntent call.facts call.id call.attrs call.subject store).outcome with
  | .ok (_, store) => store
  | .error _ => store

private theorem thumbnailIntent_isSome {attrs : IntentAttrs} {contentType : String} {thumbnail : Option ThumbnailIntent}
    (h : thumbnailIntent attrs contentType = .ok thumbnail) : thumbnail.isSome = attrs.thumbnail.isSome := by
  unfold thumbnailIntent at h
  split at h
  · rename_i hnone
    cases h
    rw [hnone]
    rfl
  · rename_i declared hsome
    rw [hsome]
    split at h
    · cases hdeclared : declaredThumbnail declared with
      | error reason =>
        rw [hdeclared] at h
        cases h
      | ok intent =>
        rw [hdeclared] at h
        cases h
        rfl
    · cases h

/-- What a written intent adds. -/
private theorem createIntent_adds {facts : UploadFacts} {id : String} {attrs : IntentAttrs} {subject : AttachmentSubject}
    {store store' : AttachmentStore} {row : Attachment}
    (h : (createIntent facts id attrs subject store).Commits (row, store')) :
    ∃ thumbnail : Option ThumbnailIntent, store.attachments.insert row = some store'.attachments ∧
      store'.variants = store.variants ++ (thumbnail.map (thumbnailVariant row)).toList ∧
      thumbnail.isSome = attrs.thumbnail.isSome ∧ row.id = id ∧ row.tenantId = subject.tenantId ∧
      row.fileName = sanitizeFileName (attrs.fileName.getD "attachment") ∧
      row.objectKey = objectKeyOf row.tenantId row.id row.fileName ∧ row.fileName.toList ≠ [] := by
  unfold createIntent at h
  split at h
  · exact absurd h (commits_rollback _ _)
  · simp only [commits_bind, insertAttachment, commits_ofExcept, commits_check] at h
    obtain ⟨-, -, byteSize, -, checksum, -, thumbnail, hthumbnail, -, hvalid, h⟩ := h
    split at h
    · exact absurd h (commits_rollback _ _)
    · rename_i attachments hinsert
      rw [commits_pure, Prod.mk.injEq] at h
      obtain ⟨rfl, rfl⟩ := h
      have hname : 1 ≤ (sanitizeFileName (attrs.fileName.getD "attachment")).length := by
        simp only [Bool.and_eq_true, decide_eq_true_eq] at hvalid
        exact hvalid.1.1.1
      refine ⟨thumbnail, hinsert, rfl, ?_, rfl, rfl, rfl, rfl, fun hnil => ?_⟩
      · exact thumbnailIntent_isSome hthumbnail
      · rw [String.toList_eq_nil_iff] at hnil
        rw [show sanitizeFileName (attrs.fileName.getD "attachment") = "" from hnil] at hname
        exact absurd hname (by decide)

section Keys

variable {tenantId id leaf : String}

private theorem uuid_character {c : Char} (hid : isUuid id = true) (hc : c ∈ id.toList) :
    (c.isDigit || ('a' ≤ c && c ≤ 'f') || c = '-') = true := by
  unfold isUuid at hid
  rw [Bool.and_eq_true] at hid
  exact List.all_eq_true.1 hid.2 c hc

private theorem uuid_no_slash (hid : isUuid id = true) : ∀ c ∈ id.toList, c ≠ '/' := by
  rintro c hc rfl
  exact absurd (uuid_character hid hc) (by decide)

private theorem uuid_not_dot (hid : isUuid id = true) : ¬ IsDot id.toList := by
  intro hdot
  have hfull : '.' ∈ id.toList := by
    rcases hdot with h | h <;> rw [h] <;> decide
  exact absurd (uuid_character hid hfull) (by decide)

theorem pieces_objectKeyOf (htenant : ∀ c ∈ tenantId.toList, c ≠ '/') (hid : ∀ c ∈ id.toList, c ≠ '/')
    (hleaf : ∀ c ∈ leaf.toList, c ≠ '/') :
    pieces '/' (objectKeyOf tenantId id leaf).toList = [tenantId.toList, id.toList, leaf.toList] := by
  have htext : (objectKeyOf tenantId id leaf).toList =
      tenantId.toList ++ '/' :: (id.toList ++ '/' :: leaf.toList) := by
    unfold objectKeyOf
    simp only [String.toList_append, show "/".toList = ['/'] from rfl, List.append_assoc, List.cons_append,
      List.nil_append]
  rw [htext, ElixirString.pieces_append, ElixirString.pieces_append, ElixirString.pieces_of_no_separator htenant,
    ElixirString.pieces_of_no_separator hid, ElixirString.pieces_of_no_separator hleaf]
  rfl

end Keys

/-- The invariant of the runs: keys made of identifiers and leaves, and variants of rows whose leaf is another one. -/
structure Keyed (store : AttachmentStore) : Prop where
  rows : ∀ row ∈ store.attachments.rows, (isUuid row.tenantId = true ∧ isUuid row.id = true) ∧
    row.objectKey = objectKeyOf row.tenantId row.id row.fileName ∧ row.fileName.toList ≠ [] ∧
    (∀ c ∈ row.fileName.toList, c ≠ '/') ∧ ¬ IsDot row.fileName.toList
  variants : ∀ variant ∈ store.variants, ∃ row ∈ store.attachments.rows, variant.attachmentId = row.id ∧
    variant.tenantId = row.tenantId ∧ variant.objectKey = objectKeyOf row.tenantId row.id "thumbnail" ∧
    row.fileName ≠ "thumbnail"
  single : (store.variants.map AttachmentVariant.attachmentId).Nodup

theorem Keyed.empty : Keyed .empty where
  rows := fun row hrow => by cases hrow
  variants := fun variant hvariant => by cases hvariant
  single := List.nodup_nil

private theorem harmless_iff {attrs : IntentAttrs} : harmless attrs = true ↔
    ¬ IsDot (basename (attrs.fileName.getD "attachment")) ∧
      (attrs.thumbnail.isSome = true → basename (attrs.fileName.getD "attachment") ≠ "thumbnail".toList) := by
  unfold harmless
  generalize basename (attrs.fileName.getD "attachment") = leaf
  generalize "thumbnail".toList = thumbnail
  cases attrs.thumbnail <;> simp

private theorem fileName_eq_thumbnail {name : String} :
    sanitizeFileName name = "thumbnail" ↔ basename name = "thumbnail".toList := by
  rw [← sanitizeFileName_eq (by decide) (by decide), String.toList_inj]

theorem Keyed.submit {store : AttachmentStore} (hkeyed : Keyed store) {call : IntentCall}
    (huuid : isUuid call.id = true ∧ isUuid call.subject.tenantId = true) (hharmless : harmless call.attrs = true) :
    Keyed (store.submit call) := by
  unfold AttachmentStore.submit
  split
  · rename_i row store' hcommits
    obtain ⟨hdot, hother⟩ := harmless_iff.1 hharmless
    obtain ⟨thumbnail, hinsert, hvariants, hdeclared, hid, htenant, hname, hkey, hne⟩ := createIntent_adds hcommits
    obtain ⟨hrows, hnew⟩ := KeyedTable.insert_eq_some.1 hinsert
    have hold : ∀ variant ∈ store.variants, variant.attachmentId ≠ row.id := by
      intro variant hvariant heq
      obtain ⟨owner, howner, hattachment, -⟩ := hkeyed.variants variant hvariant
      exact hnew (List.mem_map.2 ⟨owner, howner, by rw [← hattachment, heq]⟩)
    constructor
    · intro other hmem
      rw [hrows] at hmem
      rcases List.mem_cons.1 hmem with rfl | hmem
      · refine ⟨⟨by rw [htenant]; exact huuid.2, by rw [hid]; exact huuid.1⟩, hkey, hne, ?_, ?_⟩
        · rw [hname]
          exact sanitizeFileName_no_slash _
        · rw [hname, isDot_sanitizeFileName]
          exact hdot
      · exact hkeyed.rows other hmem
    · intro variant hmem
      rw [hvariants] at hmem
      rcases List.mem_append.1 hmem with hmem | hmem
      · obtain ⟨owner, howner, hrest⟩ := hkeyed.variants variant hmem
        exact ⟨owner, by rw [hrows]; exact List.mem_cons_of_mem _ howner, hrest⟩
      · cases thumbnail with
        | none => cases hmem
        | some declared =>
          have hvariant := List.mem_singleton.1 hmem
          subst hvariant
          refine ⟨row, by rw [hrows]; exact List.mem_cons_self, rfl, rfl, ?_, ?_⟩
          · simp only [thumbnailVariant, objectKeyOf, String.append_assoc]
            rfl
          · rw [hname, Ne, fileName_eq_thumbnail]
            exact hother (by rw [← hdeclared]; rfl)
    · rw [hvariants, List.map_append, List.nodup_append]
      refine ⟨hkeyed.single, ?_, ?_⟩
      · cases thumbnail with
        | none => exact List.nodup_nil
        | some declared => exact List.nodup_singleton _
      · intro attachmentId hmem attachmentId' hmem'
        obtain ⟨variant, hvariant, rfl⟩ := List.mem_map.1 hmem
        obtain ⟨added, hadded, rfl⟩ := List.mem_map.1 hmem'
        cases thumbnail with
        | none => cases hadded
        | some declared =>
          rw [List.mem_singleton.1 hadded]
          exact hold variant hvariant
  · exact hkeyed

section Sound

variable {store : AttachmentStore} {row : Attachment} {variant : AttachmentVariant}

private theorem Keyed.pieces_row (hkeyed : Keyed store) (hrow : row ∈ store.attachments.rows) :
    pieces '/' row.objectKey.toList = [row.tenantId.toList, row.id.toList, row.fileName.toList] := by
  obtain ⟨⟨htenant, hid⟩, hkey, -, hslash, -⟩ := hkeyed.rows row hrow
  rw [hkey]
  exact pieces_objectKeyOf (uuid_no_slash htenant) (uuid_no_slash hid) hslash

private theorem Keyed.pieces_variant (hkeyed : Keyed store) (hvariant : variant ∈ store.variants) :
    pieces '/' variant.objectKey.toList =
      [variant.tenantId.toList, variant.attachmentId.toList, "thumbnail".toList] := by
  obtain ⟨row, hrow, hattachment, htenant, hkey, -⟩ := hkeyed.variants variant hvariant
  obtain ⟨⟨htenantUuid, hid⟩, -⟩ := hkeyed.rows row hrow
  rw [hkey, hattachment, htenant]
  exact pieces_objectKeyOf (uuid_no_slash htenantUuid) (uuid_no_slash hid) (by decide)

private theorem Keyed.distinct (hkeyed : Keyed store) : store.objectKeys.Nodup := by
  unfold AttachmentStore.objectKeys
  rw [List.nodup_append]
  refine ⟨?_, ?_, ?_⟩
  · refine List.Nodup.map_on (fun row hrow row' hrow' heq => ?_) (List.Nodup.of_map _ store.attachments.unique)
    have hpieces := hkeyed.pieces_row hrow
    rw [heq, hkeyed.pieces_row hrow'] at hpieces
    simp only [List.cons.injEq] at hpieces
    exact KeyedTable.eq_of_key hrow hrow' (String.toList_inj.1 hpieces.2.1.symm)
  · refine List.Nodup.map_on (fun variant hvariant variant' hvariant' heq => ?_) (List.Nodup.of_map _ hkeyed.single)
    have hpieces := hkeyed.pieces_variant hvariant
    rw [heq, hkeyed.pieces_variant hvariant'] at hpieces
    simp only [List.cons.injEq] at hpieces
    exact List.inj_on_of_nodup_map hkeyed.single hvariant hvariant' (String.toList_inj.1 hpieces.2.1.symm)
  · rintro key hkey key' hkey' rfl
    obtain ⟨row, hrow, rfl⟩ := List.mem_map.1 hkey
    obtain ⟨variant, hvariant, heq⟩ := List.mem_map.1 hkey'
    have hpieces := hkeyed.pieces_row hrow
    rw [← heq, hkeyed.pieces_variant hvariant] at hpieces
    simp only [List.cons.injEq] at hpieces
    obtain ⟨owner, howner, hattachment, -, -, hname⟩ := hkeyed.variants variant hvariant
    have hid : owner.id = row.id := by rw [← hattachment]; exact String.toList_inj.1 hpieces.2.1
    rw [KeyedTable.eq_of_key howner hrow hid] at hname
    exact hname (String.toList_inj.1 hpieces.2.2.1.symm)

theorem Keyed.keysSound {bucket : String} (hbucket : ∀ piece ∈ pieces '/' bucket.toList, ¬ IsDot piece)
    (hkeyed : Keyed store) : KeysSound bucket store where
  distinct := hkeyed.distinct
  attachments := fun row hrow => ⟨_, (hkeyed.rows row hrow).2.2.1, hkeyed.pieces_row hrow⟩
  variants := fun variant hvariant => ⟨_, by decide, hkeyed.pieces_variant hvariant⟩
  sent := by
    intro key hkey
    refine (removeDotSegments_canonicalUri bucket key).2 ⟨hbucket, ?_⟩
    rcases List.mem_append.1 hkey with hkey | hkey
    · obtain ⟨row, hrow, rfl⟩ := List.mem_map.1 hkey
      obtain ⟨⟨htenant, hid⟩, -, -, -, hdot⟩ := hkeyed.rows row hrow
      rw [hkeyed.pieces_row hrow]
      simp only [List.forall_mem_cons]
      exact ⟨uuid_not_dot htenant, uuid_not_dot hid, hdot, fun piece hpiece => by cases hpiece⟩
    · obtain ⟨variant, hvariant, rfl⟩ := List.mem_map.1 hkey
      obtain ⟨row, hrow, hattachment, htenant, -⟩ := hkeyed.variants variant hvariant
      obtain ⟨⟨htenantUuid, hid⟩, -⟩ := hkeyed.rows row hrow
      rw [hkeyed.pieces_variant hvariant, hattachment, htenant]
      simp only [List.forall_mem_cons]
      exact ⟨uuid_not_dot htenantUuid, uuid_not_dot hid, by decide, fun piece hpiece => by cases hpiece⟩

end Sound

/-- Intents with harmless names, in any order: no two objects share a key, every key has its form, and what is sent for it
is what was signed. -/
theorem harmless_keys {bucket : String} (hbucket : ∀ piece ∈ pieces '/' bucket.toList, ¬ IsDot piece)
    {calls : List IntentCall} (huuid : ∀ call ∈ calls, isUuid call.id = true ∧ isUuid call.subject.tenantId = true)
    (hharmless : ∀ call ∈ calls, harmless call.attrs = true) :
    KeysSound bucket (calls.foldl AttachmentStore.submit .empty) := by
  suffices hkeyed : ∀ store, Keyed store → Keyed (calls.foldl AttachmentStore.submit store) from
    (hkeyed .empty .empty).keysSound hbucket
  induction calls with
  | nil => exact fun store hkeyed => hkeyed
  | cons call calls ih =>
    intro store hkeyed
    obtain ⟨hid, hids⟩ := List.forall_mem_cons.1 huuid
    obtain ⟨hname, hnames⟩ := List.forall_mem_cons.1 hharmless
    exact ih hids hnames _ (hkeyed.submit hid hname)

/-- A written intent whose keys are sound had a harmless name. -/
theorem harmless_of_keysSound {bucket : String} {store : AttachmentStore} {call : IntentCall}
    (hwritten : ∃ result, (createIntent call.facts call.id call.attrs call.subject store).Commits result)
    (huuid : isUuid call.id = true ∧ isUuid call.subject.tenantId = true)
    (hsound : KeysSound bucket (store.submit call)) : harmless call.attrs = true := by
  obtain ⟨⟨row, store'⟩, hcommits⟩ := hwritten
  have hstore : store.submit call = store' := by
    unfold AttachmentStore.submit
    rw [show (createIntent call.facts call.id call.attrs call.subject store).outcome = .ok (row, store') from hcommits]
  obtain ⟨thumbnail, hinsert, hvariants, hdeclared, hid, htenant, hname, hkey, -⟩ := createIntent_adds hcommits
  have hrow : row ∈ store'.attachments.rows := (KeyedTable.mem_insert hinsert).2 (.inl rfl)
  rw [hstore] at hsound
  refine harmless_iff.2 ⟨fun hdot => ?_, fun hthumbnail hleaf => ?_⟩
  · have hmem : row.objectKey ∈ store'.objectKeys := List.mem_append_left _ (List.mem_map_of_mem hrow)
    have hsent := ((removeDotSegments_canonicalUri bucket row.objectKey).1 (hsound.sent row.objectKey hmem)).2
    have hslash : ∀ c ∈ row.fileName.toList, c ≠ '/' := by
      rw [hname]
      exact sanitizeFileName_no_slash _
    have hpieces := pieces_objectKeyOf (@uuid_no_slash row.tenantId (by rw [htenant]; exact huuid.2))
      (@uuid_no_slash row.id (by rw [hid]; exact huuid.1)) hslash
    rw [← hkey] at hpieces
    refine hsent row.fileName.toList (by rw [hpieces]; simp) ?_
    rw [hname, isDot_sanitizeFileName]
    exact hdot
  · rw [← hdeclared] at hthumbnail
    obtain ⟨declared, rfl⟩ := Option.isSome_iff_exists.1 hthumbnail
    have hvariant : thumbnailVariant row declared ∈ store'.variants := by
      rw [hvariants]
      exact List.mem_append_right _ (List.mem_singleton_self _)
    have hsame : (thumbnailVariant row declared).objectKey = row.objectKey := by
      rw [hkey, show row.fileName = "thumbnail" by rw [hname]; exact fileName_eq_thumbnail.2 hleaf]
      simp only [thumbnailVariant, objectKeyOf, String.append_assoc]
      rfl
    exact (List.nodup_append.1 hsound.distinct).2.2 _ (List.mem_map_of_mem hrow) _ (List.mem_map_of_mem hvariant)
      hsame.symm

/-! ### Names that do harm -/

def sampleUpload (fileName : String) (thumbnail : Option ThumbnailAttrs) : IntentCall where
  facts := ⟨some none, 10, true, true, 0⟩
  id := "00000000-0000-4000-8000-000000000001"
  attrs := ⟨some fileName, some "image/png", some 1, some (String.ofList (List.replicate 64 'a')), thumbnail⟩
  subject := ⟨"00000000-0000-4000-8000-00000000000a", "u"⟩

def sampleThumbnail : ThumbnailAttrs := ⟨some "image/png", some 1, some (String.ofList (List.replicate 64 'b'))⟩

theorem harmless_keys_photo :
    KeysSound "attachments" ([sampleUpload "photo.png" (some sampleThumbnail)].foldl AttachmentStore.submit .empty) :=
  harmless_keys (by decide) (by decide) (by decide)

private theorem dots_keys : ([sampleUpload ".." none].foldl AttachmentStore.submit .empty).objectKeys =
    ["00000000-0000-4000-8000-00000000000a/00000000-0000-4000-8000-000000000001/.."] := by
  decide

private theorem thumbnail_keys :
    ([sampleUpload "thumbnail" (some sampleThumbnail)].foldl AttachmentStore.submit .empty).objectKeys =
      ["00000000-0000-4000-8000-00000000000a/00000000-0000-4000-8000-000000000001/thumbnail",
        "00000000-0000-4000-8000-00000000000a/00000000-0000-4000-8000-000000000001/thumbnail"] := by
  decide

/-- A file `..` is sent to another path than the one that was signed, and a file `thumbnail` has the key of its
thumbnail. -/
theorem harmful_keys :
    ¬ KeysSound "attachments" ([sampleUpload ".." none].foldl AttachmentStore.submit .empty) ∧
      ¬ KeysSound "attachments"
        ([sampleUpload "thumbnail" (some sampleThumbnail)].foldl AttachmentStore.submit .empty) := by
  constructor
  · intro hsound
    have hsent := hsound.sent
    rw [dots_keys] at hsent
    have hpieces := ((removeDotSegments_canonicalUri _ _).1 (hsent _ List.mem_cons_self)).2
    exact hpieces ['.', '.'] (by decide) (.inr rfl)
  · intro hsound
    have hdistinct := hsound.distinct
    rw [thumbnail_keys] at hdistinct
    exact absurd hdistinct (by decide)

end KComms.Attachments
