import Xotero.Json.Normal
import Xotero.Store.Batches
import Xotero.Store.Stamps

/-!
What the schema asks of the rows that are written: texts and jsonb without the
character U+0000, references to rows that exist, and the checks of an inserted
pending upload.
-/

namespace Xotero

/-! ### Values without U+0000 -/

namespace Value

theorem membersStorable_iff {ms : Members} :
    membersStorable ms = true ↔ ∀ m ∈ ms, Xotero.storable m.1 = true ∧ m.2.storable = true := by
  induction ms with
  | nil => simp [membersStorable]
  | cons m ms ih =>
      obtain ⟨n, v⟩ := m
      simp only [membersStorable, Bool.and_eq_true, ih, List.forall_mem_cons]

theorem storable_place {ms : Members} (h : membersStorable ms = true) {name : String} {v : Value}
    (text : Xotero.storable name = true) (value : v.storable = true) :
    membersStorable (Members.place name v ms) = true := by
  rw [membersStorable_iff] at h ⊢
  intro m mem
  rcases Members.mem_place mem with rfl | old
  · exact ⟨text, value⟩
  · exact h m old

mutual

theorem storable_toJsonb : ∀ v : Value, v.storable = true → v.toJsonb.storable = true
  | .array vs, h => allStorable_toJsonb vs h
  | .object ms, h => membersStorable_toJsonb ms h
  | .null, _ | .bool _, _ | .number _, _ => rfl
  | .string _, h => h

theorem allStorable_toJsonb : ∀ vs : List Value, allStorable vs = true →
    allStorable (toJsonbAll vs) = true
  | [], _ => rfl
  | v :: vs, h => by
      obtain ⟨first, rest⟩ := Bool.and_eq_true_iff.mp h
      exact Bool.and_eq_true_iff.mpr ⟨storable_toJsonb v first, allStorable_toJsonb vs rest⟩

theorem membersStorable_toJsonb : ∀ ms : Members, membersStorable ms = true →
    membersStorable (toJsonbMembers ms) = true
  | [], _ => rfl
  | (n, v) :: ms, h => by
      obtain ⟨first, rest⟩ := Bool.and_eq_true_iff.mp h
      obtain ⟨name, value⟩ := Bool.and_eq_true_iff.mp first
      exact storable_place (membersStorable_toJsonb ms rest) name (storable_toJsonb v value)

end

end Value

theorem Members.Once.storable_iff {ms : Members} (once : ms.Once) :
    Value.membersStorable ms = true ↔
      ∀ name v, ms.get name = some v → storable name = true ∧ v.storable = true := by
  rw [Value.membersStorable_iff]
  exact ⟨fun h name v got => h (name, v) (once.get_eq_some.mp got),
    fun h m mem => h m.1 m.2 (once.get_eq_some.mpr mem)⟩

/-- What PostgreSQL guarantees of a column of its type. -/
structure Database.Typed (d : Database) : Prop where
  object : ∀ L kind key v, d.stored L kind key = some v → v.Stored ∧ v.storable = true
  file : ∀ k row, d.file.find? k = some row → storable row.md5 = true

section Written
variable {L : LibraryId} {kind : ObjectKind} {n : Int} {d : Database}

theorem typed_setVersion {L : LibraryId} {n : Int} (typed : d.Typed) :
    (d.setVersion L n).Typed where
  object M kind key v found := typed.object M kind key v (by
    simpa only [Database.stored, Database.setVersion_object] using found)
  file k row found := typed.file k row (by rwa [Database.setVersion_file] at found)

theorem typed_store (typed : d.Typed) {e : String × Value}
    (texts : (d.merged L n kind e.1 e.2).storable = true) :
    (d.edit L n (.store kind e.1 e.2)).Typed where
  object M kind' key v found := by
    simp only [Database.stored, Database.edit, Table.find?_put] at found
    split at found
    · obtain rfl := Option.some.inj found
      exact ⟨Value.stored_toJsonb _, Value.storable_toJsonb _ texts⟩
    · exact typed.object M kind' key v found
  file k row found := by
    simp only [Database.edit] at found
    split at found
    · exact typed.file k row found
    · rw [Table.find?_erase] at found
      split at found
      · cases found
      · exact typed.file k row found

/-! ### The constraints of what is written -/

theorem kind_setVersion (M : LibraryId) :
    ((d.setVersion L n).library.find? M).map Library.kind =
      (d.library.find? M).map Library.kind := by
  unfold Database.setVersion
  cases found : d.library.find? L with
  | none => rfl
  | some row =>
      rw [Table.find?_put]
      split
      · rename_i same
        rw [same, found]
        rfl
      · rfl

theorem isSome_setVersion (M : LibraryId) :
    ((d.setVersion L n).library.find? M).isSome = (d.library.find? M).isSome := by
  simpa using congrArg Option.isSome (kind_setVersion (d := d) (L := L) (n := n) M)

theorem valid_setVersion (valid : d.Valid) : (d.setVersion L n).Valid := by
  obtain ⟨library, same⟩ : ∃ library, d.setVersion L n = { d with library := library } := by
    unfold Database.setVersion
    cases d.library.find? L <;> exact ⟨_, rfl⟩
  have there (M : LibraryId) : (library.find? M).isSome = (d.library.find? M).isSome := by
    simpa only [same] using isSome_setVersion (d := d) (L := L) (n := n) M
  have kind (M : LibraryId) : (library.find? M).map Library.kind =
      (d.library.find? M).map Library.kind := by
    simpa only [same] using kind_setVersion (d := d) (L := L) (n := n) M
  rw [same]
  exact { valid with
    object_library := fun e mem => (there _).trans (valid.object_library e mem)
    setting_library := fun e mem => (there _).trans (valid.setting_library e mem)
    deletion_library := fun e mem => (there _).trans (valid.deletion_library e mem)
    file_library := fun e mem => (there _).trans (valid.file_library e mem)
    fulltext_library := fun e mem => (there _).trans (valid.fulltext_library e mem)
    pending_uploads_library := fun e mem => (there _).trans (valid.pending_uploads_library e mem)
    personal_libraries_library := fun e mem =>
      (kind _).trans (valid.personal_libraries_library e mem)
    groups_library := fun e mem => (kind _).trans (valid.groups_library e mem) }

theorem valid_store (valid : d.Valid) (known : (d.library.find? L).isSome) {e : String × Value}
    (text : storable e.1 = true) : (d.edit L n (.store kind e.1 e.2)).Valid :=
  { valid with
    object_key_text := Table.forall_put valid.object_key_text text
    object_library := Table.forall_put valid.object_library known
    deletion_library := Table.forall_erase valid.deletion_library
    file_library := by
      simp only [Database.edit]
      split
      · exact valid.file_library
      · exact Table.forall_erase valid.file_library
    file_blob_key_nonempty := by
      simp only [Database.edit]
      split
      · exact valid.file_blob_key_nonempty
      · exact Table.forall_erase valid.file_blob_key_nonempty }

theorem valid_storeSetting (valid : d.Valid) (known : (d.library.find? L).isSome) (key : String)
    (entry : Value) : (d.edit L n (.storeSetting key entry)).Valid :=
  { valid with setting_library := Table.forall_put valid.setting_library known }

theorem valid_storeText (valid : d.Valid) (known : (d.library.find? L).isSome) (item : Value) :
    (d.edit L n (.storeText item)).Valid :=
  { valid with fulltext_library := Table.forall_put valid.fulltext_library known }

/-- Edits that keep the constraints one by one keep them together. -/
theorem valid_edits {es : List Edit} (valid : d.Valid) (known : (d.library.find? L).isSome)
    (each : ∀ e ∈ es, ∀ d : Database, d.Valid → (d.library.find? L).isSome →
      (d.edit L n e).Valid) : (d.edits L n es).Valid := by
  induction es generalizing d with
  | nil => exact valid
  | cons e es ih =>
      exact ih (each e (by simp) d valid known) (by rwa [edit_library])
        fun e mem => each e (List.mem_cons_of_mem _ mem)

end Written

/-- A row with a new token and candidate keeps the constraints. -/
theorem valid_createPendingUpload {d : Database} {token : Digest} {upload : PendingUpload}
    {now : Int} (valid : d.Valid) (known : (d.library.find? upload.libraryId).isSome)
    (group : ∀ g ∈ upload.groupId, (d.groups.find? g).isSome)
    (user : ∀ u ∈ upload.bootstrapUserId, (d.users.find? u).isSome)
    (length : token.length = 32) (checked : upload.checked = true)
    (apart : ∀ e ∈ d.pendingUploads.rows, e.2.upload.blobKey ≠ upload.blobKey) :
    (d.apply (.pendingUpload token
      (some ⟨{ upload with state := .authorized }, now, now + hour, none⟩))).Valid := by
  simp only [PendingUpload.checked, Bool.and_eq_true, decide_eq_true_eq] at checked
  obtain ⟨⟨⟨⟨-, item⟩, blob⟩, hash⟩, size⟩ := checked
  exact { valid with
    pending_uploads_library := Table.forall_put valid.pending_uploads_library known
    pending_uploads_group := Table.forall_put valid.pending_uploads_group group
    pending_uploads_bootstrap_user := Table.forall_put valid.pending_uploads_bootstrap_user user
    pending_uploads_blob_key_unique := by
      refine Table.forall_put (fun e mem => Table.forall_put
        (valid.pending_uploads_blob_key_unique e mem) fun same => ?_)
        (Table.forall_put (fun e mem same => ?_) fun _ => rfl)
      · exact absurd same (apart e mem)
      · exact absurd same.symm (apart e mem)
    pending_uploads_token_hash_length :=
      Table.forall_put valid.pending_uploads_token_hash_length length
    pending_uploads_authorizer_key_hash_length :=
      Table.forall_put valid.pending_uploads_authorizer_key_hash_length hash
    pending_uploads_item_key_nonempty :=
      Table.forall_put valid.pending_uploads_item_key_nonempty item
    pending_uploads_blob_key_nonempty :=
      Table.forall_put valid.pending_uploads_blob_key_nonempty blob
    pending_uploads_filesize_nonnegative :=
      Table.forall_put valid.pending_uploads_filesize_nonnegative size
    pending_uploads_expiry_valid := Table.forall_put valid.pending_uploads_expiry_valid
      (show now < now + hour by unfold hour minute; omega) }

theorem newDatabase_typed : newDatabase.Typed where
  object _ _ _ _ := nofun
  file _ _ := nofun

end Xotero
