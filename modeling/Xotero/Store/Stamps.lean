import Xotero.Foundation.Feed
import Xotero.Foundation.Schedule
import Xotero.Store.History

/-!
What edits do to the rows of their library: a row is left alone, stored with
the version of the batch, or removed; a removed object leaves a tombstone of
that version. From one edit to a batch, and from a batch to any run.
-/

namespace Xotero

section Edit
variable {L : LibraryId} {n : Int} {d d' : Database}

theorem mem_objectsWhere {kind : ObjectKind} {p : String → Object → Bool} {key : String}
    {o : Object} : (key, o) ∈ d.objectsWhere L kind p ↔
      d.object.find? (L, kind, key) = some o ∧ p key o = true := by
  simp only [Database.objectsWhere, List.mem_map, Prod.mk.injEq]
  constructor
  · rintro ⟨⟨⟨M, kind', key'⟩, o'⟩, h, rfl, rfl⟩
    obtain ⟨found, h⟩ := Table.mem_select.mp h
    simp only [Bool.and_eq_true, decide_eq_true_eq] at h
    obtain ⟨⟨rfl, rfl⟩, holds⟩ := h
    exact ⟨found, holds⟩
  · rintro ⟨found, holds⟩
    exact ⟨((L, kind, key), o), Table.mem_select.mpr ⟨found, by simpa using holds⟩, rfl, rfl⟩

theorem mem_taggedItems {tag key : String} {o : Object} :
    (key, o) ∈ d.taggedItems L tag ↔
      d.object.find? (L, .item, key) = some o ∧ o.data.tagNames.contains tag = true :=
  mem_objectsWhere

theorem get_withoutTag (data : Value) (tag : String) {name : String} (other : name ≠ "tags") :
    (Database.withoutTag data tag).get name = data.get name := by
  cases data with
  | object ms => simp [Database.withoutTag, Value.set, Members.get_place, other.symm]
  | _ => rfl

/-- The objects after the removal of a tag. -/
theorem find?_removeTag (tag : String) (kind : ObjectKind) (key : String) :
    (Database.edit L n d (.removeTag tag)).object.find? (L, kind, key) =
      (d.object.find? (L, kind, key)).map fun o =>
        if kind = .item ∧ o.data.tagNames.contains tag then
          ⟨n, Database.withoutTag o.data tag⟩ else o := by
  have functional : ∀ x ∈ d.taggedItems L tag, ∀ y ∈ d.taggedItems L tag,
      (L, ObjectKind.item, x.1) = (L, ObjectKind.item, y.1) →
      (⟨n, Database.withoutTag x.2.data tag⟩ : Object) = ⟨n, Database.withoutTag y.2.data tag⟩ := by
    rintro ⟨k, o⟩ hx ⟨k', o'⟩ hy same
    obtain rfl : k = k' := by simpa using same
    have := (mem_taggedItems.mp hx).1.symm.trans (mem_taggedItems.mp hy).1
    rw [Option.some.inj this]
  simp only [Database.edit]
  rw [Table.find?_foldl_put functional]
  cases hf : (d.taggedItems L tag).find? fun x => (L, ObjectKind.item, x.1) = (L, kind, key) with
  | some x =>
      have same := List.find?_some hf
      obtain ⟨rfl, rfl⟩ : ObjectKind.item = kind ∧ x.1 = key := by simpa using same
      obtain ⟨found, tagged⟩ := mem_taggedItems.mp (List.mem_of_find?_eq_some hf)
      simp only [Option.map_some, Option.some_or, found, tagged, and_self, if_true]
  | none =>
      rw [Option.map_none, Option.none_or]
      cases ho : d.object.find? (L, kind, key) with
      | none => rfl
      | some o =>
          rw [Option.map_some, if_neg]
          rintro ⟨rfl, tagged⟩
          simpa using List.find?_eq_none.mp hf (key, o) (mem_taggedItems.mpr ⟨ho, tagged⟩)

/-- The objects of one kind with their tombstones. -/
def objectFeed (L : LibraryId) (kind : ObjectKind) (d : Database) : Feed String Value where
  version := d.version L
  live key := (d.object.find? (L, kind, key)).map fun o => (o.version, o.data)
  dead key := d.deletion.find? (L, .object kind, key)

/-- No live key has a tombstone. -/
def ObjectsDisjoint (L : LibraryId) (kind : ObjectKind) (d : Database) : Prop :=
  ∀ key r, (objectFeed L kind d).live key = some r → (objectFeed L kind d).dead key = none

theorem edit_touched {kind : ObjectKind} (disjoint : ObjectsDisjoint L kind d) (e : Edit)
    (key : String) :
    Feed.Touched n (objectFeed L kind d) (objectFeed L kind (Database.edit L n d e)) key := by
  cases e with
  | store kind' key' provided =>
      by_cases same : kind = kind' ∧ key = key'
      · obtain ⟨rfl, rfl⟩ := same
        exact .stored (d.merged L n kind key provided).toJsonb
          (by simp [objectFeed, Database.edit]) (by simp [objectFeed, Database.edit])
      · have ne : (L, kind, key) ≠ (L, kind', key') := by simpa using same
        have ne' : (L, DeletionKind.object kind, key) ≠ (L, .object kind', key') := by
          simpa using same
        exact .kept (by simp [objectFeed, Database.edit, Table.find?_put_ne _ _ ne])
          (by simp [objectFeed, Database.edit, Table.find?_erase_ne _ ne'])
  | remove kind' key' =>
      by_cases same : kind = kind' ∧ key = key'
      · obtain ⟨rfl, rfl⟩ := same
        exact .removed (by simp [objectFeed, Database.edit]) (by simp [objectFeed, Database.edit])
      · have ne : (L, kind, key) ≠ (L, kind', key') := by simpa using same
        have ne' : (L, DeletionKind.object kind, key) ≠ (L, .object kind', key') := by
          simpa using same
        exact .kept (by simp [objectFeed, Database.edit, Table.find?_erase_ne _ ne])
          (by simp [objectFeed, Database.edit, Table.find?_put_ne _ _ ne'])
  | removeTag tag =>
      have dead : (objectFeed L kind (Database.edit L n d (.removeTag tag))).dead key =
          (objectFeed L kind d).dead key := by
        simp [objectFeed, Database.edit, Table.find?_put]
      have live := find?_removeTag (L := L) (n := n) (d := d) tag kind key
      cases ho : d.object.find? (L, kind, key) with
      | none => exact .kept (by simp [objectFeed, live, ho]) dead
      | some o =>
          by_cases h : kind = .item ∧ o.data.tagNames.contains tag
          · refine .stored (Database.withoutTag o.data tag) ?_ (dead.trans ?_)
            · simp only [objectFeed, live, ho, Option.map_some, if_pos h]
            · exact disjoint key (o.version, o.data) (by simp [objectFeed, ho])
          · refine .kept ?_ dead
            simp only [objectFeed, live, ho, Option.map_some, if_neg h]
  | register key' upload =>
      cases ho : d.object.find? (L, .item, key') with
      | none => exact .kept (by simp [objectFeed, Database.edit, ho]) rfl
      | some o =>
          by_cases same : kind = .item ∧ key = key'
          · obtain ⟨rfl, rfl⟩ := same
            refine .stored (o.data.concat (.object (fileStamp n upload.md5 upload.mtime
              upload.filename))) ?_ ?_
            · simp [objectFeed, Database.edit, ho]
            · exact disjoint key (o.version, o.data) (by simp [objectFeed, ho])
          · have ne : (L, kind, key) ≠ (L, .item, key') := by simpa using same
            exact .kept (by simp [objectFeed, Database.edit, ho, Table.find?_put_ne _ _ ne]) rfl
  | removeSetting key' =>
      exact .kept rfl (by simp [objectFeed, Database.edit, Table.find?_put])
  | storeSetting key' entry => exact .kept rfl rfl
  | storeText item => exact .kept rfl rfl

theorem edits_touched {kind : ObjectKind} (disjoint : ObjectsDisjoint L kind d) (es : List Edit) :
    ∀ key, Feed.Touched n (objectFeed L kind d)
      (objectFeed L kind (Database.edits L n d es)) key := by
  induction es generalizing d with
  | nil => exact fun _ => .kept rfl rfl
  | cons e es ih =>
      intro key
      have first := edit_touched (n := n) disjoint e
      have disjoint' : ObjectsDisjoint L kind (Database.edit L n d e) := fun key =>
        (first key).disjoint (disjoint key)
      exact (first key).trans (ih disjoint' key)

/-! The versions of all rows -/

/-- The row of one key after a change at version `n`. -/
def Stamped {ρ : Type} (version : ρ → Int) (n : Int) (before after : Option ρ) : Prop :=
  after = before ∨ (∃ r, after = some r ∧ version r = n) ∨ after = none

theorem Stamped.trans {ρ : Type} {version : ρ → Int} {a b c : Option ρ}
    (h : Stamped version n a b) (h' : Stamped version n b c) : Stamped version n a c := by
  cases h' with
  | inl same => exact same ▸ h
  | inr changed => exact .inr changed

theorem stamped_put {κ ρ : Type} [DecidableEq κ] {version : ρ → Int} (t : Table κ ρ) (k k' : κ)
    {r : ρ} (h : version r = n) : Stamped version n (t.find? k') ((t.put k r).find? k') := by
  rw [Table.find?_put]
  split
  · exact .inr (.inl ⟨r, rfl, h⟩)
  · exact .inl rfl

theorem stamped_erase {κ ρ : Type} [DecidableEq κ] {version : ρ → Int} (t : Table κ ρ)
    (k k' : κ) : Stamped version n (t.find? k') ((t.erase k).find? k') := by
  rw [Table.find?_erase]
  split
  · exact .inr (.inr rfl)
  · exact .inl rfl

/-- Every row of library `L` after a change at version `n`. -/
structure StampedAt (L : LibraryId) (n : Int) (d d' : Database) : Prop where
  object : ∀ kind key, Stamped Object.version n (d.object.find? (L, kind, key))
    (d'.object.find? (L, kind, key))
  setting : ∀ key, Stamped Setting.version n (d.setting.find? (L, key))
    (d'.setting.find? (L, key))
  deletion : ∀ kind key, Stamped id n (d.deletion.find? (L, kind, key))
    (d'.deletion.find? (L, kind, key))
  file : ∀ key, Stamped File.version n (d.file.find? (L, key)) (d'.file.find? (L, key))
  fulltext : ∀ key, Stamped Fulltext.version n (d.fulltext.find? (L, key))
    (d'.fulltext.find? (L, key))

theorem StampedAt.of_agree (h : LibraryAgree L d d') : StampedAt L n d d' where
  object kind key := .inl (h.find?_object kind key).symm
  setting _ := .inl (Table.find?_eq_of_part_eq h.setting (inLibrary_self L _)).symm
  deletion _ _ := .inl (Table.find?_eq_of_part_eq h.deletion (inLibrary_self L _)).symm
  file key := .inl (h.find?_file key).symm
  fulltext _ := .inl (Table.find?_eq_of_part_eq h.fulltext (inLibrary_self L _)).symm

theorem StampedAt.trans {d'' : Database} (h : StampedAt L n d d') (h' : StampedAt L n d' d'') :
    StampedAt L n d d'' where
  object kind key := (h.object kind key).trans (h'.object kind key)
  setting key := (h.setting key).trans (h'.setting key)
  deletion kind key := (h.deletion kind key).trans (h'.deletion kind key)
  file key := (h.file key).trans (h'.file key)
  fulltext key := (h.fulltext key).trans (h'.fulltext key)

theorem edit_stamped (e : Edit) : StampedAt L n d (Database.edit L n d e) := by
  cases e with
  | store kind key provided =>
      refine ⟨fun _ _ => stamped_put _ _ _ rfl, fun _ => .inl rfl,
        fun _ _ => stamped_erase _ _ _, fun key' => ?_, fun _ => .inl rfl⟩
      simp only [Database.edit]
      split
      · exact .inl rfl
      · exact stamped_erase _ _ _
  | remove kind key =>
      refine ⟨fun _ _ => stamped_erase _ _ _, fun _ => .inl rfl,
        fun _ _ => stamped_put _ _ _ rfl, fun key' => ?_, fun _ => .inl rfl⟩
      simp only [Database.edit]
      split
      · exact stamped_erase _ _ _
      · exact .inl rfl
  | storeSetting key entry =>
      exact ⟨fun _ _ => .inl rfl, fun _ => stamped_put _ _ _ rfl, fun _ _ => .inl rfl,
        fun _ => .inl rfl, fun _ => .inl rfl⟩
  | removeSetting key =>
      exact ⟨fun _ _ => .inl rfl, fun _ => stamped_erase _ _ _, fun _ _ => stamped_put _ _ _ rfl,
        fun _ => .inl rfl, fun _ => .inl rfl⟩
  | removeTag tag =>
      refine ⟨fun kind key => ?_, fun _ => .inl rfl, fun _ _ => stamped_put _ _ _ rfl,
        fun _ => .inl rfl, fun _ => .inl rfl⟩
      rw [find?_removeTag]
      cases d.object.find? (L, kind, key) with
      | none => exact .inl rfl
      | some o =>
          rw [Option.map_some]
          split
          · exact .inr (.inl ⟨_, rfl, rfl⟩)
          · exact .inl rfl
  | storeText item =>
      exact ⟨fun _ _ => .inl rfl, fun _ => .inl rfl, fun _ _ => .inl rfl, fun _ => .inl rfl,
        fun _ => stamped_put _ _ _ rfl⟩
  | register key upload =>
      refine ⟨fun kind key' => ?_, fun _ => .inl rfl, fun _ _ => .inl rfl,
        fun _ => stamped_put _ _ _ rfl, fun _ => .inl rfl⟩
      simp only [Database.edit]
      split
      · exact stamped_put _ _ _ rfl
      · exact .inl rfl

theorem edits_stamped (es : List Edit) : StampedAt L n d (Database.edits L n d es) := by
  induction es generalizing d with
  | nil => exact .of_agree (.refl L d)
  | cons e es ih => exact (edit_stamped e).trans ih

/-! The library row -/

theorem edit_library (e : Edit) : (Database.edit L n d e).library = d.library := by
  cases e <;> rfl

theorem edits_library (es : List Edit) : (Database.edits L n d es).library = d.library := by
  induction es generalizing d with
  | nil => rfl
  | cons e es ih => exact ih.trans (edit_library e)

theorem setVersion_version (found : (d.library.find? L).isSome) :
    (d.setVersion L n).version L = n := by
  obtain ⟨row, hr⟩ := Option.isSome_iff_exists.mp found
  simp [Database.setVersion, Database.version, hr]

theorem edits_version (found : (d.library.find? L).isSome) (n : Int) (es : List Edit) :
    (Database.edits L n (d.setVersion L n) es).version L = n := by
  rw [Database.version, edits_library]
  exact setVersion_version found

/-- The version is set in the library row alone. -/
theorem stampedAt_setVersion {m : Int} : StampedAt L m d (d.setVersion L n) := by
  unfold Database.setVersion
  split
  · exact ⟨fun _ _ => .inl rfl, fun _ => .inl rfl, fun _ _ => .inl rfl, fun _ => .inl rfl,
      fun _ => .inl rfl⟩
  · exact .of_agree (.refl L d)

end Edit

/-! Library steps -/

section Step
variable {L : LibraryId} {d d' : Database}

theorem objectFeed_congr (h : LibraryAgree L d d') (kind : ObjectKind) :
    objectFeed L kind d = objectFeed L kind d' := by
  have dead (key : String) : d.deletion.find? (L, .object kind, key) =
      d'.deletion.find? (L, .object kind, key) :=
    Table.find?_eq_of_part_eq h.deletion (inLibrary_self L _)
  simp only [objectFeed, h.version, h.find?_object, dead]

theorem objectFeed_setVersion {n : Int} (kind : ObjectKind) (key : String) :
    (objectFeed L kind (d.setVersion L n)).live key = (objectFeed L kind d).live key ∧
      (objectFeed L kind (d.setVersion L n)).dead key = (objectFeed L kind d).dead key := by
  unfold Database.setVersion
  split <;> exact ⟨rfl, rfl⟩

theorem LibraryStep.advance (h : LibraryStep L d d') {kind : ObjectKind}
    (disjoint : ObjectsDisjoint L kind d) :
    Feed.Advance (objectFeed L kind d) (objectFeed L kind d') := by
  cases h with
  | apart same => exact objectFeed_congr same kind ▸ .refl _
  | edited es nonempty found after =>
      have version : d'.version L = d.version L + 1 :=
        after.version.symm.trans (edits_version found _ es)
      have disjoint' : ObjectsDisjoint L kind (d.setVersion L (d.version L + 1)) := by
        intro key r hr
        obtain ⟨live, dead⟩ := objectFeed_setVersion (L := L) (d := d) kind key
        exact dead.trans (disjoint key r (live ▸ hr))
      refine ⟨?_, fun key => .inr ⟨d'.version L, ?_, Int.le_refl _, ?_⟩⟩
      · simp only [objectFeed]
        omega
      · simp only [objectFeed]
        omega
      · obtain ⟨live, dead⟩ :=
          objectFeed_setVersion (L := L) (n := d.version L + 1) (d := d) kind key
        have first : Feed.Touched (d'.version L) (objectFeed L kind d)
          (objectFeed L kind (d.setVersion L (d.version L + 1))) key := .kept live dead
        rw [version, ← objectFeed_congr after kind]
        rw [version] at first
        exact first.trans (edits_touched disjoint' es key)

/-- The object feed of a library, over any number of changes. -/
theorem advance_of_steps (h : Relation.ReflTransGen (LibraryStep L) d d') {kind : ObjectKind}
    (ok : Feed.Ok (objectFeed L kind d)) :
    Feed.Advance (objectFeed L kind d) (objectFeed L kind d') := by
  induction h with
  | refl => exact .refl _
  | tail _ step ih =>
      have ok' := ok.advance ih
      exact ih.trans (step.advance fun key r => ok'.disjoint)

theorem LibraryStep.version_eq (h : LibraryStep L d d') :
    d'.version L = d.version L + 1 ∧ StampedAt L (d.version L + 1) d d' ∨ LibraryAgree L d d' := by
  cases h with
  | edited es nonempty found after =>
      refine .inl ⟨after.version.symm.trans (edits_version found _ es), ?_⟩
      exact (stampedAt_setVersion.trans (edits_stamped es)).trans (.of_agree after)
  | apart same => exact .inr same

theorem LibraryStep.version_le (h : LibraryStep L d d') : d.version L ≤ d'.version L := by
  cases h.version_eq with
  | inl change => omega
  | inr same => exact Int.le_of_eq same.version

/-- Every row of the library has a version not above `n`. -/
structure BoundedBy (L : LibraryId) (n : Int) (d : Database) : Prop where
  object : ∀ kind key o, d.object.find? (L, kind, key) = some o → o.version ≤ n
  setting : ∀ key s, d.setting.find? (L, key) = some s → s.version ≤ n
  deletion : ∀ kind key v, d.deletion.find? (L, kind, key) = some v → v ≤ n
  file : ∀ key f, d.file.find? (L, key) = some f → f.version ≤ n
  fulltext : ∀ key t, d.fulltext.find? (L, key) = some t → t.version ≤ n

theorem BoundedBy.mono {n m : Int} (h : BoundedBy L n d) (le : n ≤ m) : BoundedBy L m d where
  object kind key o ho := Int.le_trans (h.object kind key o ho) le
  setting key s hs := Int.le_trans (h.setting key s hs) le
  deletion kind key v hv := Int.le_trans (h.deletion kind key v hv) le
  file key f hf := Int.le_trans (h.file key f hf) le
  fulltext key t ht := Int.le_trans (h.fulltext key t ht) le

/-- No row is ahead of its library. -/
abbrev Bounded (L : LibraryId) (d : Database) : Prop := BoundedBy L (d.version L) d

/-- A library that was created and not written to. -/
structure Fresh (L : LibraryId) (d : Database) : Prop where
  object : ∀ kind key, d.object.find? (L, kind, key) = none
  setting : ∀ key, d.setting.find? (L, key) = none
  deletion : ∀ kind key, d.deletion.find? (L, kind, key) = none
  file : ∀ key, d.file.find? (L, key) = none
  fulltext : ∀ key, d.fulltext.find? (L, key) = none

theorem Fresh.bounded (h : Fresh L d) : Bounded L d where
  object kind key o ho := by simp [h.object] at ho
  setting key s hs := by simp [h.setting] at hs
  deletion kind key v hv := by simp [h.deletion] at hv
  file key f hf := by simp [h.file] at hf
  fulltext key t ht := by simp [h.fulltext] at ht

theorem Fresh.feed (h : Fresh L d) (kind : ObjectKind) : Feed.Ok (objectFeed L kind d) where
  live_le hk := by simp [objectFeed, h.object] at hk
  dead_le hk := by simp [objectFeed, h.deletion] at hk
  disjoint hk := by simp [objectFeed, h.object] at hk

theorem Stamped.bounded {ρ : Type} {version : ρ → Int} {n m : Int} {a b : Option ρ}
    (h : Stamped version n a b) (le : m ≤ n) (old : ∀ r, a = some r → version r ≤ m) :
    ∀ r, b = some r → version r ≤ n := by
  intro r hr
  cases h with
  | inl same =>
      have := old r (same ▸ hr)
      omega
  | inr changed =>
      cases changed with
      | inl stored =>
          obtain ⟨r', hr', rfl⟩ := stored
          rw [hr] at hr'
          exact Option.some.inj hr' ▸ Int.le_refl _
      | inr removed => simp [removed] at hr

theorem LibraryStep.bounded (h : LibraryStep L d d') (b : Bounded L d) : Bounded L d' := by
  have le := h.version_le
  have stamped : StampedAt L (d'.version L) d d' := by
    cases h.version_eq with
    | inl change => exact change.1 ▸ change.2
    | inr same => exact .of_agree same
  exact ⟨fun kind key => (stamped.object kind key).bounded le (b.object kind key),
    fun key => (stamped.setting key).bounded le (b.setting key),
    fun kind key => (stamped.deletion kind key).bounded le (b.deletion kind key),
    fun key => (stamped.file key).bounded le (b.file key),
    fun key => (stamped.fulltext key).bounded le (b.fulltext key)⟩

theorem bounded_of_steps (h : Relation.ReflTransGen (LibraryStep L) d d') (b : Bounded L d) :
    Bounded L d' := by
  induction h with
  | refl => exact b
  | tail _ step ih => exact step.bounded ih

theorem version_le_of_steps (h : Relation.ReflTransGen (LibraryStep L) d d') :
    d.version L ≤ d'.version L := by
  induction h with
  | refl => exact Int.le_refl _
  | tail _ step ih => exact Int.le_trans ih step.version_le

end Step

/-! A new library -/

def newLibrary : LibraryId := ⟨1, Int.zero_lt_one⟩

theorem otherLibrary_positive : (0 : Int) < 2 := by decide

def otherLibrary : LibraryId := ⟨2, otherLibrary_positive⟩

def newDatabase : Database :=
  { Database.empty with library := (∅ : Table LibraryId Library).put newLibrary ⟨0, .personal⟩ }

theorem newDatabase_valid : newDatabase.Valid := by
  constructor <;> decide

theorem newLibrary_fresh : Fresh newLibrary newDatabase := by
  constructor <;> intros <;> rfl

def plainDigests : Digests := ⟨fun _ => [], fun _ => ""⟩

def plainConfig : Config := ⟨[], ⟨1, by decide⟩, ""⟩

abbrev plainServer : System Db := server plainDigests plainConfig

/-- The owner of the new library. -/
def ownerAccess : LibraryAccess := ⟨newLibrary, none, ⟨true, true, true, true⟩, true, true⟩

def noteRequest : Request :=
  .guarded newLibrary (some 0) (.write .item
    [.object [("key", .string "TEXT2345"), ("itemType", .string "note")]] true fun _ _ => 0)

/-- The key of the note in a request that names it alone. -/
theorem splitOn_noteKey : "TEXT2345".splitOn "," = ["TEXT2345"] := by
  rw [String.splitOn, if_neg (by decide)]
  iterate 8 rw [String.splitOnAux, if_neg (by decide), if_neg (by decide)]
  rw [String.splitOnAux, if_pos (by decide)]
  decide

/-- One client stores one note in the new library. -/
theorem noteRequest_runs : ∃ events d', Session.Run
    (Session.idle newDatabase : Session plainServer Unit) events (Session.idle d') ∧
    (∀ r a d₁ d₂, .commit r a d₁ d₂ ∈ events → r = noteRequest) ∧
    (d'.object.find? (newLibrary, .item, "TEXT2345")).map Object.version = some 1 := by
  obtain ⟨es, run, stmts⟩ := Session.Run.alone (S := plainServer) (s := newDatabase)
    (r := noteRequest) () 6 rfl rfl (by constructor <;> decide)
  refine ⟨_, _, run, fun r a' d₁ d₂ he => ?_, by decide⟩
  cases List.mem_append.mp he with
  | inl old =>
      obtain ⟨q, v, same⟩ := stmts _ old
      cases same
  | inr new =>
      cases List.mem_singleton.mp new
      rfl

end Xotero
