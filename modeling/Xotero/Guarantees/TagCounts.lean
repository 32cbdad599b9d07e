import Mathlib.Data.Set.Card
import Xotero.Guarantees.Notes
import Xotero.Store.Visible

/-!
The numbers of the tag listing. It counts the entries of the tag arrays, and an
item that names a tag in two entries of its own array is counted twice.
-/

namespace Xotero

namespace Value

/-- The tag that an entry of `tags` names. -/
def namedTag (entry : Value) : Option String :=
  match entry with
  | .object _ => entry.getText "tag"
  | _ => none

def Carries (data : Value) (tag : String) : Prop :=
  ∃ entry ∈ data.elements "tags", entry.namedTag = some tag

/-- No two entries of `tags` name the same tag. -/
def TagsOnce (data : Value) : Prop :=
  (data.elements "tags").Pairwise fun entry entry' =>
    ∀ tag, entry.namedTag = some tag → entry'.namedTag ≠ some tag

theorem tagNames_eq (data : Value) :
    data.tagNames = (data.elements "tags").filterMap namedTag := by
  refine List.filterMap_congr fun entry _ => ?_
  cases entry <;> rfl

theorem mem_tagNames {data : Value} {tag : String} : tag ∈ data.tagNames ↔ data.Carries tag := by
  rw [tagNames_eq, List.mem_filterMap, Carries]

theorem nodup_tagNames {data : Value} : data.tagNames.Nodup ↔ data.TagsOnce := by
  rw [tagNames_eq, List.Nodup, List.pairwise_filterMap]
  refine List.Pairwise.iff fun entry entry' => ?_
  exact ⟨fun apart tag here there => apart tag here tag there rfl,
    fun apart tag here tag' there same => apart tag here (same ▸ there)⟩

end Value

/-- The items outside the trash that carry a tag. -/
def Database.carriers (d : Database) (L : LibraryId) (tag : String) : Set String :=
  {key | ∃ o, d.object.find? (L, .item, key) = some o ∧ o.data.deleted = false ∧
    o.data.Carries tag}

/-- A row of the listing. -/
def tagRow (row : String × Nat) : Value :=
  .object [("tag", .string row.1), ("numItems", .ofInt row.2)]

/-- The listing names each tag in use once, with the number of items that carry it. -/
def Database.CountsItems (d : Database) (L : LibraryId) (listing : Value) : Prop :=
  ∃ rows : List (String × Nat), listing = .array (rows.map tagRow) ∧
    (rows.map Prod.fst).Nodup ∧
    (∀ tag, tag ∈ rows.map Prod.fst ↔ (d.carriers L tag).Nonempty) ∧
    ∀ row ∈ rows, row.2 = (d.carriers L row.1).ncard

/-! ### Counting -/

section Counting
variable {α β : Type} [DecidableEq β] (f : α → List β) (b : β)

theorem countP_mem_le_count_flatMap (l : List α) :
    l.countP (fun a => (f a).contains b) ≤ (l.flatMap f).count b := by
  induction l with
  | nil => simp
  | cons a l ih =>
      rw [List.flatMap_cons, List.count_append, List.countP_cons]
      split
      · rename_i mem
        have one := List.one_le_count_iff.mpr (List.contains_iff_mem.mp mem)
        omega
      · omega

/-- Lists without repetition contribute their elements once each, and only these do. -/
theorem count_flatMap_eq_countP_iff (l : List α) :
    (l.flatMap f).count b = l.countP (fun a => (f a).contains b) ↔
      ∀ a ∈ l, (f a).count b ≤ 1 := by
  induction l with
  | nil => simp
  | cons a l ih =>
      have rest := countP_mem_le_count_flatMap f b l
      rw [List.flatMap_cons, List.count_append, List.countP_cons, List.forall_mem_cons, ← ih]
      by_cases mem : b ∈ f a
      · have one := List.one_le_count_iff.mpr mem
        rw [if_pos (List.contains_iff_mem.mpr mem)]
        omega
      · rw [if_neg (by simpa using mem), List.count_eq_zero_of_not_mem mem]
        omega

end Counting

section Listing
variable {d : Database} {L : LibraryId} {tag : String}

theorem mem_usedTags : tag ∈ d.usedTags L ↔ (d.carriers L tag).Nonempty := by
  simp only [Database.usedTags, List.mem_flatMap, Prod.exists, mem_objectsWhere, Value.mem_tagNames]
  constructor
  · rintro ⟨key, o, ⟨found, live⟩, carries⟩
    exact ⟨key, o, found, by simpa using live, carries⟩
  · rintro ⟨key, o, found, live, carries⟩
    exact ⟨key, o, ⟨found, by simpa using live⟩, carries⟩

/-- The rows whose array contains the tag are the items that carry it. -/
theorem countP_carriers (d : Database) (L : LibraryId) (tag : String) :
    (d.objectsWhere L .item fun _ o => !o.data.deleted).countP
      (fun e => e.2.data.tagNames.contains tag) = (d.carriers L tag).ncard := by
  have keys := ((nodup_objectsWhere d L .item fun _ o => !o.data.deleted).sublist
    ((List.filter_sublist (p := fun e => e.2.data.tagNames.contains tag)).map Prod.fst))
  have same : d.carriers L tag = ((((d.objectsWhere L .item fun _ o => !o.data.deleted).filter
      fun e => e.2.data.tagNames.contains tag).map Prod.fst).toFinset : Set String) := by
    ext key
    simp only [Database.carriers, Set.mem_ofPred_eq, List.coe_toFinset, List.mem_map,
      List.mem_filter, Prod.exists, mem_objectsWhere, List.contains_iff_mem, Value.mem_tagNames]
    constructor
    · rintro ⟨o, found, live, carries⟩
      exact ⟨key, o, ⟨⟨found, by simpa using live⟩, carries⟩, rfl⟩
    · rintro ⟨key', o, ⟨⟨found, live⟩, carries⟩, rfl⟩
      exact ⟨o, found, by simpa using live, carries⟩
  rw [same, Set.ncard_coe_finset, List.toFinset_card_of_nodup keys, List.length_map,
    List.countP_eq_length_filter]

/-- What the statement returns. -/
theorem tags_run (locale : Locale) (L : LibraryId) (d : Database) :
    (tags locale L).run d = some (d, .array ((Sql.eval (.tags locale L) d).map tagRow)) := rfl

theorem perm_tagNames (locale : Locale) : ((Sql.eval (.tags locale L) d).map Prod.fst).Perm
    (d.usedTags L).dedup := by
  rw [Sql.eval, List.map_map]
  exact (List.Perm.of_eq (List.map_id _)).trans (List.perm_insertionSort _ _)

theorem tagRow_injective : Function.Injective tagRow := by
  rintro ⟨tag, n⟩ ⟨tag', n'⟩ same
  simpa [tagRow, Value.ofInt] using same

theorem mem_tags {locale : Locale} {n : Nat} : (tag, n) ∈ Sql.eval (.tags locale L) d ↔
    tag ∈ d.usedTags L ∧ n = (d.usedTags L).count tag := by
  rw [Sql.eval, List.mem_map]
  constructor
  · rintro ⟨tag', mem, same⟩
    obtain ⟨rfl, rfl⟩ := Prod.mk.inj same
    exact ⟨List.mem_dedup.mp ((List.mem_insertionSort _).mp mem), rfl⟩
  · rintro ⟨mem, rfl⟩
    exact ⟨tag, (List.mem_insertionSort _).mpr (List.mem_dedup.mpr mem), rfl⟩

/-- The number of a tag is right when no item outside the trash names it twice. -/
theorem count_usedTags_iff : (d.usedTags L).count tag = (d.carriers L tag).ncard ↔
    ∀ key o, d.object.find? (L, .item, key) = some o → o.data.deleted = false →
      o.data.tagNames.count tag ≤ 1 := by
  rw [Database.usedTags, ← countP_carriers,
    count_flatMap_eq_countP_iff (fun e : String × Object => e.2.data.tagNames) tag]
  simp only [Prod.forall, mem_objectsWhere, Bool.not_eq_true', and_imp]

end Listing

/-- The numbers are right for the libraries whose items outside the trash name each of
their tags in one entry, and for no others. -/
theorem tags_count_iff (locale : Locale) (L : LibraryId) (d : Database) :
    (∃ listing, (tags locale L).run d = some (d, listing) ∧ d.CountsItems L listing) ↔
      ∀ key o, d.object.find? (L, .item, key) = some o → o.data.deleted = false →
        o.data.TagsOnce := by
  constructor
  · rintro ⟨listing, ran, rows, rfl, -, -, counts⟩ key o found live
    have listed : (Sql.eval (.tags locale L) d).map tagRow = rows.map tagRow :=
      Value.array.inj (congrArg Prod.snd (Option.some.inj ((tags_run locale L d).symm.trans ran)))
    obtain rfl := List.map_injective_iff.mpr tagRow_injective listed
    refine Value.nodup_tagNames.mp (List.nodup_iff_count_le_one.mpr fun tag => ?_)
    by_cases carries : tag ∈ o.data.tagNames
    · have used : tag ∈ d.usedTags L :=
        mem_usedTags.mpr ⟨key, o, found, live, Value.mem_tagNames.mp carries⟩
      exact count_usedTags_iff.mp (counts _ (mem_tags.mpr ⟨used, rfl⟩)) key o found live
    · rw [List.count_eq_zero_of_not_mem carries]
      exact Nat.zero_le 1
  · intro once
    refine ⟨_, tags_run locale L d, _, rfl, ?_, fun tag => ?_, ?_⟩
    · exact (perm_tagNames locale).nodup_iff.mpr (List.nodup_dedup _)
    · rw [(perm_tagNames locale).mem_iff, List.mem_dedup, mem_usedTags]
    · rintro ⟨tag, n⟩ mem
      obtain ⟨-, rfl⟩ := mem_tags.mp mem
      refine count_usedTags_iff.mpr fun key o found live => ?_
      exact List.nodup_iff_count_le_one.mp (Value.nodup_tagNames.mpr (once key o found live)) tag

/-- A book with the tag "loan" in two entries. -/
def twiceTaggedRequest : Request :=
  .guarded newLibrary (some 0) (.write .item
    [.object [("key", .string "ITEM2345"), ("itemType", .string "book"),
      ("tags", .array [.object [("tag", .string "loan")],
        .object [("tag", .string "loan"), ("type", .ofInt 1)]])]] true fun _ _ => 0)

def twiceTaggedDatabase : Database :=
  (twiceTaggedRequest.alone plainDigests plainConfig newDatabase).2

/-- One item, and the listing says two. -/
theorem tags_count_twice :
    (tags plainLocale newLibrary).run twiceTaggedDatabase =
      some (twiceTaggedDatabase, .array [tagRow ("loan", 2)]) ∧
    (twiceTaggedDatabase.carriers newLibrary "loan").ncard = 1 ∧
    ¬ ∃ listing, (tags plainLocale newLibrary).run twiceTaggedDatabase =
      some (twiceTaggedDatabase, listing) ∧ twiceTaggedDatabase.CountsItems newLibrary listing := by
  have one : (twiceTaggedDatabase.carriers newLibrary "loan").ncard = 1 := by
    rw [← countP_carriers]
    decide
  refine ⟨rfl, one, ?_⟩
  rintro ⟨listing, ran, rows, rfl, -, -, counts⟩
  have listed : [("loan", 2)].map tagRow = rows.map tagRow :=
    Value.array.inj (congrArg Prod.snd (Option.some.inj ran))
  obtain rfl := List.map_injective_iff.mpr tagRow_injective listed
  have two := counts ("loan", 2) (by simp)
  rw [one] at two
  cases two

end Xotero
