import Xotero.Guarantees.Concurrency
import Xotero.Guarantees.TagCounts

/-!
What the deletion of tags leaves of a library. The statement finds the items by
the extracted tag names and strips the raw array; an entry is stripped exactly when
it is what makes the item match, so no tag survives and no other entry is lost.
-/

namespace Xotero

/-- The entry names none of the tags. -/
def Value.spared (tags : List String) (entry : Value) : Bool :=
  tags.all fun tag => entry.namedTag ≠ some tag

/-- What the deletion of `tags` at version `n` makes of an item. -/
structure Stripped (n : Int) (tags : List String) (o o' : Object) : Prop where
  entries : o'.data.elements "tags" = (o.data.elements "tags").filter (Value.spared tags)
  fields : ∀ name, name ≠ "tags" → o'.data.get name = o.data.get name
  touched : (∃ tag ∈ tags, o.data.Carries tag) →
    o'.version = n ∧ o'.data.get "tags" = some (.array (o'.data.elements "tags"))
  untouched : (∀ tag ∈ tags, ¬ o.data.Carries tag) → o' = o

/-- What it makes of the database. -/
structure TagsRemoved (L : LibraryId) (tags : List String) (n : Int) (d d' : Database) : Prop where
  gone : ∀ key o, d'.object.find? (L, .item, key) = some o → ∀ tag ∈ tags, ¬ o.data.Carries tag
  items : ∀ key o, d.object.find? (L, .item, key) = some o →
    ∃ o', d'.object.find? (L, .item, key) = some o' ∧ Stripped n tags o o'
  others : ∀ k, d.object.find? k = none ∨ k.1 ≠ L ∨ k.2.1 ≠ .item →
    d'.object.find? k = d.object.find? k
  logged : ∀ tag ∈ tags, d'.deletion.find? (L, .tag, tag) = some n
  log : ∀ k, (∀ tag ∈ tags, k ≠ (L, .tag, tag)) → d'.deletion.find? k = d.deletion.find? k
  version : d'.library.find? L = (d.library.find? L).map ({ · with version := n })
  libraries : ∀ M, M ≠ L → d'.library.find? M = d.library.find? M
  rest : d' = { d with library := d'.library, object := d'.object, deletion := d'.deletion }

/-! ### One item -/

section Item
variable {data : Value} {tag : String} {tags : List String} {n : Int} {o o' : Object}

theorem getText_tag_eq (entry : Value) : entry.getText "tag" = entry.namedTag := by
  cases entry <;> rfl

theorem Value.Carries.get (carries : data.Carries tag) :
    ∃ ms, data = .object ms ∧ data.get "tags" = some (.array (data.elements "tags")) := by
  obtain ⟨entry, mem, -⟩ := carries
  unfold elements at mem ⊢
  split at mem
  · rename_i vs tagged
    cases data with
    | object ms => exact ⟨ms, rfl, by simp only [tagged]⟩
    | _ => cases tagged
  · cases mem

/-- The raw array without the entries of a tag. -/
theorem get_tags_withoutTag (carries : data.Carries tag) :
    (Database.withoutTag data tag).get "tags" =
      some (.array ((data.elements "tags").filter (Value.spared [tag]))) := by
  obtain ⟨ms, rfl, -⟩ := carries.get
  simp only [Database.withoutTag, Value.set, Value.get_object, Members.get_place, if_true]
  congr 3
  funext entry
  simp [Value.spared, getText_tag_eq]

theorem elements_of_get {v : List Value} {name : String} (h : data.get name = some (.array v)) :
    data.elements name = v := by
  simp only [Value.elements, h]

/-- A filter that no entry fails. -/
theorem filter_spared_of_not_carries (free : ∀ tag ∈ tags, ¬ data.Carries tag) :
    (data.elements "tags").filter (Value.spared tags) = data.elements "tags" := by
  refine List.filter_eq_self.mpr fun entry mem => List.all_eq_true.mpr fun tag named => ?_
  exact decide_eq_true fun same => free tag named ⟨entry, mem, same⟩

/-- The removal of one tag from an item. -/
def withoutTagAt (n : Int) (o : Object) (tag : String) : Object :=
  if o.data.tagNames.contains tag then ⟨n, Database.withoutTag o.data tag⟩ else o

theorem stripped_one (n : Int) (o : Object) (tag : String) :
    Stripped n [tag] o (withoutTagAt n o tag) := by
  unfold withoutTagAt
  split
  · rename_i carries
    have carries := Value.mem_tagNames.mp (List.contains_iff_mem.mp carries)
    have tags := get_tags_withoutTag carries
    exact ⟨elements_of_get tags, fun name other => get_withoutTag _ _ other,
      fun _ => ⟨rfl, by rw [elements_of_get tags]; exact tags⟩,
      fun free => absurd carries (free tag (by simp))⟩
  · rename_i free
    have free : ¬ o.data.Carries tag := fun carries =>
      free (List.contains_iff_mem.mpr (Value.mem_tagNames.mpr carries))
    refine ⟨?_, fun _ _ => rfl, ?_, fun _ => rfl⟩
    · exact (filter_spared_of_not_carries (by simpa using free)).symm
    · simp [free]

/-- One tag after the others. -/
theorem Stripped.trans {o₁ : Object} (first : Stripped n [tag] o o₁)
    (rest : Stripped n tags o₁ o') : Stripped n (tag :: tags) o o' := by
  refine ⟨?_, fun name other => (rest.fields name other).trans (first.fields name other), ?_, ?_⟩
  · rw [rest.entries, first.entries, List.filter_filter]
    refine List.filter_congr fun entry _ => ?_
    simp [Value.spared, Bool.and_comm]
  · rintro ⟨name, mem, carries⟩
    by_cases more : ∃ tag ∈ tags, o₁.data.Carries tag
    · exact rest.touched more
    · have same := rest.untouched fun tag mem carries => more ⟨tag, mem, carries⟩
      rw [same]
      by_cases here : o.data.Carries tag
      · exact first.touched ⟨tag, by simp, here⟩
      · obtain rfl := first.untouched (by simpa using here)
        rcases List.mem_cons.mp mem with rfl | later
        · exact absurd carries here
        · exact absurd ⟨name, later, carries⟩ more
  · intro free
    have same := first.untouched fun tag mem => free tag (by simp_all)
    subst same
    exact rest.untouched fun tag mem => free tag (List.mem_cons_of_mem _ mem)

theorem Stripped.not_carries (h : Stripped n tags o o') (mem : tag ∈ tags) :
    ¬ o'.data.Carries tag := by
  rintro ⟨entry, there, named⟩
  rw [h.entries] at there
  have spared := List.all_eq_true.mp (List.mem_filter.mp there).2 tag mem
  exact absurd named (of_decide_eq_true spared)

theorem stripped_foldl (n : Int) (o : Object) (tags : List String) :
    Stripped n tags o (tags.foldl (withoutTagAt n) o) := by
  induction tags generalizing o with
  | nil =>
      have none : ∀ tag ∈ ([] : List String), ¬ o.data.Carries tag := by simp
      refine ⟨(filter_spared_of_not_carries none).symm, fun _ _ => rfl, ?_, fun _ => rfl⟩
      · rintro ⟨tag, mem, -⟩
        cases mem
  | cons tag tags ih => exact (stripped_one n o tag).trans (ih _)

end Item

/-! ### All of them -/

section Edits
variable {L : LibraryId} {n : Int} {d d' : Database} {tags : List String}

theorem find?_edits_removeTag (kind : ObjectKind) (key : String) (tags : List String) :
    (d.edits L n (tags.map .removeTag)).object.find? (L, kind, key) =
      (d.object.find? (L, kind, key)).map fun o =>
        if kind = .item then tags.foldl (withoutTagAt n) o else o := by
  induction tags generalizing d with
  | nil => simp [Database.edits]
  | cons tag tags ih =>
      rw [List.map_cons, Database.edits, List.foldl_cons]
      refine ih.trans ?_
      rw [find?_removeTag, Option.map_map]
      congr 1
      funext o
      by_cases item : kind = .item <;> simp [item, withoutTagAt]

theorem deletion_edits_removeTag (k : LibraryId × DeletionKind × String) (tags : List String) :
    (d.edits L n (tags.map .removeTag)).deletion.find? k =
      if ∃ tag ∈ tags, k = (L, .tag, tag) then some n else d.deletion.find? k := by
  induction tags generalizing d with
  | nil => simp [Database.edits]
  | cons tag tags ih =>
      rw [List.map_cons, Database.edits, List.foldl_cons]
      refine ih.trans ?_
      simp only [Database.edit, Table.find?_put, List.exists_mem_cons_iff]
      by_cases here : k = (L, .tag, tag) <;> simp [here]

theorem edits_removeTag_rest (tags : List String) :
    ∃ object deletion, d.edits L n (tags.map .removeTag) =
      { d with object := object, deletion := deletion } := by
  induction tags generalizing d with
  | nil => exact ⟨_, _, rfl⟩
  | cons tag tags ih =>
      obtain ⟨object, deletion, same⟩ := @ih (Database.edit L n d (.removeTag tag))
      exact ⟨object, deletion, same⟩

/-- What commits is what the edits make of the library. -/
theorem Committed.tagsRemoved {expected : Option Int}
    (committed : Committed L expected (tags.map .removeTag) d d') :
    TagsRemoved L tags (d.version L + 1) d d' := by
  have find (kind : ObjectKind) (key : String) : d'.object.find? (L, kind, key) =
      (d.object.find? (L, kind, key)).map fun o =>
        if kind = .item then tags.foldl (withoutTagAt (d.version L + 1)) o else o := by
    rw [committed.after, find?_edits_removeTag, Database.setVersion_object]
  have log (k : LibraryId × DeletionKind × String) : d'.deletion.find? k =
      if ∃ tag ∈ tags, k = (L, .tag, tag) then some (d.version L + 1) else d.deletion.find? k := by
    rw [committed.after, deletion_edits_removeTag, Database.setVersion_deletion]
  have library : d'.library = (d.setVersion L (d.version L + 1)).library := by
    rw [committed.after, edits_library]
  obtain ⟨row, known⟩ := Option.isSome_iff_exists.mp committed.exists_library
  refine ⟨?_, ?_, ?_, ?_, ?_, ?_, ?_, ?_⟩
  · intro key o found tag mem
    rw [find] at found
    obtain ⟨o, -, rfl⟩ := Option.map_eq_some_iff.mp found
    exact (stripped_foldl _ o tags).not_carries mem
  · intro key o found
    refine ⟨_, ?_, stripped_foldl (d.version L + 1) o tags⟩
    rw [find, found]
    rfl
  · rintro ⟨M, kind, key⟩ apart
    by_cases same : M = L
    · subst same
      rw [find]
      rcases apart with missing | other | kind
      · rw [missing]
        rfl
      · exact absurd rfl other
      · simp [kind]
    · exact ((committed.agree (Ne.symm same)).find?_object kind key).symm
  · intro tag mem
    rw [log, if_pos ⟨tag, mem, rfl⟩]
  · intro k apart
    rw [log, if_neg]
    rintro ⟨tag, mem, same⟩
    exact apart tag mem same
  · rw [library, Database.setVersion, known]
    exact Table.find?_put_self ..
  · intro M other
    rw [library, Database.setVersion, known]
    exact Table.find?_put_ne _ _ other
  · obtain ⟨object, deletion, same⟩ :=
      @edits_removeTag_rest L (d.version L + 1) (d.setVersion L (d.version L + 1)) tags
    rw [committed.after, same, Database.setVersion, known]

end Edits

/-- A deletion of tags that ends in `Done` has been committed. -/
theorem ends_deleteTags {L : LibraryId} {expected : Option Int} {tags : List String}
    (some_tag : tags ≠ []) : ((GuardedOp.deleteTags tags).program L expected).Ends fun e =>
      ∀ n, e ≠ .drop (.change (.done n)) := by
  have inner : (deleteTags L tags expected).Ends fun e => ∀ n, e ≠ .drop (.done n) := by
    unfold deleteTags
    rw [if_neg (by simpa using some_tag)]
    refine Txn.ends_bind (Txn.ends_true _) fun o _ => ?_
    cases o with
    | done version => exact Txn.ends_imp ends_deleteTagsFrom fun e committed n => committed _
    | conflict current => exact fun n same => nomatch same
  refine Txn.ends_bind inner fun e committed n same => ?_
  cases e with
  | commit o => cases same
  | drop o => exact committed n (by cases same; rfl)

/-- A deletion of tags that succeeds has removed these tags and nothing else. -/
theorem delete_tags_removes (digests : Digests) (config : Config) (L : LibraryId)
    (expected : Option Int) {tags : List String} (some_tag : tags ≠ []) {d d' : Database} {n : Int}
    (done : (Request.guarded L expected (.deleteTags tags)).alone digests config d =
      (some (.change (.done n)), d')) :
    n = d.version L + 1 ∧ TagsRemoved L tags n d d' := by
  unfold Request.alone at done
  split at done
  · rename_i after a run
    obtain ⟨same, rfl⟩ := Prod.mk.inj done
    obtain rfl := Option.some.inj same
    obtain ⟨committed, version, -⟩ :=
      @guarded_run L expected d after (.deleteTags tags) (.change (.done n)) run
    obtain rfl : n = d.version L + 1 := Option.some.inj version
    exact ⟨rfl, committed.tagsRemoved⟩
  · rename_i after a run
    obtain rfl := Option.some.inj (Prod.mk.inj done).1
    exact absurd rfl (Txn.ends_of_run (ends_deleteTags some_tag) run n)
  · cases done

def looseTagsRequest : Request := .guarded newLibrary (some 1) (.deleteTags ["loan", "lost"])

/-- A book whose tag stands in two entries, and a tag that is in use nowhere. -/
theorem delete_tags_removes_twice :
    TagsRemoved newLibrary ["loan", "lost"] 2 twiceTaggedDatabase
      (looseTagsRequest.alone plainDigests plainConfig twiceTaggedDatabase).2 :=
  (delete_tags_removes plainDigests plainConfig newLibrary (some 1) (by decide) rfl).2

end Xotero
