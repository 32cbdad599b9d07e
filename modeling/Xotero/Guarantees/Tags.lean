import Xotero.Guarantees.Attachments
import Xotero.Guarantees.Cursors
import Xotero.Json.Normal

/-!
Tags live inside the data of items, their tombstones in the deletion log. A
deletion strips the tag from every item; a write that brings it back leaves the
tombstone.
-/

namespace Xotero

open Session (Run)

/-! ### The tags of a value -/

namespace Value

/-- The tags that the value of `tags` names. -/
def namedTags (tags : Value) : List String := (Value.object [("tags", tags)]).tagNames

theorem tagNames_of_get {data tags : Value} (h : data.get "tags" = some tags) :
    data.tagNames = tags.namedTags := by
  simp only [namedTags, tagNames, elements, h]
  simp [get, Members.get]

theorem tagNames_of_absent {data : Value} (h : data.get "tags" = none) : data.tagNames = [] := by
  simp [tagNames, elements, h]

/-- The tags a write supplies, in the form in which they are stored. -/
def suppliedTags : Value → List String
  | .object ms => (ms.filter fun m => m.1 = "tags").flatMap fun m => m.2.toJsonb.namedTags
  | _ => []

end Value

/-- A member of an overlay is provided or was there. -/
theorem get_overlay_cases {existing : Option Value} {provided v : Value} {name : String}
    (h : (overlay existing provided).get name = some v) :
    (∃ fields, provided = .object fields ∧ (name, v) ∈ fields) ∨
      ∃ base, existing = some base ∧ base.get name = some v := by
  have alone (same : overlay existing provided = provided) :
      ∃ fields, provided = .object fields ∧ (name, v) ∈ fields := by
    rw [same] at h
    cases provided with
    | object fields => exact ⟨fields, rfl, mem_of_get h⟩
    | _ => cases h
  cases existing with
  | none => exact .inl (alone rfl)
  | some base =>
      cases base with
      | object ms =>
          cases provided with
          | object fields =>
              simp only [overlay, Value.get_object] at h
              have split : ∀ (fields base : Members), Members.get (fields.foldl
                  (fun base field => Members.insert field.1 field.2 base) base) name = some v →
                  (name, v) ∈ fields ∨ base.get name = some v := by
                intro fields
                induction fields with
                | nil => exact fun base h => .inr h
                | cons m fields ih =>
                    intro base h
                    rcases ih _ h with later | here
                    · exact .inl (List.mem_cons_of_mem _ later)
                    · rw [Members.get_insert] at here
                      split at here
                      · rename_i same
                        obtain rfl := Option.some.inj here
                        exact .inl (by simp [← same])
                      · exact .inr here
              exact (split fields ms h).imp (fun mem => ⟨fields, rfl, mem⟩) fun got => ⟨_, rfl, got⟩
          | _ => exact .inl (alone rfl)
      | _ => exact .inl (alone (by cases provided <;> rfl))

theorem get_tags_stampObject (key : String) (n : Int) (v : Value) :
    (stampObject key n v).get "tags" = v.get "tags" := by
  cases v with
  | object ms => simp [get_stampObject key n _ rfl]
  | _ => rfl

section Edits
variable {L : LibraryId} {n : Int} {d d' : Database} {key : String} {x : Entry}

/-- A tag of a stored object is supplied by its write or was there before. -/
theorem tagNames_merged {provided : Value} {tag : String}
    (stored : ∀ o, x.item = some o → o.data.Stored)
    (carries : tag ∈ (x.merged n key provided).toJsonb.tagNames) :
    tag ∈ provided.suppliedTags ∨ ∃ o, x.item = some o ∧ tag ∈ o.data.tagNames := by
  cases got : (x.merged n key provided).get "tags" with
  | none =>
      rw [Value.tagNames_of_absent (by rw [Value.get_toJsonb, got]; rfl)] at carries
      cases carries
  | some tags =>
      have tagged : (x.merged n key provided).toJsonb.get "tags" = some tags.toJsonb := by
        rw [Value.get_toJsonb, got]
        rfl
      rw [Value.tagNames_of_get tagged] at carries
      rw [Entry.merged, get_tags_stampObject] at got
      rcases get_overlay_cases got with ⟨fields, rfl, mem⟩ | ⟨base, item, here⟩
      · refine .inl (List.mem_flatMap.mpr ⟨("tags", tags), ?_, carries⟩)
        simpa using mem
      · obtain ⟨o, found, rfl⟩ := Option.map_eq_some_iff.mp item
        refine .inr ⟨o, found, ?_⟩
        have whole := stored o found
        cases data : o.data with
        | object ms =>
            rw [data] at here whole
            have stable := (Value.stored_object.mp whole).2 _ (mem_of_get here)
            rw [Value.tagNames_of_get here]
            rwa [show tags.toJsonb = tags from stable] at carries
        | _ => simp [data, Value.get] at here

theorem stored_withoutTag {data : Value} {tag : String} (h : data.Stored) :
    (Database.withoutTag data tag).Stored := by
  cases data with
  | object ms =>
      refine Value.Stored.place h (Value.stored_array.mpr fun t ht => ?_)
      have mem := (List.mem_filter.mp ht).1
      rw [Value.elements] at mem
      split at mem
      · rename_i vs got
        exact Value.stored_array.mp ((Value.stored_object.mp h).2 _ (mem_of_get got)) t mem
      · cases mem
  | _ => exact h

/-- What is left of the tags of an item. -/
theorem mem_tagNames_withoutTag {data : Value} {tag name : String}
    (h : name ∈ (Database.withoutTag data tag).tagNames) : name ∈ data.tagNames ∧ name ≠ tag := by
  cases data with
  | object ms =>
      have elements : (Database.withoutTag (.object ms) tag).elements "tags" =
          ((Value.object ms).elements "tags").filter fun t => t.getText "tag" ≠ some tag := by
        simp [Database.withoutTag, Value.set, Value.elements, Members.get_place]
      rw [Value.tagNames, elements] at h
      obtain ⟨t, mem, named⟩ := List.mem_filterMap.mp h
      obtain ⟨mem, other⟩ := List.mem_filter.mp mem
      refine ⟨List.mem_filterMap.mpr ⟨t, mem, named⟩, ?_⟩
      rintro rfl
      cases t with
      | object fields => simp [named] at other
      | _ => cases named
  | _ => simp [Database.withoutTag, Value.set, Value.tagNames, Value.elements, Value.get] at h

/-- The items of a library are in stored form, and no tag of theirs has a
tombstone. -/
def TagsDisjoint (L : LibraryId) (d : Database) : Prop :=
  ∀ key o, d.object.find? (L, .item, key) = some o → o.data.Stored ∧
    ∀ tag ∈ o.data.tagNames, d.deletion.find? (L, .tag, tag) = none

theorem TagsDisjoint.congr (h : TagsDisjoint L d) (same : LibraryAgree L d d') :
    TagsDisjoint L d' := by
  intro key o found
  obtain ⟨stored, dead⟩ := h key o ((same.find?_object .item key).trans found)
  refine ⟨stored, fun tag ht => ?_⟩
  have log : d.deletion.find? (L, .tag, tag) = d'.deletion.find? (L, .tag, tag) :=
    Table.find?_eq_of_part_eq same.deletion (inLibrary_self L _)
  exact log.symm.trans (dead tag ht)

theorem TagsDisjoint.setVersion (h : TagsDisjoint L d) (m : Int) :
    TagsDisjoint L (d.setVersion L m) :=
  fun key o found => by simpa using h key o (by simpa using found)

theorem edit_tagsDisjoint (h : TagsDisjoint L d) {e : Edit}
    (attached : ∀ key upload, e = .register key upload → d.attachment L key = true)
    (clear : ∀ key provided, e = .store .item key provided →
      ∀ tag ∈ provided.suppliedTags, d.deletion.find? (L, .tag, tag) = none) :
    TagsDisjoint L (Database.edit L n d e) := by
  intro key o found
  have item : (e.on n key (d.entry L key)).item = some o := by
    rw [← edit_entry]
    exact found
  cases e with
  | store kind key' provided =>
      have log (tag : String) : (Database.edit L n d (.store kind key' provided)).deletion.find?
          (L, .tag, tag) = d.deletion.find? (L, .tag, tag) := by
        simp [Database.edit, Table.find?_erase]
      simp only [log]
      cases kind with
      | item =>
          by_cases same : key' = key
          · subst same
            simp only [Edit.on, if_true, Option.some.injEq] at item
            subst item
            refine ⟨Value.stored_toJsonb _, fun tag ht => ?_⟩
            rcases tagNames_merged (fun o item => (h key' o item).1) ht with new | ⟨o, item, old⟩
            · exact clear key' provided rfl tag new
            · exact (h key' o item).2 tag old
          · rw [Edit.on, if_neg same] at item
            exact h key o item
      | collection | search => exact h key o item
  | remove kind key' =>
      have log (tag : String) : (Database.edit L n d (.remove kind key')).deletion.find?
          (L, .tag, tag) = d.deletion.find? (L, .tag, tag) := by
        simp [Database.edit, Table.find?_put]
      simp only [log]
      cases kind with
      | item =>
          rw [Edit.on] at item
          split at item
          · cases item
          · exact h key o item
      | collection | search => exact h key o item
  | removeTag tag =>
      have log {name : String} (ne : name ≠ tag) :
          (Database.edit L n d (.removeTag tag)).deletion.find?
          (L, .tag, name) = d.deletion.find? (L, .tag, name) := by
        simp [Database.edit, Table.find?_put, ne]
      simp only [Edit.on] at item
      obtain ⟨o', item', same⟩ := Option.map_eq_some_iff.mp item
      obtain ⟨stored, dead⟩ := h key o' item'
      split at same
      · subst same
        refine ⟨stored_withoutTag stored, fun name hn => ?_⟩
        obtain ⟨mem, ne⟩ := mem_tagNames_withoutTag hn
        exact (log ne).trans (dead name mem)
      · rename_i free
        subst same
        refine ⟨stored, fun name hn => ?_⟩
        have ne : name ≠ tag := by
          rintro rfl
          exact free (by simpa using hn)
        exact (log ne).trans (dead name hn)
  | register key' upload =>
      rw [Edit.on] at item
      split at item
      · obtain ⟨o', item', rfl⟩ := Option.map_eq_some_iff.mp item
        obtain ⟨stored, dead⟩ := h key o' item'
        have attachment : isStoredFileAttachment o'.data = true := by
          have here : d.object.find? (L, .item, key') = some o' := by simp_all [Database.entry]
          simpa [Database.attachment, here] using attached key' upload rfl
        cases data : o'.data with
        | object ms =>
            rw [data] at stored dead
            refine ⟨stored.concat
              (by simp [fileStamp, Value.Stored, Value.toJsonb, Value.ofInt]), ?_⟩
            intro tag ht
            refine dead tag ?_
            have tags : (Value.concat (.object ms) (.object (fileStamp n upload.md5 upload.mtime
                upload.filename))).get "tags" = (Value.object ms).get "tags" := by
              simp [Value.concat, Members.get_concat, fileStamp, Members.get]
            simpa only [Value.tagNames, Value.elements, tags] using ht
        | _ => simp [data, isStoredFileAttachment, Value.get] at attachment
      · exact h key o item
  | removeSetting key' =>
      have log (tag : String) : (Database.edit L n d (.removeSetting key')).deletion.find?
          (L, .tag, tag) = d.deletion.find? (L, .tag, tag) := by
        simp [Database.edit, Table.find?_put]
      simp only [log]
      exact h key o item
  | storeSetting => exact h key o item
  | storeText text =>
      rw [Edit.on] at item
      split at item <;> exact h key o item

/-- The tombstones of tags stay as they were while items are stored. -/
theorem edits_tagsDisjoint {op : GuardedOp} (h : TagsDisjoint L d)
    (clear : ∀ key provided, .store .item key provided ∈ op.edits →
      ∀ tag ∈ provided.suppliedTags, d.deletion.find? (L, .tag, tag) = none) :
    TagsDisjoint L (Database.edits L n d op.edits) := by
  have apart (e : Edit) (he : e ∈ op.edits) (d' : Database) (key : String)
      (upload : PendingUpload) (same : e = .register key upload) : d'.attachment L key = true :=
    absurd (same ▸ he) register_not_mem_edits
  cases op with
  | write kind batch allow random =>
      have step (e : Edit) (he : e ∈ (GuardedOp.write kind batch allow random).edits)
          (d' : Database) (before : TagsDisjoint L d' ∧
            ∀ tag, d'.deletion.find? (L, .tag, tag) = d.deletion.find? (L, .tag, tag)) :
          TagsDisjoint L (Database.edit L n d' e) ∧ ∀ tag,
            (Database.edit L n d' e).deletion.find? (L, .tag, tag) =
              d.deletion.find? (L, .tag, tag) := by
        obtain ⟨disjoint, same⟩ := before
        refine ⟨edit_tagsDisjoint disjoint (apart e he d') ?_, fun tag => ?_⟩
        · intro key provided store tag ht
          rw [same]
          exact clear key provided (store ▸ he) tag ht
        · obtain ⟨key, provided, rfl⟩ := mem_storeEdits he
          simpa [Database.edit, Table.find?_erase] using same tag
      exact (edits_keep step ⟨h, fun tag => rfl⟩).1
  | delete | writeSettings | deleteSettings | deleteTags | writeFulltext =>
      refine edits_keep (fun e he d' before =>
        edit_tagsDisjoint before (apart e he d') fun key provided store => ?_) h
      subst store
      simp [GuardedOp.edits] at he

end Edits

/-! ### Runs -/

section Run
variable {digests : Digests} {config : Config} {ι : Type} [DecidableEq ι]
  {σ₀ σ : Session (server digests config) ι} {events : List (Event (server digests config))}
  {L : LibraryId}

/-- While no committed item write supplies a tag that has a tombstone, no
response since any cursor lists a tag in use. -/
theorem tags_of_run (run : Run σ₀ events σ) (starts : Starts σ₀) (fresh : Fresh L σ₀.state)
    (clear : ∀ r a d d' key provided, .commit r a d d' ∈ events → r.Stores L key provided →
      ∀ tag ∈ provided.suppliedTags, d.deletion.find? (L, .tag, tag) = none) (since : Int) :
    ∃ deletions, (deleted L since).run σ.state = some (σ.state, deletions) ∧
      ∀ key o, σ.state.object.find? (L, .item, key) = some o →
        ∀ tag ∈ o.data.tagNames, tag ∉ deletedNames .tag deletions := by
  have disjoint : TagsDisjoint L σ.state := by
    refine kept_between .refl run starts L (I := TagsDisjoint L) ?_ ?_
    · exact fun key o found => by simp [fresh.object] at found
    · intro e he d d' change before
      cases change with
      | guarded committed =>
          refine committed.after ▸ edits_tagsDisjoint (before.setVersion _) ?_
          intro key provided store tag ht
          simpa using clear _ _ _ _ key provided he (stores_of_mem_edits store) tag ht
      | registered registers item after =>
          refine (edit_tagsDisjoint (before.setVersion _) ?_ (by simp)).congr after
          rintro _ _ ⟨⟩
          simpa [Database.attachment] using item
      | apart same _ => exact before.congr same
  refine ⟨_, deleted_run, fun key o found tag ht => ?_⟩
  rw [deletedNames_body, mem_deletedSince]
  rintro ⟨v, dead, -⟩
  rw [(disjoint key o found).2 tag ht] at dead
  cases dead

def newTagRequest : Request :=
  .guarded newLibrary (some 2) (.write .item
    [.object [("key", .string "ITEM2345"),
      ("tags", .array [.object [("tag", .string "new")]])]] true fun _ _ => 0)

def newTagDatabase : Database := plainServer.after untaggedDatabase 6 newTagRequest

/-- An item gets a new tag after its old one is deleted. -/
theorem tags_of_run_tagged : ∃ events deletions,
    Run (Session.idle newDatabase : Session plainServer Unit) events
      (Session.idle newTagDatabase) ∧
    (deleted newLibrary 0).run newTagDatabase = some (newTagDatabase, deletions) ∧
    deletedNames .tag deletions = ["old"] ∧ "new" ∉ deletedNames .tag deletions := by
  have start : Run (Session.idle newDatabase : Session plainServer Unit) []
      (Session.idle newDatabase) := .refl
  obtain ⟨es, run, commits⟩ := start.then_alone (r := taggedRequest) (t := taggedDatabase) () 6
    rfl rfl (by constructor <;> decide)
  obtain ⟨es', run', commits'⟩ := run.then_alone (r := untagRequest) (t := untaggedDatabase) () 6
    rfl rfl (by constructor <;> decide)
  obtain ⟨events, whole, commits''⟩ := run'.then_alone (r := newTagRequest)
    (t := newTagDatabase) () 6 rfl rfl (by constructor <;> decide)
  obtain ⟨deletions, read, unused⟩ := tags_of_run whole (starts_idle newDatabase_valid)
    newLibrary_fresh (fun r a d d' key provided he stores tag ht => by
      rcases commits'' _ _ _ _ he with he | ⟨retagged, rfl, -⟩
      · rcases commits' _ _ _ _ he with he | ⟨untagged, -⟩
        · rcases commits _ _ _ _ he with he | ⟨tagged, rfl, -⟩
          · cases he
          · exact Table.find?_empty _
        · obtain ⟨_, _, _, _, writes, -⟩ := stores
          cases untagged.symm.trans writes
      · obtain ⟨_, _, _, _, writes, stored⟩ := stores
        cases retagged.symm.trans writes
        cases List.mem_singleton.mp stored
        obtain rfl : tag = "new" := List.mem_singleton.mp ht
        decide) 0
  refine ⟨events, deletions, whole, read, ?_, unused "ITEM2345" _ rfl "new" (by decide)⟩
  obtain rfl := (Prod.mk.inj (Option.some.inj (read.symm.trans deleted_run))).2
  decide

def retagRequest : Request :=
  .guarded newLibrary (some 2) (.write .item
    [.object [("key", .string "ITEM2345"),
      ("tags", .array [.object [("tag", .string "old")]])]] true fun _ _ => 0)

def retaggedDatabase : Database := plainServer.after untaggedDatabase 6 retagRequest

/-- A tag is deleted and written back, and still reported as deleted. -/
theorem tag_reported_deleted : ∃ events deletions o,
    Run (Session.idle newDatabase : Session plainServer Unit) events
      (Session.idle retaggedDatabase) ∧
    (deleted newLibrary 0).run retaggedDatabase = some (retaggedDatabase, deletions) ∧
    retaggedDatabase.object.find? (newLibrary, .item, "ITEM2345") = some o ∧
    "old" ∈ o.data.tagNames ∧ "old" ∈ deletedNames .tag deletions := by
  obtain ⟨es, run, -⟩ := Run.alone (S := plainServer) (s := newDatabase)
    (r := taggedRequest) () 6 rfl rfl (by constructor <;> decide)
  obtain ⟨es', run', -⟩ := Run.alone (S := plainServer) (s := taggedDatabase)
    (r := untagRequest) () 6 rfl rfl (by constructor <;> decide)
  obtain ⟨es'', run'', -⟩ := Run.alone (S := plainServer) (s := untaggedDatabase)
    (r := retagRequest) () 6 rfl rfl (by constructor <;> decide)
  exact ⟨_, _, _, (run.trans run').trans run'', deleted_run, rfl, by decide, by decide⟩

end Run

end Xotero
