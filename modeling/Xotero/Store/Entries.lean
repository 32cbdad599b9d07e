import Xotero.Store.Stamps

/-!
One key of a library: its item, the file registered for it and its full text.
Each edit acts on every key on its own, so what a run does to one attachment is
read off here, row by row, and not from the tables.
-/

namespace Xotero

structure Entry where
  item : Option Object
  file : Option File
  fulltext : Option Fulltext

namespace Entry

/-- The item is a live stored-file attachment. -/
def attachment (x : Entry) : Bool := (x.item.map Object.data).any isStoredFileAttachment

def merged (x : Entry) (n : Int) (key : String) (provided : Value) : Value :=
  stampObject key n (overlay (x.item.map Object.data) provided)

end Entry

def Database.entry (d : Database) (L : LibraryId) (key : String) : Entry where
  item := d.object.find? (L, .item, key)
  file := d.file.find? (L, key)
  fulltext := d.fulltext.find? (L, key)

/-- What an edit at version `n` makes of the rows of `key`. -/
def Edit.on (n : Int) (key : String) (x : Entry) : Edit → Entry
  | .store .item key' provided =>
      if key' = key then
        { x with
          item := some ⟨n, (x.merged n key provided).toJsonb⟩
          file := if x.attachment && isStoredFileAttachment (x.merged n key provided) then x.file
            else none }
      else x
  | .remove .item key' => if key' = key then { x with item := none, file := none } else x
  | .removeTag tag =>
      { x with item := x.item.map fun o =>
          if o.data.tagNames.contains tag then ⟨n, Database.withoutTag o.data tag⟩ else o }
  | .register key' upload =>
      if key' = key then
        { x with
          item := x.item.map fun o =>
            ⟨n, o.data.concat (.object (fileStamp n upload.md5 upload.mtime upload.filename))⟩
          file := some (registeredFile upload n) }
      else x
  | .storeText item =>
      if fulltextKey item = key then { x with fulltext := some (fulltextRow item n) } else x
  | _ => x

def Entry.after (n : Int) (key : String) (x : Entry) (es : List Edit) : Entry :=
  es.foldl (fun x e => e.on n key x) x

section
variable {L : LibraryId} {n : Int} {d d' : Database} {key : String}

theorem keepsFile_item (provided : Value) : d.keepsFile L n .item key provided =
    ((d.entry L key).attachment &&
      isStoredFileAttachment ((d.entry L key).merged n key provided)) := by
  simp [Database.keepsFile, Database.merged, Entry.attachment, Entry.merged, Database.entry]

theorem edit_entry (e : Edit) :
    (Database.edit L n d e).entry L key = e.on n key (d.entry L key) := by
  cases e with
  | store kind key' provided =>
      have other (kind' : ObjectKind) (h : (L, .item, key) ≠ (L, kind', key'))
          (kept : kind' ≠ .item ∨ key' ≠ key) :
          (Database.edit L n d (.store kind' key' provided)).entry L key = d.entry L key := by
        simp only [Database.entry, Database.edit, Table.find?_put_ne _ _ h]
        congr 1
        split
        · rfl
        · refine Table.find?_erase_ne _ ?_
          rcases kept with kind | key
          · simp_all [Database.keepsFile]
          · simpa [eq_comm] using key
      cases kind with
      | item =>
          by_cases same : key' = key
          · subst same
            simp only [Edit.on, if_true, ← keepsFile_item]
            simp only [Database.entry, Database.edit, Table.find?_put_self]
            congr 1
            split
            · rfl
            · exact Table.find?_erase_self _ _
          · simp only [Edit.on, same, if_false]
            exact other .item (by simpa [eq_comm] using same) (.inr same)
      | collection => exact other .collection (by simp) (.inl (by simp))
      | search => exact other .search (by simp) (.inl (by simp))
  | remove kind key' =>
      cases kind with
      | item =>
          by_cases same : key' = key
          · simp [Edit.on, same, Database.entry, Database.edit]
          · have ne : (L, ObjectKind.item, key) ≠ (L, .item, key') := by simpa [eq_comm] using same
            have ne' : (L, key) ≠ (L, key') := by simpa [eq_comm] using same
            simp [Edit.on, same, Database.entry, Database.edit, Table.find?_erase_ne _ ne,
              Table.find?_erase_ne _ ne']
      | collection | search =>
          simp [Edit.on, Database.entry, Database.edit, Table.find?_erase]
  | removeTag tag =>
      have item := find?_removeTag (L := L) (n := n) (d := d) tag .item key
      simp only [true_and] at item
      simp only [Database.entry, Edit.on, item]
      rfl
  | register key' upload =>
      by_cases same : key' = key
      · subst same
        simp only [Edit.on, if_true, Database.entry, Database.edit, Table.find?_put_self]
        cases found : d.object.find? (L, .item, key') <;> simp [found]
      · have ne : (L, ObjectKind.item, key) ≠ (L, .item, key') := by simpa [eq_comm] using same
        have ne' : (L, key) ≠ (L, key') := by simpa [eq_comm] using same
        simp only [Edit.on, same, if_false, Database.entry, Database.edit,
          Table.find?_put_ne _ _ ne']
        congr 1
        split
        · exact Table.find?_put_ne _ _ ne
        · rfl
  | storeText item =>
      by_cases same : fulltextKey item = key
      · simp [Edit.on, same, Database.entry, Database.edit]
      · have ne : (L, key) ≠ (L, fulltextKey item) := by simpa [eq_comm] using same
        simp [Edit.on, same, Database.entry, Database.edit, Table.find?_put_ne _ _ ne]
  | storeSetting | removeSetting => rfl

theorem edits_entry (es : List Edit) :
    (Database.edits L n d es).entry L key = (d.entry L key).after n key es := by
  induction es generalizing d with
  | nil => rfl
  | cons e es ih =>
      rw [Database.edits, List.foldl_cons, Entry.after, List.foldl_cons, ← edit_entry]
      exact ih

@[simp] theorem entry_setVersion (m : Int) : (d.setVersion L m).entry L key = d.entry L key := by
  simp only [Database.entry, Database.setVersion_object, Database.setVersion_file]
  congr 1
  unfold Database.setVersion
  split <;> rfl

theorem LibraryAgree.entry (h : LibraryAgree L d d') (key : String) :
    d.entry L key = d'.entry L key := by
  simp only [Database.entry, h.find?_object, h.find?_file]
  congr 1
  exact Table.find?_eq_of_part_eq h.fulltext (inLibrary_self L _)

theorem Fresh.entry (h : Fresh L d) (key : String) : d.entry L key = ⟨none, none, none⟩ := by
  simp only [Database.entry, h.object, h.file, h.fulltext]

/-- A commit on a library, as one of its keys sees it. -/
theorem Committed.entry {expected : Option Int} {es : List Edit} (h : Committed L expected es d d')
    (key : String) : d'.entry L key = (d.entry L key).after (d.version L + 1) key es := by
  rw [h.after, edits_entry, entry_setVersion]

/-- What each edit of a batch keeps of an entry, the batch keeps. -/
theorem Entry.after_keeps {I : Entry → Prop} {es : List Edit}
    (step : ∀ e ∈ es, ∀ x, I x → I (e.on n key x)) {x : Entry} (init : I x) :
    I (x.after n key es) := by
  induction es generalizing x with
  | nil => exact init
  | cons e es ih =>
      exact ih (fun e' he' => step e' (List.mem_cons_of_mem e he')) (step e (by simp) x init)

end

end Xotero
