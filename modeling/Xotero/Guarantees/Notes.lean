import Xotero.Handlers.Items
import Xotero.Store.Stamps
import Xotero.Store.Visible

/-!
Item reads without the notes permission. Two libraries that differ in their
notes only answer every item read alike: the filter is in each query, so hidden
notes shift no count, page, order or link either.
-/

namespace Xotero

/-- The same response, up to the order of the rows in its body. -/
structure Response.Same (r r' : Response) : Prop where
  status : r.status = r'.status
  version : r.version = r'.version
  body : Option.Rel Value.Same r.body r'.body

inductive Body.Same : Body → Body → Prop where
  | json {v w : Value} (value : Value.Same v w) : Body.Same (.json v) (.json w)
  | text (s : String) : Body.Same (.text s) (.text s)

structure ItemsResponse.Same (r r' : ItemsResponse) : Prop where
  status : r.status = r'.status
  version : r.version = r'.version
  totalResults : r.totalResults = r'.totalResults
  link : r.link = r'.link
  body : Option.Rel Body.Same r.body r'.body

theorem ItemsResponse.same_ofResponse {r r' : Response} (h : r.Same r') :
    (ItemsResponse.ofResponse r).Same (.ofResponse r') where
  status := h.status
  version := h.version
  totalResults := rfl
  link := rfl
  body := by
    have body := h.body
    simp only [ofResponse]
    cases hr : r.body <;> cases hr' : r'.body <;> rw [hr, hr'] at body
    · exact .none
    · cases body
    · cases body
    · cases body with
      | some same => exact .some (.json same)

/-- The request is one of the two reads of a sync, whose rows come in no order. -/
def ItemsRoute.SyncRead (params : Params) : ItemsRoute → Prop
  | .items | .top => params.get "format" = some "versions" ∨ (params.get "itemKey").isSome
  | .trash | .collection _ | .collectionTop _ => False

section
variable {L : LibraryId} {notes : Bool} {front : Frontend} {path : String} {raw : Option String}

/-- A response of a sync read, or none at all. -/
theorem alike_itemSyncRead (params : Params) (top : Bool) :
    ReadsAlike L notes (fun r r' => (r = none ∧ r' = none) ∨
        ∃ a b, r = some a ∧ r' = some b ∧ a.Same b ∧
          (params.get "format" = some "versions" ∨ (params.get "itemKey").isSome))
      (Handlers.itemSyncRead L params top notes) := by
  unfold Handlers.itemSyncRead
  refine Txn.alike_ite (fun format => ?_) fun other => ?_
  · refine Txn.alike_bind alike_currentVersion fun current current' same => ?_
    obtain rfl : current = current' := same
    cases top with
    | true =>
        exact Txn.alike_bind (alike_topVersions id _) fun v w same =>
          Txn.alike_ret (.inr ⟨_, _, rfl, rfl, ⟨rfl, rfl, .some same⟩, .inl format⟩)
    | false =>
        exact Txn.alike_bind (alike_versions id .item _) fun v w same =>
          Txn.alike_ret (.inr ⟨_, _, rfl, rfl, ⟨rfl, rfl, .some same⟩, .inl format⟩)
  · cases keys : params.get "itemKey" with
    | none => exact Txn.alike_ret (.inl ⟨rfl, rfl⟩)
    | some csv =>
        refine Txn.alike_bind (alike_objects id .item _) fun v w same => ?_
        refine Txn.alike_bind alike_currentVersion fun current current' version => ?_
        obtain rfl : current = current' := version
        exact Txn.alike_ret (.inr ⟨_, _, rfl, rfl, ⟨rfl, rfl, .some same⟩, .inr rfl⟩)

theorem alike_itemListing (q : ItemQuery) :
    ReadsAlike L notes Eq (Handlers.itemListing front L notes path raw q) := by
  refine Txn.alike_bind (alike_queryItems id front.locale q) fun r r' same => ?_
  obtain rfl : r = r' := same
  refine Txn.alike_bind alike_currentVersion fun current current' same => ?_
  obtain rfl : current = current' := same
  exact Txn.alike_ret rfl

theorem alike_itemKeysResponse (params : Params) (q : ItemQuery) :
    ReadsAlike L notes Eq (Handlers.itemKeysResponse front L notes params q) := by
  refine Txn.alike_ite (fun _ => Txn.alike_ret rfl) fun _ => ?_
  refine Txn.alike_bind (alike_itemKeys id front.locale q) fun keys keys' same => ?_
  obtain rfl : keys = keys' := same
  refine Txn.alike_bind alike_currentVersion fun current current' same => ?_
  obtain rfl : current = current' := same
  exact Txn.alike_ret rfl

theorem alike_itemQuery (q : ItemQuery) :
    ReadsAlike L notes Eq (Handlers.itemQuery front L notes path raw q) := by
  refine Txn.alike_bind (alike_itemKeysResponse _ q) fun r r' same => ?_
  obtain rfl : r = r' := same
  cases r with
  | some response => exact Txn.alike_ret rfl
  | none => exact alike_itemListing q

theorem alike_itemsWith (top : Bool) :
    ReadsAlike L notes (fun a b => a = b ∨
        ((front.urlencoded.parse raw).get "format" = some "versions" ∨
          ((front.urlencoded.parse raw).get "itemKey").isSome) ∧ a.Same b)
      (Handlers.itemsWith front L notes path raw top) := by
  refine Txn.alike_bind (alike_itemSyncRead _ top) fun r r' same => ?_
  rcases same with ⟨rfl, rfl⟩ | ⟨a, b, rfl, rfl, same, sync⟩
  · exact (alike_itemQuery _).imp fun _ _ same => .inl same
  · exact Txn.alike_ret (.inr ⟨sync, ItemsResponse.same_ofResponse same⟩)

theorem alike_items (route : ItemsRoute) :
    ReadsAlike L notes
      (fun a b => a = b ∨ route.SyncRead (front.urlencoded.parse raw) ∧ a.Same b)
      (route.get front L notes path raw) := by
  cases route with
  | items | top => exact alike_itemsWith _
  | trash | collection | collectionTop =>
      exact (alike_itemQuery _).imp fun _ _ same => .inl same

/-- Each statement of the request may see a different state: as long as the
states agree on all rows but the notes, the response is the same. The rows of a
sync read come in no order, so there it is the same up to their order. -/
theorem items_hide_notes {states states' : List Database}
    (same : List.Forall₂ (SameRows L false) states states') (route : ItemsRoute) :
    Option.Rel (fun a b => a = b ∨ route.SyncRead (front.urlencoded.parse raw) ∧ a.Same b)
      ((route.get front L false path raw).replay states)
      ((route.get front L false path raw).replay states') :=
  (alike_items route).replay (same.imp fun _ _ h => h.twin)

end

/-- Storing a note where there was none, or another note, shows nowhere. -/
theorem SameRows.put_note (L : LibraryId) (d : Database) (key : String) {o : Object}
    (note : o.data.itemType = some "note")
    (hidden : (d.object.find? (L, .item, key)).filter (visible false .item) = none) :
    SameRows L false d { d with object := d.object.put (L, .item, key) o } where
  version := rfl
  object kind key' := by
    rw [Table.find?_put]
    split
    · rename_i same
      simp only [Prod.mk.injEq, true_and] at same
      obtain ⟨rfl, rfl⟩ := same
      rw [hidden, Option.filter_some_neg]
      simp [visible, noteVisible, note]
    · rfl
  setting _ := rfl
  deletion _ _ := rfl
  file _ := rfl
  fulltext _ := rfl

/-- The C locale, on ASCII texts. -/
def plainLocale : Locale where
  compare := compare
  lower := toLowercase
  isAlnum := Char.isAlphanum
  isDigit := Char.isDigit
  trans := inferInstance
  lawful := inferInstance

def plainFrontend : Frontend := ⟨plainLocale, ⟨fun _ => none, fun _ => none⟩, plainConfig⟩

def bookDatabase : Database :=
  { newDatabase with
    library := newDatabase.library.put newLibrary ⟨2, .personal⟩
    object := newDatabase.object.put (newLibrary, .item, "BKAA2345")
      ⟨1, .object [("title", .string "Sets"), ("itemType", .string "book")]⟩ }

def bookAndNoteDatabase : Database :=
  { bookDatabase with
    object := bookDatabase.object.put (newLibrary, .item, "TEXT2345")
      ⟨2, .object [("note", .string "private"), ("itemType", .string "note")]⟩ }

/-- The library lists its one book, with or without the note. -/
theorem items_hide_notes_book : ∃ response,
    (ItemsRoute.items.get plainFrontend newLibrary false "/users/1/items" none).replay
      [bookDatabase, bookDatabase, bookDatabase] = some response ∧
    (ItemsRoute.items.get plainFrontend newLibrary false "/users/1/items" none).replay
      [bookAndNoteDatabase, bookAndNoteDatabase, bookAndNoteDatabase] = some response ∧
    response.totalResults = some 1 := by
  have hidden : SameRows newLibrary false bookDatabase bookAndNoteDatabase :=
    .put_note newLibrary bookDatabase "TEXT2345" rfl rfl
  have same := @items_hide_notes newLibrary plainFrontend "/users/1/items" none _ _
    (.cons hidden (.cons hidden (.cons hidden .nil))) .items
  revert same
  generalize there : (ItemsRoute.items.get plainFrontend newLibrary false "/users/1/items"
    none).replay [bookAndNoteDatabase, bookAndNoteDatabase, bookAndNoteDatabase] = answer
  intro same
  cases same with
  | some related =>
      rcases related with rfl | ⟨sync, -⟩
      · exact ⟨_, rfl, rfl, rfl⟩
      · rcases sync with versions | keys
        · cases versions
        · cases keys

end Xotero
