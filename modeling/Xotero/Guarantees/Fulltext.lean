import Xotero.Guarantees.Attachments
import Xotero.Guarantees.Cursors
import Xotero.Guarantees.Notes

/-!
Full text is a side table by item key, and no operation but `write_fulltext`
touches it: what an item leaves there when it is deleted stays, is served, and
is found again when the key returns.
-/

namespace Xotero

open Session (Run)

section Deletion
variable {L : LibraryId} {n : Int} {d d' : Database} {key : String}

theorem execute_accepted {q : Sql} {r : Database × q.Result} (h : (execute q).run d = some r) :
    q.accepted = true := by
  unfold execute at h
  split at h
  · assumption
  · cases h

theorem deleteObject_storable {kind : ObjectKind} {allow : Bool}
    (h : (deleteObject L kind allow n key).run d = some (d', true)) : storable key = true := by
  obtain ⟨d₁, denied, -, rest⟩ := Txn.run_bind_eq_some h
  obtain ⟨-, stopped⟩ | ⟨-, rest⟩ := Txn.run_ite rest
  · obtain ⟨-, ⟨⟩⟩ := ret_run stopped
  · obtain ⟨_, _, deleted, -⟩ := Txn.run_bind_eq_some rest
    exact execute_accepted deleted

/-- The keys of a deletion that commits have been stored as text. -/
theorem deleteFrom_storable {kind : ObjectKind} {allow : Bool} {keys : List String}
    {a : ObjectMutation Int} (h : (deleteFrom L kind allow n keys).run d = some (d', .commit a)) :
    ∀ key ∈ keys, storable key = true := by
  induction keys generalizing d with
  | nil => exact fun key hk => nomatch hk
  | cons first keys ih =>
      obtain ⟨d₁, allowed, one, rest⟩ := Txn.run_bind_eq_some h
      cases allowed with
      | false => obtain ⟨-, ⟨⟩⟩ := ret_run rest
      | true =>
          intro key hk
          rcases List.mem_cons.mp hk with rfl | later
          · exact deleteObject_storable one
          · exact ih rest key later

end Deletion

/-! ### One key -/

section Entry
variable {n : Int} {key : String} {x : Entry}

theorem Entry.fulltext_on {e : Edit}
    (apart : ∀ item, e = .storeText item → fulltextKey item ≠ key) :
    (e.on n key x).fulltext = x.fulltext := by
  cases e with
  | store kind key' provided =>
      cases kind with
      | item =>
          rw [Edit.on]
          split <;> rfl
      | collection | search => rfl
  | remove kind key' =>
      cases kind with
      | item =>
          rw [Edit.on]
          split <;> rfl
      | collection | search => rfl
  | removeTag => rfl
  | register key' upload =>
      rw [Edit.on]
      split <;> rfl
  | storeText item => rw [Edit.on, if_neg (apart item rfl)]
  | storeSetting | removeSetting => rfl

theorem storeText_mem_edits {op : GuardedOp} {item : Value} (h : .storeText item ∈ op.edits) :
    ∃ batch, op = .writeFulltext batch ∧ item ∈ batch := by
  cases op with
  | writeFulltext batch => exact ⟨batch, rfl, by simpa [GuardedOp.edits] using h⟩
  | write kind batch allow random =>
      obtain ⟨key', provided, same⟩ := mem_storeEdits h
      cases same
  | delete | writeSettings | deleteSettings | deleteTags => simp [GuardedOp.edits] at h

end Entry

/-! ### Runs -/

section Run
variable {digests : Digests} {config : Config} {ι : Type} [DecidableEq ι]
  {σ₀ σ : Session (server digests config) ι} {events : List (Event (server digests config))}
  {L : LibraryId} {key : String} {d d' : Database} {e : Event (server digests config)}

/-- The commits of a full-text write that names `key`. -/
def WritesText (L : LibraryId) (key : String) (e : Event (server digests config)) : Prop :=
  ∃ expected batch a d d' item,
    e = .commit (Request.guarded L expected (.writeFulltext batch)) a d d' ∧
    item ∈ batch ∧ fulltextKey item = key

theorem Change.fulltext (h : Change L e d d') (silent : ¬ WritesText L key e) :
    (d'.entry L key).fulltext = (d.entry L key).fulltext := by
  refine h.keeps (I := fun x => x.fulltext = (d.entry L key).fulltext) rfl ?_ ?_
  · rintro expected op a rfl n x hx y same
    rw [Entry.fulltext_on, same]
    rintro item rfl named
    obtain ⟨batch, rfl, member⟩ := storeText_mem_edits hx
    exact silent ⟨expected, batch, a, d, d', item, rfl, member, named⟩
  · exact fun upload n _ _ => Entry.fulltext_on fun item => nofun

/-- The full text of a deleted item is what it was when the item was deleted,
until it is written again. -/
theorem fulltext_between {σ₁ : Session (server digests config) ι}
    {before after : List (Event (server digests config))} (run : Run σ₀ before σ₁)
    (rest : Run σ₁ after σ) (starts : Starts σ₀) (silent : ∀ e ∈ after, ¬ WritesText L key e) :
    (σ.state.entry L key).fulltext = (σ₁.state.entry L key).fulltext := by
  refine kept_between run rest starts L
    (I := fun d => (d.entry L key).fulltext = (σ₁.state.entry L key).fulltext) rfl ?_
  exact fun e he d d' change same => (change.fulltext (silent e he)).trans same

/-- A deletion of items, and what it leaves of the full text of their keys. -/
theorem fulltext_after_delete (run : Run σ₀ events σ) (starts : Starts σ₀)
    {before after : List (Event (server digests config))} {expected : Option Int}
    {keys : List String} {allow : Bool} {a : Reply}
    (split : events = before ++
      .commit (Request.guarded L expected (.delete .item keys allow)) a d d' :: after)
    (named : key ∈ keys) (silent : ∀ e ∈ after, ¬ WritesText L key e) :
    storable key = true ∧ σ.state.fulltext.find? (L, key) = d.fulltext.find? (L, key) := by
  subst split
  obtain ⟨σ₁, σ₂, run₁, rfl, run₂, rfl, rest⟩ := run.around .commit
  have here : .commit (Request.guarded L expected (.delete .item keys allow)) a σ₁.state σ₂.state ∈
      before ++ [.commit (Request.guarded L expected (.delete .item keys allow)) a σ₁.state
        σ₂.state] := by simp
  constructor
  · have alone := guarded_runs run₂ starts here
    obtain ⟨d₁, ending, alone, reply⟩ := Txn.run_bind_eq_some alone
    obtain ⟨-, same⟩ := ret_run reply
    cases ending with
    | drop b => cases same
    | commit b =>
        unfold Xotero.delete at alone
        obtain ⟨-, none⟩ | ⟨-, alone⟩ := Txn.run_ite alone
        · obtain ⟨d₂, o, -, ends⟩ := Txn.run_bind_eq_some none
          cases o <;> obtain ⟨-, ⟨⟩⟩ := ret_run ends
        · obtain ⟨d₂, o, -, ends⟩ := Txn.run_bind_eq_some alone
          cases o with
          | conflict current => obtain ⟨-, ⟨⟩⟩ := ret_run ends
          | done version => exact deleteFrom_storable ends key named
  · have deleted : (σ₂.state.entry L key).fulltext = (σ₁.state.entry L key).fulltext := by
      refine (change_of_event run₂ starts L _ here _ _ .commit).fulltext ?_
      rintro ⟨_, batch, _, _, _, _, same, -⟩
      cases same
    exact (fulltext_between run₂ rest starts silent).trans deleted

/-- Once an item is deleted and while its full text is not written again: its
full text is gone from all three reads exactly when there was none. -/
theorem fulltext_gone (run : Run σ₀ events σ) (starts : Starts σ₀)
    {before after : List (Event (server digests config))} {expected : Option Int}
    {keys : List String} {allow : Bool} {a : Reply}
    (split : events = before ++
      .commit (Request.guarded L expected (.delete .item keys allow)) a d d' :: after)
    (named : key ∈ keys) (silent : ∀ e ∈ after, ¬ WritesText L key e) :
    ((fulltextItem L key).run σ.state = some (σ.state, none) ∧
      (∀ since, ∃ map, (fulltextVersions L since).run σ.state = some (σ.state, map) ∧
        listedVersion map key = none) ∧
      ∀ (locale : Locale) (q : ItemQuery) (notes : Bool) (o : Object),
        (key, o) ∈ σ.state.matchingItems locale L { q with qmode := .everything } notes →
        (key, o) ∈ σ.state.matchingItems locale L { q with qmode := .titleCreatorYear } notes) ↔
    d.fulltext.find? (L, key) = none := by
  obtain ⟨text, same⟩ := fulltext_after_delete run starts split named silent
  have accepted : (Sql.fulltextItem L key).accepted = true := text
  have read : (fulltextItem L key).run σ.state =
      some (σ.state, (σ.state.fulltext.find? (L, key)).map fun r => (r.version, .object [
        ("content", .string r.content), ("indexedChars", .ofInt r.indexedChars),
        ("totalChars", .ofInt r.totalChars), ("indexedPages", .ofInt r.indexedPages),
        ("totalPages", .ofInt r.totalPages)])) := by
    rw [fulltextItem, execute_bind, if_pos accepted]
    rfl
  rw [read, same]
  constructor
  · rintro ⟨gone, -, -⟩
    simpa using gone
  · intro absent
    have absent' := same.trans absent
    refine ⟨by rw [absent]; rfl, fun since => ⟨_, rfl, ?_⟩, ?_⟩
    · cases listed : listedVersion
        (versionMap (Sql.eval (.fulltextVersions L since) σ.state)) key with
      | none => rfl
      | some n =>
          have live := (VersionListing.fulltext.listedVersion_rows.mp listed).1
          simp [VersionListing.version, absent'] at live
    · intro locale q notes o found
      rw [Database.matchingItems, mem_objectsWhere] at found ⊢
      refine ⟨found.1, ?_⟩
      simpa [itemMatches, absent'] using found.2

/-- A note without full text is deleted. -/
theorem fulltext_gone_note : ∃ events,
    Run (Session.idle newDatabase : Session plainServer Unit) events
      (Session.idle deletedNoteDatabase) ∧
    (fulltextItem newLibrary "TEXT2345").run deletedNoteDatabase =
      some (deletedNoteDatabase, none) := by
  obtain ⟨es, run, -⟩ := Run.alone (S := plainServer) (s := newDatabase)
    (r := noteRequest) () 6 rfl rfl (by constructor <;> decide)
  obtain ⟨es', run', -⟩ := Run.alone (S := plainServer) (s := noteDatabase)
    (r := deleteNoteRequest) () 6 rfl rfl (by constructor <;> decide)
  have named : "TEXT2345" ∈ ["TEXT2345"] := by simp
  have gone := fulltext_gone (run.trans run') (starts_idle newDatabase_valid)
    (List.append_assoc _ _ _).symm named (by simp)
  exact ⟨_, run.trans run', (gone.mpr rfl).1⟩

/-- A note gets full text, is deleted, and is stored again. -/
def noteTextRequest : Request :=
  .guarded newLibrary (some 1) (.writeFulltext
    [.object [("key", .string "TEXT2345"), ("content", .string "secret")]])

def deleteTextRequest : Request :=
  .guarded newLibrary (some 2) (.delete .item ["TEXT2345"] true)

def renoteRequest : Request :=
  .guarded newLibrary (some 3) (.write .item
    [.object [("key", .string "TEXT2345"), ("itemType", .string "book")]] true fun _ _ => 0)

def noteTextDatabase : Database := plainServer.after noteDatabase 6 noteTextRequest

def deletedTextDatabase : Database := plainServer.after noteTextDatabase 6 deleteTextRequest

def renotedDatabase : Database := plainServer.after deletedTextDatabase 6 renoteRequest

def secretQuery (qmode : QMode) : ItemQuery :=
  { ItemQuery.fromParams [("q", "secret")] with qmode := qmode }

/-- The text of the deleted note is served, listed, and finds the new item. -/
theorem fulltext_outlives_item : ∃ events events' row map o,
    Run (Session.idle newDatabase : Session plainServer Unit) events
      (Session.idle deletedTextDatabase) ∧
    (fulltextItem newLibrary "TEXT2345").run deletedTextDatabase =
      some (deletedTextDatabase, some row) ∧
    (fulltextVersions newLibrary 0).run deletedTextDatabase = some (deletedTextDatabase, map) ∧
    listedVersion map "TEXT2345" = some 2 ∧
    Run (Session.idle deletedTextDatabase : Session plainServer Unit) events'
      (Session.idle renotedDatabase) ∧
    renotedDatabase.matchingItems plainLocale newLibrary (secretQuery .everything) true =
      [("TEXT2345", o)] ∧
    renotedDatabase.matchingItems plainLocale newLibrary (secretQuery .titleCreatorYear) true =
      [] := by
  obtain ⟨es₁, run₁, -⟩ := Run.alone (S := plainServer) (s := newDatabase)
    (r := noteRequest) () 6 rfl rfl (by constructor <;> decide)
  obtain ⟨es₂, run₂, -⟩ := Run.alone (S := plainServer) (s := noteDatabase)
    (r := noteTextRequest) () 6 rfl rfl (by constructor <;> decide)
  obtain ⟨es₃, run₃, -⟩ := Run.alone (S := plainServer) (s := noteTextDatabase)
    (r := deleteTextRequest) () 6 rfl rfl (by constructor <;> decide)
  obtain ⟨es₄, run₄, -⟩ := Run.alone (S := plainServer) (s := deletedTextDatabase)
    (r := renoteRequest) () 6 rfl rfl (by constructor <;> decide)
  exact ⟨_, _, _, _, _, (run₁.trans run₂).trans run₃, rfl, rfl, rfl, run₄, rfl, rfl⟩

end Run

end Xotero
