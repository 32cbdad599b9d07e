import Xotero.Guarantees.Attachments
import Xotero.Guarantees.Concurrency
import Xotero.Handlers.Mutations

/-!
The file policy of a group library. A write or a deletion that meets a
stored-file attachment, before or after its change, is refused without the file
permission; the removal of a tag asks for none.
-/

namespace Xotero

open Session (Run)

/-- What a caller without the file permission may do to the rows of a key. -/
structure Spared (x x' : Entry) : Prop where
  item : x.attachment = true → x'.item = x.item
  apart : x.attachment = false → x'.attachment = false
  file : x'.file = x.file

namespace Spared
variable {n : Int} {key : String} {x x' x'' : Entry}

theorem refl (x : Entry) : Spared x x := ⟨fun _ => rfl, id, rfl⟩

theorem attachment (h : Spared x x') (attached : x.attachment = true) : x'.attachment = true :=
  (congrArg (fun item => (item.map Object.data).any isStoredFileAttachment)
    (h.item attached)).trans attached

theorem trans (h : Spared x x') (h' : Spared x' x'') : Spared x x'' where
  item attached := (h'.item (h.attachment attached)).trans (h.item attached)
  apart other := h'.apart (h.apart other)
  file := h'.file.trans h.file

theorem owned (h : Spared x x') (owned : x.Owned) : x'.Owned := by
  intro some
  rw [h.file] at some
  exact h.attachment (owned some)

/-- No attachment, no file. -/
theorem file_eq_none (owned : x.Owned) (other : x.attachment = false) : x.file = none := by
  by_contra present
  exact absurd (owned (Option.isSome_iff_ne_none.mpr present)) (by simp [other])

theorem store {key' : String} {provided : Value} (owned : x.Owned)
    (denied : key' = key → x.attachment = false ∧
      isStoredFileAttachment (x.merged n key provided) = false) :
    Spared x (Edit.on n key x (.store .item key' provided)) := by
  by_cases same : key' = key
  · subst same
    obtain ⟨other, stored⟩ := denied rfl
    refine ⟨fun attached => absurd attached (by simp [other]), fun _ => ?_, ?_⟩
    · rw [Entry.attachment_store, stored]
    · simp [Edit.on, other, file_eq_none owned other]
  · rw [Edit.on, if_neg same]
    exact .refl x

theorem remove {key' : String} (owned : x.Owned) (denied : key' = key → x.attachment = false) :
    Spared x (Edit.on n key x (.remove .item key')) := by
  by_cases same : key' = key
  · subst same
    have other := denied rfl
    refine ⟨fun attached => absurd attached (by simp [other]), fun _ => Entry.attachment_remove, ?_⟩
    simp [Edit.on, file_eq_none owned other]
  · rw [Edit.on, if_neg same]
    exact .refl x

theorem removeTag {tag : String} (free : x.attachment = true →
    ∀ o, x.item = some o → o.data.tagNames.contains tag = false) :
    Spared x (Edit.on n key x (.removeTag tag)) where
  item attached := by
    have free := free attached
    simp only [Edit.on]
    cases item : x.item with
    | none => rfl
    | some o => rw [Option.map_some, if_neg (by rw [free o item]; exact Bool.false_ne_true)]
  apart other := by
    rw [Entry.attachment_on (e := .removeTag tag) (fun _ stores => ?_) fun removes => ?_]
    · exact other
    · cases stores
    · cases removes
  file := rfl

end Spared

/-! ### The batches -/

section Batches
variable {L : LibraryId} {n : Int} {d d' : Database}

/-- What the policy has checked of an entry that is stored without the permission. -/
theorem writeObject_checked {key : String} {provided object : Value}
    (h : (writeObject L .item false n key provided).run d = some (d', some object)) :
    d.attachment L key = false ∧
      isStoredFileAttachment (d.merged L n .item key provided) = false := by
  obtain ⟨-, h⟩ | ⟨checked, -⟩ := Txn.run_ite (execute_bind_run h)
  · obtain ⟨-, ⟨⟩⟩ := ret_run h
  · have both : d.attachment L key = false ∧
        isStoredFileAttachment (d.merged L n .item key provided) = false := by
      simpa [Database.attachment, Database.merged, Sql.eval] using checked
    exact both

theorem deleteObject_checked {key : String}
    (h : (deleteObject L .item false n key).run d = some (d', true)) :
    d.attachment L key = false := by
  obtain ⟨d₁, denied, look, rest⟩ := Txn.run_bind_eq_some h
  have look := execute_bind_run look
  obtain ⟨-, denied_eq⟩ := ret_run look
  cases denied with
  | true => obtain ⟨-, ⟨⟩⟩ := ret_run rest
  | false => exact denied_eq.symm

theorem spared_edit_other {kind : ObjectKind} (h : kind ≠ .item) (key : String) (x : Entry) :
    (∀ key' provided, Edit.on n key x (.store kind key' provided) = x) ∧
      ∀ key', Edit.on n key x (.remove kind key') = x := by
  cases kind with
  | item => exact absurd rfl h
  | collection | search => exact ⟨fun _ _ => rfl, fun _ => rfl⟩

theorem writeFrom_spared {kind : ObjectKind} {random : Nat → Fin 8 → UInt8} {index : Nat}
    {batch : List Value} {successful : Members} {a : ObjectMutation (Int × Value)}
    (h : (writeFrom L kind false random n index batch successful).run d = some (d', .commit a))
    (owned : ∀ key, (d.entry L key).Owned) (key : String) :
    Spared (d.entry L key) (d'.entry L key) := by
  induction batch generalizing index successful d with
  | nil =>
      obtain ⟨rfl, -⟩ := ret_run h
      exact .refl _
  | cons provided batch ih =>
      obtain ⟨d₁, stored, first, rest⟩ := Txn.run_bind_eq_some h
      cases stored with
      | none => obtain ⟨-, ⟨⟩⟩ := ret_run rest
      | some object =>
          have step (k : String) : Spared (d.entry L k) (d₁.entry L k) := by
            obtain ⟨-, rfl⟩ := writeObject_run first
            rw [edit_entry]
            by_cases item : kind = .item
            · subst item
              refine .store (owned k) ?_
              rintro rfl
              exact writeObject_checked first
            · rw [(spared_edit_other item k _).1]
              exact .refl _
          exact (step key).trans (ih rest fun k => (step k).owned (owned k))

theorem deleteFrom_spared {kind : ObjectKind} {keys : List String} {a : ObjectMutation Int}
    (h : (deleteFrom L kind false n keys).run d = some (d', .commit a))
    (owned : ∀ key, (d.entry L key).Owned) (key : String) :
    Spared (d.entry L key) (d'.entry L key) := by
  induction keys generalizing d with
  | nil =>
      obtain ⟨rfl, -⟩ := ret_run h
      exact .refl _
  | cons key' keys ih =>
      obtain ⟨d₁, allowed, first, rest⟩ := Txn.run_bind_eq_some h
      cases allowed with
      | false => obtain ⟨-, ⟨⟩⟩ := ret_run rest
      | true =>
          have step (k : String) : Spared (d.entry L k) (d₁.entry L k) := by
            obtain rfl := deleteObject_run first
            rw [edit_entry]
            by_cases item : kind = .item
            · subst item
              refine .remove (owned k) ?_
              rintro rfl
              exact deleteObject_checked first
            · rw [(spared_edit_other item k _).2]
              exact .refl _
          exact (step key).trans (ih rest fun k => (step k).owned (owned k))

end Batches

/-- Some stored-file attachment carries the tag. -/
def FileCarriesTag (L : LibraryId) (d : Database) (tag : String) : Prop :=
  ∃ key o, d.object.find? (L, .item, key) = some o ∧ isStoredFileAttachment o.data = true ∧
    o.data.tagNames.contains tag = true

section Operations
variable {L : LibraryId} {expected : Option Int} {d d' : Database} {a : Reply}

theorem removeTags_spared {n : Int} {tags : List String}
    (free : ∀ tag ∈ tags, ¬ FileCarriesTag L d tag) (key : String) :
    Spared (d.entry L key) ((d.entry L key).after n key (tags.map .removeTag)) := by
  refine Entry.after_keeps (I := Spared (d.entry L key)) (fun e he y spared => ?_) (.refl _)
  obtain ⟨tag, ht, rfl⟩ := List.mem_map.mp he
  refine spared.trans (.removeTag fun attached o item => ?_)
  have before : (d.entry L key).attachment = true := by
    by_contra other
    have gone := spared.apart (by simpa using other)
    simp [attached] at gone
  rw [spared.item before] at item
  have stored : isStoredFileAttachment o.data = true := by
    simpa [Entry.attachment, item] using before
  by_contra carries
  exact free tag ht ⟨key, o, item, stored, by simpa using carries⟩

/-- A guarded operation under the policy spares every attachment. -/
theorem guarded_spared {op : GuardedOp} (h : (op.program L expected).run d = some (d', .commit a))
    (write : ∀ kind batch allow random, op = .write kind batch allow random → allow = false)
    (delete : ∀ kind keys allow, op = .delete kind keys allow → allow = false)
    (tags : ∀ tags, op = .deleteTags tags → ∀ tag ∈ tags, ¬ FileCarriesTag L d tag)
    (owned : ∀ key, (d.entry L key).Owned) (key : String) :
    Spared (d.entry L key) (d'.entry L key) := by
  have committed := (guarded_run h).1
  have owned' (k : String) : ((d.setVersion L (d.version L + 1)).entry L k).Owned := by
    rw [entry_setVersion]
    exact owned k
  cases op with
  | write kind batch allow random =>
      obtain rfl := write kind batch allow random rfl
      obtain ⟨b, -, -, -, -, loop⟩ :=
        branch_of_run h (fun o => by cases o <;> exact ⟨_, rfl⟩) fun v => ⟨_, rfl⟩
      rw [← entry_setVersion (d := d) (d.version L + 1)]
      exact writeFrom_spared loop owned' key
  | delete kind keys allow =>
      obtain rfl := delete kind keys allow rfl
      obtain ⟨b, -, -, -, -, loop⟩ :=
        branch_of_run h (fun o => by cases o <;> exact ⟨_, rfl⟩) fun v => ⟨_, rfl⟩
      rw [← entry_setVersion (d := d) (d.version L + 1)]
      exact deleteFrom_spared loop owned' key
  | deleteTags names =>
      rw [committed.entry]
      exact removeTags_spared (tags names rfl) key
  | writeSettings | deleteSettings =>
      rw [committed.entry]
      refine Entry.after_keeps (I := Spared (d.entry L key)) (fun e he y spared => ?_) (.refl _)
      obtain ⟨x, -, rfl⟩ := List.mem_map.mp he
      exact spared
  | writeFulltext batch =>
      rw [committed.entry]
      refine Entry.after_keeps (I := Spared (d.entry L key)) (fun e he y spared => ?_) (.refl _)
      obtain ⟨x, -, rfl⟩ := List.mem_map.mp he
      refine spared.trans ?_
      rw [Edit.on]
      split
      · exact ⟨fun _ => rfl, id, rfl⟩
      · exact .refl y

end Operations

/-! ### Runs -/

/-- A request that a caller without the file permission makes of a group library. -/
def WithoutFiles (L : LibraryId) (r : Request) : Prop :=
  ∃ access m, access.libraryId = L ∧ access.groupId.isSome ∧ access.fileWrite = false ∧
    Mutation.request access m = .ok r

theorem withoutFiles_guarded {L : LibraryId} {r : Request} (h : WithoutFiles L r) :
    ∃ expected op, r = .guarded L (some expected) op ∧
      (∀ kind batch allow random, op = .write kind batch allow random → allow = false) ∧
      ∀ kind keys allow, op = .delete kind keys allow → allow = false := by
  obtain ⟨access, m, rfl, group, files, made⟩ := h
  have denied : access.allowStoredFileWrite = false := by
    rw [LibraryAccess.allowStoredFileWrite, files, Bool.or_false]
    simpa [Option.isSome_iff_ne_none] using group
  obtain ⟨expected, op, rfl, write, delete⟩ := Mutation.request_guarded made
  rw [denied] at write delete
  exact ⟨expected, op, rfl, write, delete⟩

section Run
variable {digests : Digests} {config : Config} {ι : Type} [DecidableEq ι]
  {σ₀ σ₁ σ₂ : Session (server digests config) ι}
  {events events' : List (Event (server digests config))} {L : LibraryId}

/-- As long as no tag of a stored-file attachment is deleted, callers without
the file permission leave the attachments of the library, and its files, as
they were. -/
theorem group_file_policy (run : Run σ₀ events σ₁) (run' : Run σ₁ events' σ₂)
    (starts : Starts σ₀) (fresh : Fresh L σ₀.state)
    (callers : ∀ r a d d', .commit r a d d' ∈ events' → Request.library r = some L →
      WithoutFiles L r)
    (tags : ∀ expected tags a d d',
      .commit (Request.guarded L expected (.deleteTags tags)) a d d' ∈ events' →
        ∀ tag ∈ tags, ¬ FileCarriesTag L d tag) :
    (∀ key o, isStoredFileAttachment o.data = true →
      (σ₂.state.object.find? (L, .item, key) = some o ↔
        σ₁.state.object.find? (L, .item, key) = some o)) ∧
    ∀ key, σ₂.state.file.find? (L, key) = σ₁.state.file.find? (L, key) := by
  have owned₁ := owned_of_run run starts fresh
  have spared : ∀ key, Spared (σ₁.state.entry L key) (σ₂.state.entry L key) := by
    refine kept_between run run' starts L
      (I := fun d => ∀ key, Spared (σ₁.state.entry L key) (d.entry L key)) (fun _ => .refl _) ?_
    intro e he d d' change spared key
    refine (spared key).trans ?_
    cases change with
    | @guarded expected op a _ _ committed =>
        obtain ⟨expected', op', same, write, delete⟩ :=
          withoutFiles_guarded (callers _ a d d' he rfl)
        cases same
        refine guarded_spared (guarded_runs (run.trans run') starts
          (List.mem_append_right events he)) write delete ?_
          (fun k => (spared k).owned (owned₁ k)) key
        rintro names rfl
        exact tags _ names a d d' he
    | registered registers item after =>
        cases registers with
        | done library =>
            obtain ⟨_, _, same, -⟩ := withoutFiles_guarded (callers _ _ _ _ he (by
              rw [Request.library, library]))
            cases same
    | apart same _ => exact same.entry key ▸ .refl _
  refine ⟨fun key o stored => ?_, fun key => (spared key).file⟩
  constructor
  · intro found
    have after : (σ₂.state.entry L key).attachment = true := by
      simp [Entry.attachment, Database.entry, found, stored]
    have before : (σ₁.state.entry L key).attachment = true := by
      by_contra other
      have gone := (spared key).apart (by simpa using other)
      simp [after] at gone
    exact ((spared key).item before).symm.trans found
  · intro found
    have before : (σ₁.state.entry L key).attachment = true := by
      simp [Entry.attachment, Database.entry, found, stored]
    exact ((spared key).item before).trans found

end Run

/-! ### A group member without the file permission -/

def groupedLibrary : LibraryId := ⟨3, by decide⟩

/-- A new group library; who its members are plays no part here. -/
def groupedDatabase : Database :=
  { Database.empty with
    library := (∅ : Table LibraryId Library).put groupedLibrary ⟨0, .group⟩ }

theorem groupedDatabase_valid : groupedDatabase.Valid := by
  constructor <;> decide

theorem groupedDatabase_fresh : Fresh groupedLibrary groupedDatabase := by
  constructor <;> intros <;> rfl

def editorAccess : LibraryAccess :=
  ⟨groupedLibrary, some ⟨1, Int.zero_lt_one⟩, ⟨true, true, true, false⟩, false, false⟩

/-- An admin of the group stores an attachment that carries a tag. -/
def storeTaggedRequest : Request :=
  .guarded groupedLibrary (some 0) (.write .item
    [.object [("key", .string "FILE2345"), ("itemType", .string "attachment"),
      ("linkMode", .string "imported_file"), ("tags", .array [.object [("tag", .string "read")]])]]
    true fun _ _ => 0)

def taggedFileDatabase : Database := plainServer.after groupedDatabase 8 storeTaggedRequest

def noteMutation : Mutation :=
  .write .item [("if-unmodified-since-version", "1")]
    (some [.object [("key", .string "TEXT2345"), ("itemType", .string "note")]]) fun _ _ => 0

def groupNoteRequest : Request :=
  .guarded groupedLibrary (some 1) (.write .item
    [.object [("key", .string "TEXT2345"), ("itemType", .string "note")]] false fun _ _ => 0)

def untagMutation : Mutation :=
  .tagsDelete [("if-unmodified-since-version", "1")] [("tags", "read")]

def groupUntagRequest : Request := .guarded groupedLibrary (some 1) (.deleteTags ["read"])

def groupNoteDatabase : Database := plainServer.after taggedFileDatabase 8 groupNoteRequest

def untaggedFileDatabase : Database := plainServer.after taggedFileDatabase 8 groupUntagRequest

/-- The one request of a run that ends in its commit. -/
theorem only_commit {S : System Db} {es : List (Event S)} {r r' : S.Request} {a a' : S.Reply}
    {d d' d₁ d₁' : Database} (stmts : ∀ e ∈ es, ∃ q v, e = .stmt r q v)
    (he : .commit r' a' d₁ d₁' ∈ es ++ [.commit r a d d']) : r' = r := by
  rcases List.mem_append.mp he with old | new
  · obtain ⟨q, v, same⟩ := stmts _ old
    cases same
  · exact (Event.commit.inj (List.mem_singleton.mp new)).1

theorem group_file_policy_note : ∃ events events',
    Run (Session.idle groupedDatabase : Session plainServer Unit) events
      (Session.idle taggedFileDatabase) ∧
    Run (Session.idle taggedFileDatabase : Session plainServer Unit) events'
      (Session.idle groupNoteDatabase) ∧
    groupNoteDatabase.version groupedLibrary = 2 ∧
    groupNoteDatabase.object.find? (groupedLibrary, .item, "FILE2345") =
      taggedFileDatabase.object.find? (groupedLibrary, .item, "FILE2345") ∧
    ∀ key, groupNoteDatabase.file.find? (groupedLibrary, key) =
      taggedFileDatabase.file.find? (groupedLibrary, key) := by
  obtain ⟨es, a, store, -⟩ := Run.commits (S := plainServer) (s := groupedDatabase)
    (t := taggedFileDatabase) (r := storeTaggedRequest) () 8 rfl rfl (by constructor <;> decide)
  obtain ⟨es', a', note, stmts⟩ := Run.commits (S := plainServer) (s := taggedFileDatabase)
    (t := groupNoteDatabase) (r := groupNoteRequest) () 8 rfl rfl (by constructor <;> decide)
  have kept := group_file_policy store note (starts_idle groupedDatabase_valid)
    groupedDatabase_fresh
    (fun r b d d' he _ => only_commit stmts he ▸ ⟨editorAccess, noteMutation, rfl, rfl, rfl, rfl⟩)
    (fun expected tags b d d' he => nomatch only_commit stmts he)
  exact ⟨_, _, store, note, rfl, (kept.1 _ _ rfl).mpr rfl, kept.2⟩

/-- A member without the file permission deletes a tag, and the attachment that
carries it gets new data and a new version. -/
theorem group_file_policy_evaded : ∃ events events',
    Run (Session.idle groupedDatabase : Session plainServer Unit) events
      (Session.idle taggedFileDatabase) ∧
    Run (Session.idle taggedFileDatabase : Session plainServer Unit) events'
      (Session.idle untaggedFileDatabase) ∧
    (∀ r a d d', .commit r a d d' ∈ events' → WithoutFiles groupedLibrary r) ∧
    (taggedFileDatabase.object.find? (groupedLibrary, .item, "FILE2345")).map (fun o =>
      (o.version, isStoredFileAttachment o.data, o.data.tagNames)) = some (1, true, ["read"]) ∧
    (untaggedFileDatabase.object.find? (groupedLibrary, .item, "FILE2345")).map (fun o =>
      (o.version, isStoredFileAttachment o.data, o.data.tagNames)) = some (2, true, []) := by
  obtain ⟨es, a, store, -⟩ := Run.commits (S := plainServer) (s := groupedDatabase)
    (t := taggedFileDatabase) (r := storeTaggedRequest) () 8 rfl rfl (by constructor <;> decide)
  obtain ⟨es', a', untag, stmts⟩ := Run.commits (S := plainServer) (s := taggedFileDatabase)
    (t := untaggedFileDatabase) (r := groupUntagRequest) () 8 rfl rfl
    (by constructor <;> decide)
  refine ⟨_, _, store, untag, fun r b d d' he => ?_, by decide, by decide⟩
  exact only_commit stmts he ▸ ⟨editorAccess, untagMutation, rfl, rfl, rfl, rfl⟩

end Xotero
