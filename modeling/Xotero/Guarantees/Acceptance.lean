import Xotero.Guarantees.GeneratedKeys
import Xotero.Guarantees.WellFormed
import Xotero.Handlers.AuthorizationRun

/-!
Which posts the database accepts. PostgreSQL refuses the character U+0000 in
texts and in jsonb strings, and the checks of `pending_uploads` refuse rows; no
handler looks for either before its statements run.
-/

namespace Xotero

/-! ### The entries of a batch -/

/-- The texts of an entry that are stored: the store supplies `key` and
`version` of an object itself. -/
def entryStorable : Value → Bool
  | .object fields =>
      Value.membersStorable (fields.filter fun m => m.1 ≠ "key" && m.1 ≠ "version")
  | v => v.storable

def Parsed (provided : Value) : Prop := ∀ fields, provided = .object fields → Members.Once fields

section Entry
variable {L : LibraryId} {kind : ObjectKind} {n : Int} {d : Database} {key : String}
  {provided : Value}

theorem once_stampObject {ms fields : Members} (once : fields.Once)
    (h : stampObject key n (.object fields) = .object ms) : ms.Once := by
  cases h
  exact (once.insert _ _).insert _ _

theorem once_overlay {existing : Option Value} {fields ms : Members} (once : fields.Once)
    (stored : ∀ v, existing = some v → v.Stored)
    (h : overlay existing (.object fields) = .object ms) : ms.Once := by
  cases existing with
  | none =>
      cases h
      exact once
  | some v =>
      cases v with
      | object base =>
          cases h
          exact (Value.stored_object.mp (stored _ rfl)).1.once.insertAll fields
      | _ =>
          cases h
          exact once

/-- What is stored of an entry has the texts of the entry and of what was stored. -/
theorem storable_merged (typed : d.Typed) (text : storable key = true) (parsed : Parsed provided) :
    (d.merged L n kind key provided).storable = true ↔ entryStorable provided = true := by
  cases provided with
  | object fields =>
      have once : Members.Once fields := parsed fields rfl
      obtain ⟨ms, laid⟩ := isObject_overlay (d.stored L kind key) fields
      obtain ⟨stamped, same⟩ := @isObject_merged L kind n d key fields
      have stamp : stampObject key n (.object ms) = .object stamped :=
        (congrArg (stampObject key n) laid).symm.trans same
      have stamped_once : Members.Once stamped := once_stampObject
        (once_overlay once (fun v found => (typed.object L kind key v found).1) laid) stamp
      have get (name : String) : Members.get stamped name = _ :=
        (congrArg (fun v : Value => v.get name) same).symm.trans
          (@get_merged L kind n d key fields once name)
      rw [same, Value.storable, stamped_once.storable_iff, entryStorable,
        Value.membersStorable_iff]
      constructor
      · intro h m mem
        obtain ⟨mem, other⟩ := List.mem_filter.mp mem
        simp only [Bool.and_eq_true, decide_eq_true_eq] at other
        refine h m.1 m.2 ?_
        rw [get, if_neg other.2, if_neg other.1, once.get_eq_some.mpr mem, Option.some_or]
      · intro h name v got
        rw [get] at got
        split at got
        · rename_i version
          obtain rfl := Option.some.inj got
          exact ⟨version ▸ by decide, rfl⟩
        · split at got
          · rename_i named
            obtain rfl := Option.some.inj got
            exact ⟨named ▸ by decide, text⟩
          · rename_i other₁ other₂
            rcases Option.or_eq_some_iff.mp got with given | ⟨-, old⟩
            · exact h (name, v) (List.mem_filter.mpr ⟨mem_of_get given, by simp [other₁, other₂]⟩)
            · obtain ⟨base, found, has⟩ := Option.bind_eq_some_iff.mp old
              obtain ⟨-, texts⟩ := typed.object L kind key base found
              cases base with
              | object base =>
                  exact Value.membersStorable_iff.mp texts (name, v) (mem_of_get has)
              | _ => cases has
  | _ =>
      rw [merged_of_other (by simp [Value.asObject])]
      rfl

end Entry

/-! ### The loops -/

/-- The file policy of the caller forbids to store the entry. -/
def Database.denies (d : Database) (L : LibraryId) (kind : ObjectKind) (n : Int) (allow : Bool)
    (e : String × Value) : Bool :=
  kind = .item && !allow && ((d.stored L kind e.1).any isStoredFileAttachment ||
    isStoredFileAttachment (d.merged L n kind e.1 e.2))

/-- The texts of every entry up to the first that is denied are storable. -/
def Database.TakesBatch (L : LibraryId) (kind : ObjectKind) (n : Int) (allow : Bool) :
    Database → List (String × Value) → Prop
  | _, [] => True
  | d, e :: es => d.denies L kind n allow e = true ∨
      entryStorable e.2 = true ∧ TakesBatch L kind n allow (d.edit L n (.store kind e.1 e.2)) es

section Loops
variable {L : LibraryId} {kind : ObjectKind} {n : Int} {d : Database}

theorem writeObject_eq {allow : Bool} {e : String × Value} (text : storable e.1 = true) :
    (writeObject L kind allow n e.1 e.2).run d =
      if d.denies L kind n allow e = true then some (d, none)
      else if (d.merged L n kind e.1 e.2).storable = true then
        some (d.edit L n (.store kind e.1 e.2), some (d.merged L n kind e.1 e.2))
      else none := by
  have taken (q : Sql) (same : q.accepted = storable e.1) : q.accepted = true := same.trans text
  rw [writeObject, execute_bind_eq, if_pos (taken _ rfl)]
  change Txn.run (D := Db) (if d.denies L kind n allow e = true then _ else _) d = _
  split
  · rfl
  · rw [execute_bind_eq]
    have accepted : (Sql.upsertObject L kind e.1 n (d.merged L n kind e.1 e.2)).accepted =
        (d.merged L n kind e.1 e.2).storable := by
      rw [Sql.accepted, text, Bool.true_and]
    change (if (Sql.upsertObject L kind e.1 n (d.merged L n kind e.1 e.2)).accepted = true
      then _ else _) = _
    rw [accepted]
    split
    · have drops : (kind = .item && !((d.stored L kind e.1).any isStoredFileAttachment &&
          isStoredFileAttachment (d.merged L n kind e.1 e.2))) = !d.keepsFile L n kind e.1 e.2 :=
        (Bool.not_not _).symm
      change Txn.run (D := Db) (Txn.when (kind = .item &&
        !((d.stored L kind e.1).any isStoredFileAttachment &&
          isStoredFileAttachment (d.merged L n kind e.1 e.2)))
            (execute (.deleteFile L e.1)) >>= _) _ = _
      rw [drops]
      cases keeps : d.keepsFile L n kind e.1 e.2 with
      | true =>
          change Txn.run (D := Db) (execute (.deleteDeletion L (.object kind) e.1) >>= _) _ = _
          rw [execute_bind_eq, if_pos (taken _ rfl)]
          simp only [Database.edit, keeps, if_true]
          rfl
      | false =>
          change Txn.run (D := Db) (execute (.deleteFile L e.1) >>= _) _ = _
          rw [execute_bind_eq, if_pos (taken _ rfl)]
          change Txn.run (D := Db) (execute (.deleteDeletion L (.object kind) e.1) >>= _) _ = _
          rw [execute_bind_eq, if_pos (taken _ rfl)]
          simp only [Database.edit, keeps, Bool.false_eq_true, if_false]
          rfl
    · rfl

/-- The loop runs to its end exactly when the database takes the batch. -/
theorem writeFrom_ends {allow : Bool} {random : Nat → Fin 8 → UInt8} {index : Nat}
    {batch : List Value} {successful : Members} (typed : d.Typed)
    (texts : ∀ e ∈ keyed random index batch, storable e.1 = true)
    (parsed : ∀ provided ∈ batch, Parsed provided) :
    (∃ r, (writeFrom L kind allow random n index batch successful).run d = some r) ↔
      d.TakesBatch L kind n allow (keyed random index batch) := by
  induction batch generalizing d index successful with
  | nil => exact ⟨fun _ => trivial, fun _ => ⟨_, rfl⟩⟩
  | cons provided batch ih =>
      have text := texts (providedKey provided (random index), provided) (by simp [keyed])
      have entry := @writeObject_eq L kind n d allow
        (providedKey provided (random index), provided) text
      have storable := @storable_merged L kind n d _ provided typed text (parsed provided (by simp))
      rw [writeFrom, Txn.run_bind, entry, keyed, Database.TakesBatch]
      by_cases denied : d.denies L kind n allow
        (providedKey provided (random index), provided) = true
      · rw [if_pos denied]
        exact ⟨fun _ => .inl denied, fun _ => ⟨_, rfl⟩⟩
      · rw [if_neg denied]
        by_cases texts' : (d.merged L n kind (providedKey provided (random index))
          provided).storable = true
        · rw [if_pos texts']
          refine (ih (typed_store typed texts')
            (fun e mem => texts e (List.mem_cons_of_mem _ mem))
            fun p mem => parsed p (List.mem_cons_of_mem _ mem)).trans ?_
          exact ⟨fun rest => .inr ⟨storable.mp texts', rest⟩,
            fun h => (h.resolve_left denied).2⟩
        · rw [if_neg texts']
          refine ⟨fun h => ?_, fun h => ?_⟩
          · obtain ⟨r, ⟨⟩⟩ := h
          · exact absurd (storable.mpr (h.resolve_left denied).1) texts'

/-- The settings are taken when their names and values are. -/
theorem writeSettingsFrom_ends {entries : Members} :
    (∃ r, (writeSettingsFrom L n entries).run d = some r) ↔
      ∀ m ∈ entries, storable m.1 = true ∧ (settingValue m.2).storable = true := by
  induction entries generalizing d with
  | nil => exact ⟨fun _ _ mem => (nomatch mem), fun _ => ⟨_, rfl⟩⟩
  | cons m entries ih =>
      have accepted : (Sql.upsertSetting L m.1 n (settingValue m.2)).accepted = true ↔
          storable m.1 = true ∧ (settingValue m.2).storable = true := Bool.and_eq_true_iff
      rw [writeSettingsFrom, execute_bind_eq, List.forall_mem_cons, ← accepted]
      split
      · rename_i taken
        exact ih.trans ⟨fun rest => ⟨taken, rest⟩, And.right⟩
      · rename_i refused
        exact ⟨fun h => (nomatch h.choose_spec), fun h => absurd h.1 refused⟩

/-- The content of a full text. -/
def fulltextContent (item : Value) : String := (fulltextRow item 0).content

theorem writeFulltextFrom_ends {index : Nat} {batch : List Value} {successful : Members} :
    (∃ r, (writeFulltextFrom L n index batch successful).run d = some r) ↔
      ∀ item ∈ batch, storable (fulltextKey item) = true ∧
        storable (fulltextContent item) = true := by
  induction batch generalizing d index successful with
  | nil => exact ⟨fun _ _ mem => (nomatch mem), fun _ => ⟨_, rfl⟩⟩
  | cons item batch ih =>
      have accepted : (Sql.upsertFulltext L (fulltextKey item) (fulltextRow item n)).accepted =
          true ↔ storable (fulltextKey item) = true ∧ storable (fulltextContent item) = true :=
        Bool.and_eq_true_iff
      rw [writeFulltextFrom, execute_bind_eq, List.forall_mem_cons, ← accepted]
      split
      · rename_i taken
        exact ih.trans ⟨fun rest => ⟨taken, rest⟩, And.right⟩
      · rename_i refused
        exact ⟨fun h => (nomatch h.choose_spec), fun h => absurd h.1 refused⟩

end Loops

/-! ### The guarded requests -/

/-- The database takes every statement the request runs to, and what it commits
satisfies the constraints. -/
def Answered (digests : Digests) (config : Config) (r : Request) (d : Database) : Prop :=
  ∃ d' e, (r.program digests config).run d = some (d', e) ∧ ∀ a, e = .commit a → d'.Valid

section Guard
variable {L : LibraryId} {d : Database}

theorem endingWith_ends {α : Type} {f : α → Reply} {p : Txn Db (Ending α)} :
    (∃ r, (endingWith f p).run d = some r) ↔ ∃ r, p.run d = some r := by
  rw [endingWith_eq]
  cases p.run d with
  | none => simp
  | some r => exact ⟨fun _ => ⟨_, rfl⟩, fun _ => ⟨_, rfl⟩⟩

theorem noChange_ends {β : Type} {f : Outcome Int → Txn Db (Ending β)} {expected : Option Int}
    (known : (d.library.find? L).isSome) (drops : ∀ o, ∃ b, f o = pure (.drop b)) :
    ∃ r, (noChange L expected >>= f).run d = some r := by
  obtain ⟨row, found⟩ := Option.isSome_iff_exists.mp known
  rw [Txn.run_bind, noChange_eq, found]
  obtain ⟨b, hb⟩ := drops (if expected.any (· ≠ row.version) then .conflict row.version
    else .done row.version)
  exact ⟨(d, .drop b), by rw [Option.map_some, Option.bind_some, hb]; rfl⟩

/-- Alone, an operation is answered when its program ends: what it commits are its
edits. -/
theorem guarded_answered {digests : Digests} {config : Config} {expected : Option Int}
    {op : GuardedOp} (valid : d.Valid) (known : (d.library.find? L).isSome)
    (each : ∀ n, ∀ e ∈ op.edits, ∀ d : Database, d.Valid → (d.library.find? L).isSome →
      (d.edit L n e).Valid) :
    Answered digests config (.guarded L expected op) d ↔
      ∃ r, (op.program L expected).run d = some r := by
  constructor
  · rintro ⟨d', e, run, -⟩
    exact ⟨(d', e), run⟩
  · rintro ⟨⟨d', e⟩, run⟩
    refine ⟨d', e, run, ?_⟩
    rintro a rfl
    obtain ⟨committed, -, -⟩ := guarded_run run
    rw [committed.after]
    exact valid_edits (valid_setVersion valid) (by rwa [isSome_setVersion]) (each _)

end Guard

section Authorize
variable {digests : Digests} {access : LibraryAccess} {d : Database} {r : AuthorizeRequest}

/-- An authorization is answered when it is refused before the insert, or its row
passes the checks of the table. -/
theorem authorizeUpload_answered {config : Config} (valid : d.Valid) (typed : d.Typed)
    (known : (d.library.find? access.libraryId).isSome) (ready : r.Ready digests access d) :
    Answered digests config (.authorizeUpload r) d ↔ (r.Reaches d → r.Storable) := by
  have known : (d.library.find? r.access.libraryId).isSome := ready.caller ▸ known
  by_cases reaches : r.Reaches d
  · obtain ⟨token, candidateId, drawn, candidate, text, new, apart⟩ := ready.drawn
    have run := @authorizeUpload_eq digests d r
    rw [if_pos reaches.key, if_pos reaches.precondition, if_pos reaches.attachment,
      rest_inserts reaches.zip reaches.proceed drawn candidate (ready.sha256 token) new] at run
    have checks := upload_checked ready typed reaches.key text
    simp only [Answered, Request.program, endingWith_eq, run]
    constructor
    · rintro ⟨d', e, ends, -⟩ -
      by_contra refused
      rw [if_neg fun checked => refused (checks.mp checked)] at ends
      cases ends
    · intro storable
      have checked := checks.mpr (storable reaches)
      rw [if_pos checked]
      refine ⟨_, _, rfl, fun _ _ => valid_createPendingUpload valid known ?_ ?_
        (ready.sha256 token) checked ?_⟩
      · exact fun g mem => ready.group g (ready.caller ▸ mem)
      · intro u mem
        simp only [AuthorizeRequest.upload, Option.mem_def] at mem
        split at mem
        · obtain rfl := Option.some.inj mem
          exact ready.user
        · cases mem
      · rw [← ready.caller] at apart
        exact apart
  · refine ⟨fun _ reached => absurd reached reaches, fun _ => ?_⟩
    obtain ⟨o, run⟩ : ∃ o, (authorizeUpload digests r).run d = some (d, .drop o) := by
      rw [authorizeUpload_eq]
      split
      · rename_i key
        split
        · rename_i precondition
          split
          · rename_i attachment
            exact rest_refused known fun rest =>
              reaches ⟨key, precondition, attachment, rest.1, rest.2⟩
          · exact ⟨_, rfl⟩
        · exact ⟨_, rfl⟩
      · exact ⟨_, rfl⟩
    refine ⟨d, .drop (.authorization o), by rw [Request.program, endingWith_eq, run]; rfl,
      fun a same => ?_⟩
    cases same

end Authorize

/-! ### Posts -/

/-- A request with a body or a form; a body is what `serde_json` makes of it. -/
inductive Post where
  | objects (kind : ObjectKind) (body : Option (List Value)) (random : Nat → Fin 8 → UInt8)
  | settings (body : Option Value)
  | fulltext (body : Option (List Value))
  | authorization (r : AuthorizeRequest)

def Post.request (access : LibraryAccess) (headers : Params) : Post → Except Refusal Request
  | .objects kind body random => Handlers.write access kind headers body random
  | .settings body => Handlers.settingsWrite access headers body
  | .fulltext body => Handlers.fulltextWrite access headers body
  | .authorization r => .ok (.authorizeUpload r)

/-- The parser builds no object with a name twice. -/
def Post.Parsed : Post → Prop
  | .objects _ body _ => ∀ batch ∈ body, ∀ provided ∈ batch, Xotero.Parsed provided
  | _ => True

/-- The caller knows the library and its version. -/
def Post.Current (digests : Digests) (access : LibraryAccess) (headers : Params) (d : Database) :
    Post → Prop
  | .authorization r => (d.library.find? access.libraryId).isSome ∧ r.Ready digests access d
  | _ => (d.library.find? access.libraryId).isSome ∧
      ifUnmodified headers = some (d.version access.libraryId)

/-- The handler refuses the request, or the database is sent nothing it rejects. -/
def Post.Answered (digests : Digests) (config : Config) (access : LibraryAccess)
    (headers : Params) (d : Database) (p : Post) : Prop :=
  ∀ r, p.request access headers = .ok r → Xotero.Answered digests config r d

/-- What reaches the database has no U+0000, and no negative size. -/
def Post.Clean (access : LibraryAccess) (d : Database) : Post → Prop
  | .objects kind body random => ∀ batch ∈ body, (givenKeys batch).all validObjectKey = true →
      d.TakesBatch access.libraryId kind (d.version access.libraryId + 1)
        access.allowStoredFileWrite (keyed random 0 batch)
  | .settings body => ∀ fields, body = some (.object fields) →
      Handlers.groupAdminSettingDenied access (fields.map fun m => m.1) = false →
        ∀ m ∈ fields, storable m.1 = true ∧ (settingValue m.2).storable = true
  | .fulltext body => ∀ batch ∈ body, ∀ item ∈ batch,
      storable (fulltextKey item) = true ∧ storable (fulltextContent item) = true
  | .authorization r => r.Reaches d → r.Storable

section Posts
variable {digests : Digests} {config : Config} {access : LibraryAccess} {headers : Params}
  {d : Database}

/-- Whether a batch is taken depends on the stored objects alone. -/
theorem takesBatch_congr {L : LibraryId} {kind : ObjectKind} {n : Int} {allow : Bool}
    {d d' : Database} (same : d.object = d'.object) (es : List (String × Value)) :
    d.TakesBatch L kind n allow es ↔ d'.TakesBatch L kind n allow es := by
  induction es generalizing d d' with
  | nil => exact Iff.rfl
  | cons e es ih =>
      have merged : d.merged L n kind e.1 e.2 = d'.merged L n kind e.1 e.2 := by
        rw [Database.merged, Database.merged, same]
      have denies : d.denies L kind n allow e = d'.denies L kind n allow e := by
        rw [Database.denies, Database.denies, merged, Database.stored, Database.stored, same]
      have after : (d.edit L n (.store kind e.1 e.2)).object =
          (d'.edit L n (.store kind e.1 e.2)).object := by
        rw [Database.edit, Database.edit, merged, same]
      rw [Database.TakesBatch, Database.TakesBatch, denies, ih after]

theorem storable_of_valid_key {key : String} (valid : validObjectKey key = true) :
    storable key = true := by
  have letters : objectKeyAlphabet.all fun c => c.toNat ≠ 0 := by decide
  simp only [validObjectKey, Bool.and_eq_true, List.all_eq_true] at valid
  exact List.all_eq_true.mpr fun c mem =>
    List.all_eq_true.mp letters c (List.contains_iff_mem.mp (valid.2 c mem))

theorem objects_answered {kind : ObjectKind} {batch : List Value} {random : Nat → Fin 8 → UInt8}
    (valid : d.Valid) (typed : d.Typed) (known : (d.library.find? access.libraryId).isSome)
    (parsed : ∀ provided ∈ batch, Parsed provided)
    (keys : (givenKeys batch).all validObjectKey = true) :
    Answered digests config (.guarded access.libraryId (some (d.version access.libraryId))
      (.write kind batch access.allowStoredFileWrite random)) d ↔
        d.TakesBatch access.libraryId kind (d.version access.libraryId + 1)
          access.allowStoredFileWrite (keyed random 0 batch) := by
  have texts : ∀ e ∈ keyed random 0 batch, storable e.1 = true := fun e mem =>
    storable_of_valid_key (valid_keyed (List.all_eq_true.mp keys) e mem)
  have each : ∀ n, ∀ edit ∈ (GuardedOp.write kind batch access.allowStoredFileWrite random).edits,
      ∀ d : Database, d.Valid → (d.library.find? access.libraryId).isSome →
        (d.edit access.libraryId n edit).Valid := by
    intro n edit mem d valid known
    rw [GuardedOp.edits, storeEdits_eq] at mem
    obtain ⟨e, here, rfl⟩ := List.mem_map.mp mem
    exact valid_store valid known (texts e here)
  rw [guarded_answered valid known each, GuardedOp.program, endingWith_ends, write]
  cases batch with
  | nil => exact ⟨fun _ => trivial, fun _ => noChange_ends known fun o => by
      cases o <;> exact ⟨_, rfl⟩⟩
  | cons provided batch =>
      rw [if_neg (by simp), Txn.run_bind, guardedVersion_current known]
      exact (writeFrom_ends (typed_setVersion typed) texts parsed).trans
        (takesBatch_congr (Database.setVersion_object d _ _) _)

theorem settings_answered {body : Value} (valid : d.Valid)
    (known : (d.library.find? access.libraryId).isSome) :
    Answered digests config (.guarded access.libraryId (some (d.version access.libraryId))
      (.writeSettings body)) d ↔
        ∀ m ∈ body.asObject.getD [], storable m.1 = true ∧ (settingValue m.2).storable = true := by
  have each : ∀ n, ∀ edit ∈ (GuardedOp.writeSettings body).edits, ∀ d : Database, d.Valid →
      (d.library.find? access.libraryId).isSome → (d.edit access.libraryId n edit).Valid := by
    intro n edit mem d valid known
    obtain ⟨m, -, rfl⟩ := List.mem_map.mp mem
    exact valid_storeSetting valid known m.1 m.2
  rw [guarded_answered valid known each, GuardedOp.program, endingWith_ends, writeSettings]
  by_cases empty : body.asObject.all List.isEmpty = true
  · have none : body.asObject.getD [] = [] := by
      cases same : body.asObject with
      | none => rfl
      | some fields => simpa [same] using empty
    rw [if_pos empty, none]
    exact ⟨fun _ _ mem => (nomatch mem), fun _ => noChange_ends known fun o => ⟨_, rfl⟩⟩
  · rw [if_neg empty, Txn.run_bind, guardedVersion_current known]
    exact writeSettingsFrom_ends

theorem fulltext_answered {batch : List Value} (valid : d.Valid)
    (known : (d.library.find? access.libraryId).isSome) :
    Answered digests config (.guarded access.libraryId (some (d.version access.libraryId))
      (.writeFulltext batch)) d ↔
        ∀ item ∈ batch, storable (fulltextKey item) = true ∧
          storable (fulltextContent item) = true := by
  have each : ∀ n, ∀ edit ∈ (GuardedOp.writeFulltext batch).edits, ∀ d : Database, d.Valid →
      (d.library.find? access.libraryId).isSome → (d.edit access.libraryId n edit).Valid := by
    intro n edit mem d valid known
    obtain ⟨item, -, rfl⟩ := List.mem_map.mp mem
    exact valid_storeText valid known item
  rw [guarded_answered valid known each, GuardedOp.program, endingWith_ends, writeFulltext]
  cases batch with
  | nil => exact ⟨fun _ _ mem => (nomatch mem), fun _ => noChange_ends known fun o => by
      cases o <;> exact ⟨_, rfl⟩⟩
  | cons item batch =>
      rw [if_neg (by simp), Txn.run_bind, guardedVersion_current known]
      exact writeFulltextFrom_ends

theorem keys_checked {batch : List Value} :
    (batch.filterMap fun o => (o.get "key").bind Value.asStr).find?
        (fun key => !validObjectKey key) = none ↔
      (givenKeys batch).all validObjectKey = true := by
  show (givenKeys batch).find? _ = none ↔ _
  simp only [List.find?_eq_none, List.all_eq_true, Bool.not_eq_true', Bool.not_eq_false]

theorem write_made {kind : ObjectKind} {batch : List Value} {random : Nat → Fin 8 → UInt8}
    {version : Int} (keys : (givenKeys batch).all validObjectKey = true)
    (current : ifUnmodified headers = some version) :
    (Post.objects kind (some batch) random).request access headers =
      .ok (.guarded access.libraryId (some version)
        (.write kind batch access.allowStoredFileWrite random)) := by
  simp only [Post.request, Handlers.write, keys_checked.mpr keys, precondition, current]
  rfl

theorem write_refused {kind : ObjectKind} {batch : List Value} {random : Nat → Fin 8 → UInt8}
    (keys : ¬ (givenKeys batch).all validObjectKey = true) :
    ∃ refusal, (Post.objects kind (some batch) random).request access headers =
      .error refusal := by
  rw [Post.request, Handlers.write]
  split
  · exact ⟨_, rfl⟩
  · rename_i checked
    exact absurd (keys_checked.mp checked) keys

theorem answered_of_made {p : Post} {r : Request} (made : p.request access headers = .ok r) :
    p.Answered digests config access headers d ↔ Answered digests config r d := by
  refine ⟨fun h => h r made, fun h r' same => ?_⟩
  rw [made] at same
  exact Except.ok.inj same ▸ h

theorem answered_of_refused {p : Post} {refusal : Refusal}
    (refused : p.request access headers = .error refusal) :
    p.Answered digests config access headers d := by
  intro r same
  rw [refused] at same
  cases same

end Posts

/-! ### Inputs that are and are not answered -/

def textPost (text : String) : Post :=
  .objects .item (some [.object [("key", .string "TEXT2345"), ("note", .string text)]]) fun _ _ => 0

end Xotero
