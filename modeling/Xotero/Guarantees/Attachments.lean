import Xotero.Guarantees.Consistency
import Xotero.Guarantees.Registration
import Xotero.Store.Entries

/-!
A file lives as long as one attachment: every registered file belongs to a
stored-file attachment with the same key, goes when that identity ends, and is
described by the attachment's data until a write describes it otherwise.
-/

namespace Xotero

open Session (Run)

/-! ### Stored-file attachments under the edits -/

section Values
variable {n : Int} {key : String}

theorem isStoredFileAttachment_congr {v v' : Value}
    (itemType : v.get "itemType" = v'.get "itemType")
    (linkMode : v.get "linkMode" = v'.get "linkMode") :
    isStoredFileAttachment v = isStoredFileAttachment v' := by
  simp only [isStoredFileAttachment, itemType, linkMode]

/-- A stored-file attachment is an object. -/
theorem object_of_isStoredFileAttachment {v : Value} (h : isStoredFileAttachment v = true) :
    ∃ ms, v = .object ms := by
  cases v with
  | object ms => exact ⟨ms, rfl⟩
  | _ => simp [isStoredFileAttachment, Value.get] at h

theorem isStoredFileAttachment_withoutTag (data : Value) (tag : String) :
    isStoredFileAttachment (Database.withoutTag data tag) = isStoredFileAttachment data :=
  isStoredFileAttachment_congr (get_withoutTag data tag (by decide))
    (get_withoutTag data tag (by decide))

theorem isStoredFileAttachment_fileStamp (data : Value) (md5 filename : String) (mtime : Int) :
    isStoredFileAttachment (data.concat (.object (fileStamp n md5 mtime filename))) =
      isStoredFileAttachment data := by
  cases data with
  | object ms =>
      refine isStoredFileAttachment_congr ?_ ?_ <;>
        simp [Value.concat, Members.get_concat, fileStamp, Members.get]
  | _ => rfl

/-- A member that is not provided is taken from the stored object. -/
theorem get_overlay {base fields : Members} {name : String}
    (absent : Members.get fields name = none) :
    Members.get (fields.foldl (fun base field => Members.insert field.1 field.2 base) base) name =
      base.get name := by
  induction fields generalizing base with
  | nil => rfl
  | cons m fields ih =>
      obtain ⟨m, v⟩ := m
      have ne : m ≠ name := by
        rintro rfl
        simp [Members.get] at absent
      rw [List.foldl_cons, ih (by simpa [Members.get, ne] using absent), Members.get_insert,
        if_neg ne]

theorem get_stampOverlay {base fields : Members} {name : String}
    (absent : Members.get fields name = none) (other : name ≠ "version" ∧ name ≠ "key") :
    (stampObject key n (overlay (some (.object base)) (.object fields))).get name =
      base.get name := by
  have whole := get_stampObject key n (overlay (some (.object base)) (.object fields)) rfl name
  rw [whole, if_neg other.1, if_neg other.2, get_overlay absent]

end Values

namespace Entry
variable {n : Int} {key : String} {x : Entry}

/-- Only an entry of a write or a deletion decides whether the key is an attachment. -/
theorem attachment_on {e : Edit} (store : ∀ provided, e ≠ .store .item key provided)
    (remove : e ≠ .remove .item key) : (e.on n key x).attachment = x.attachment := by
  cases e with
  | store kind key' provided =>
      cases kind with
      | item =>
          rw [Edit.on, if_neg]
          rintro rfl
          exact store provided rfl
      | collection | search => rfl
  | remove kind key' =>
      cases kind with
      | item =>
          rw [Edit.on, if_neg]
          rintro rfl
          exact remove rfl
      | collection | search => rfl
  | removeTag tag =>
      simp only [Edit.on, attachment, Option.map_map]
      cases x.item with
      | none => rfl
      | some o =>
          simp only [Option.map_some, Option.any_some, Function.comp_apply]
          split
          · exact isStoredFileAttachment_withoutTag o.data tag
          · rfl
  | register key' upload =>
      rw [Edit.on]
      split
      · simp only [attachment, Option.map_map]
        cases x.item with
        | none => rfl
        | some o => exact isStoredFileAttachment_fileStamp o.data _ _ _
      · rfl
  | storeText item =>
      rw [Edit.on]
      split <;> rfl
  | storeSetting | removeSetting => rfl

theorem attachment_store (provided : Value) :
    (Edit.on n key x (.store .item key provided)).attachment =
    isStoredFileAttachment (x.merged n key provided) := by
  simp [Edit.on, attachment, isStoredFileAttachment_toJsonb]

theorem attachment_remove : (Edit.on n key x (.remove .item key)).attachment = false := by
  simp [Edit.on, attachment]

/-- What an edit leaves of the file row. -/
theorem file_on {e : Edit} (register : ∀ upload, e ≠ .register key upload) {f : File}
    (found : (e.on n key x).file = some f) :
    x.file = some f ∧ (x.attachment = true → (e.on n key x).attachment = true) := by
  by_cases store : ∃ provided, e = .store .item key provided
  · obtain ⟨provided, rfl⟩ := store
    rw [attachment_store]
    simp only [Edit.on, if_true, Option.ite_none_right_eq_some, Bool.and_eq_true] at found
    exact ⟨found.2, fun _ => found.1.2⟩
  · by_cases remove : e = .remove .item key
    · subst remove
      simp [Edit.on] at found
    · rw [attachment_on (fun provided same => store ⟨provided, same⟩) remove]
      refine ⟨?_, id⟩
      cases e with
      | store kind key' provided =>
          cases kind with
          | item =>
              rwa [Edit.on, if_neg fun same : key' = key => store ⟨provided, same ▸ rfl⟩] at found
          | collection | search => exact found
      | remove kind key' =>
          cases kind with
          | item => rwa [Edit.on, if_neg fun same : key' = key => remove (same ▸ rfl)] at found
          | collection | search => exact found
      | register key' upload =>
          rwa [Edit.on, if_neg fun same : key' = key => register upload (same ▸ rfl)] at found
      | storeText item =>
          rw [Edit.on] at found
          split at found <;> exact found
      | removeTag | storeSetting | removeSetting => exact found

/-- A file belongs to a stored-file attachment. -/
def Owned (x : Entry) : Prop := x.file.isSome → x.attachment = true

theorem Owned.on (h : x.Owned) {e : Edit} (register : ∀ upload, e = .register key upload →
    x.attachment = true) : (e.on n key x).Owned := by
  intro some
  obtain ⟨f, found⟩ := Option.isSome_iff_exists.mp some
  by_cases registers : ∃ upload, e = .register key upload
  · obtain ⟨upload, rfl⟩ := registers
    rw [attachment_on (e := .register key upload) (fun _ => nofun) nofun]
    exact register upload rfl
  · obtain ⟨before, stays⟩ := file_on (fun upload same => registers ⟨upload, same⟩) found
    exact stays (h (Option.isSome_of_eq_some before))

/-- The members that describe a file in the data of its attachment. -/
def fileMembers : List String := ["md5", "mtime", "filename"]

/-- The data of the item describes the file. -/
def Described (x : Entry) : Prop := ∀ f, x.file = some f → ∃ o, x.item = some o ∧
  o.data.get "md5" = some (.string f.md5) ∧ o.data.get "mtime" = some (.ofInt f.mtime) ∧
  o.data.get "filename" = some (.string f.filename)

/-- While a file stays, its description changes only where an edit names it. -/
theorem get_on {e : Edit} {o : Object} {name : String} {v : Value} (item : x.item = some o)
    (value : o.data.get name = some v) (stable : v.toJsonb = v) (member : name ∈ fileMembers)
    (owned : x.Owned) (kept : (e.on n key x).file.isSome)
    (register : ∀ upload, e ≠ .register key upload)
    (store : ∀ provided, e = .store .item key provided → provided.get name = none) :
    ∃ o', (e.on n key x).item = some o' ∧ o'.data.get name = some v := by
  obtain ⟨f, found⟩ := Option.isSome_iff_exists.mp kept
  obtain ⟨before, stays⟩ := file_on register found
  have attached := owned (Option.isSome_of_eq_some before)
  cases e with
  | store kind key' provided =>
      cases kind with
      | item =>
          by_cases same : key' = key
          · subst same
            have stored := stays attached
            rw [attachment_store] at stored
            simp only [Edit.on, if_true]
            refine ⟨_, rfl, ?_⟩
            rw [Value.get_toJsonb]
            simp only [Entry.merged, item, Option.map_some] at stored ⊢
            have absent := store provided rfl
            have base : isStoredFileAttachment o.data = true := by
              simpa [attachment, item] using attached
            obtain ⟨ms, data⟩ := object_of_isStoredFileAttachment base
            have other : name ≠ "version" ∧ name ≠ "key" := by
              simp only [fileMembers, List.mem_cons, List.not_mem_nil, or_false] at member
              rcases member with rfl | rfl | rfl <;> decide
            rw [data] at stored value ⊢
            cases provided with
            | object fields =>
                rw [get_stampOverlay absent other, ← Value.get_object, value, Option.map_some,
                  stable]
            | _ => simp [overlay, stampObject, isStoredFileAttachment, Value.get] at stored
          · rw [Edit.on, if_neg same]
            exact ⟨o, item, value⟩
      | collection | search => exact ⟨o, item, value⟩
  | remove kind key' =>
      cases kind with
      | item =>
          rw [Edit.on]
          split
          · rename_i same
            simp [Edit.on, same] at found
          · exact ⟨o, item, value⟩
      | collection | search => exact ⟨o, item, value⟩
  | removeTag tag =>
      simp only [Edit.on, item, Option.map_some]
      refine ⟨_, rfl, ?_⟩
      split
      · have other : name ≠ "tags" := by
          rintro rfl
          simp [fileMembers] at member
        rw [get_withoutTag o.data tag other, value]
      · exact value
  | register key' upload =>
      rw [Edit.on, if_neg fun same : key' = key => register upload (same ▸ rfl)]
      exact ⟨o, item, value⟩
  | storeText text =>
      rw [Edit.on]
      split <;> exact ⟨o, item, value⟩
  | storeSetting | removeSetting => exact ⟨o, item, value⟩

/-- A registration writes the description of its file into the attachment. -/
theorem described_register (attached : x.attachment = true) (upload : PendingUpload) :
    (Edit.on n key x (.register key upload)).Described := by
  intro f found
  cases item : x.item with
  | none => simp [attachment, item] at attached
  | some o =>
      obtain ⟨ms, data⟩ := object_of_isStoredFileAttachment (v := o.data)
        (by simpa [attachment, item] using attached)
      simp only [Edit.on, if_true, item, Option.map_some, Option.some.injEq] at found ⊢
      subst found
      refine ⟨_, rfl, ?_⟩
      simp [data, Value.concat, Members.get_concat, fileStamp, Members.get, registeredFile]

theorem Described.on (h : x.Described) (owned : x.Owned) {e : Edit}
    (attached : ∀ upload, e = .register key upload → x.attachment = true)
    (store : ∀ provided, e = .store .item key provided →
      ∀ name ∈ fileMembers, provided.get name = none) : (e.on n key x).Described := by
  by_cases registers : ∃ upload, e = .register key upload
  · obtain ⟨upload, rfl⟩ := registers
    exact described_register (attached upload rfl) upload
  · have register : ∀ upload, e ≠ .register key upload :=
      fun upload same => registers ⟨upload, same⟩
    intro f found
    obtain ⟨o, item, md5, mtime, filename⟩ := h f (file_on register found).1
    have kept (name : String) (v : Value) (member : name ∈ fileMembers)
        (value : o.data.get name = some v) (stable : v.toJsonb = v) :=
      get_on item value stable member owned (Option.isSome_of_eq_some found) register
        fun provided same => store provided same name member
    obtain ⟨o', item', md5'⟩ := kept "md5" _ (by decide) md5 rfl
    obtain ⟨o₂, item₂, mtime'⟩ := kept "mtime" _ (by decide) mtime rfl
    obtain ⟨o₃, item₃, filename'⟩ := kept "filename" _ (by decide) filename rfl
    obtain rfl := Option.some.inj (item'.symm.trans item₂)
    obtain rfl := Option.some.inj (item'.symm.trans item₃)
    exact ⟨o', item', md5', mtime', filename'⟩

end Entry

/-! ### The entries of a batch -/

theorem register_not_mem_edits {op : GuardedOp} {key : String} {upload : PendingUpload} :
    .register key upload ∉ op.edits := by
  cases op with
  | write kind batch allow random =>
      intro h
      obtain ⟨key', provided, same⟩ := mem_storeEdits h
      cases same
  | delete | writeSettings | deleteSettings | deleteTags | writeFulltext =>
      simp [GuardedOp.edits]

/-- The request is an item write with the entry `provided` for `key`. -/
def Request.Stores (L : LibraryId) (key : String) (provided : Value) (r : Request) : Prop :=
  ∃ expected batch allow random, r = .guarded L expected (.write .item batch allow random) ∧
    .store .item key provided ∈ storeEdits .item random 0 batch

theorem stores_of_mem_edits {op : GuardedOp} {L : LibraryId} {expected : Option Int} {key : String}
    {provided : Value} (h : .store .item key provided ∈ op.edits) :
    Request.Stores L key provided (.guarded L expected op) := by
  cases op with
  | write kind batch allow random =>
      obtain ⟨key', provided', same⟩ := mem_storeEdits h
      obtain ⟨rfl, -, -⟩ := Edit.store.inj same
      exact ⟨expected, batch, allow, random, rfl, h⟩
  | delete | writeSettings | deleteSettings | deleteTags | writeFulltext =>
      simp [GuardedOp.edits] at h

/-! ### Runs -/

section Run
variable {digests : Digests} {config : Config} {ι : Type} [DecidableEq ι]
  {σ₀ σ : Session (server digests config) ι} {events : List (Event (server digests config))}
  {L : LibraryId} {key : String} {d d' : Database} {e : Event (server digests config)}

/-- What a change keeps of the rows of one key. -/
theorem Change.keeps {I : Entry → Prop} (h : Change L e d d') (init : I (d.entry L key))
    (guarded : ∀ expected op a, e = .commit (.guarded L expected op) a d d' →
      ∀ n, ∀ x ∈ op.edits, ∀ y, I y → I (x.on n key y))
    (registered : ∀ upload n, Registers L key e → d.attachment L key = true →
      I (Edit.on n key (d.entry L key) (.register key upload))) : I (d'.entry L key) := by
  cases h with
  | @guarded expected op a _ _ committed =>
      rw [committed.entry]
      exact Entry.after_keeps (guarded expected op a rfl _) init
  | @registered _ key' upload _ _ registers item after =>
      rw [← after.entry, edit_entry, entry_setVersion]
      by_cases same : key' = key
      · subst same
        exact registered upload _ registers item
      · rwa [Edit.on, if_neg same]
  | apart same _ => rwa [← same.entry]

theorem Change.owned (h : Change L e d d') (owned : (d.entry L key).Owned) :
    (d'.entry L key).Owned := by
  refine h.keeps owned (fun expected op a _ n x hx y owned => ?_)
    fun upload n _ item => owned.on fun _ _ => item
  refine owned.on fun upload same => ?_
  exact absurd (same ▸ hx) register_not_mem_edits

theorem owned_of_run (run : Run σ₀ events σ) (starts : Starts σ₀) (fresh : Fresh L σ₀.state)
    (key : String) : (σ.state.entry L key).Owned := by
  refine kept_between .refl run starts L (I := fun d => (d.entry L key).Owned) ?_ ?_
  · simp [fresh.entry, Entry.Owned]
  · exact fun e _ d d' change owned => change.owned owned

/-- Without a registration no file appears. -/
theorem Change.file (h : Change L e d d') (silent : ¬ Registers L key e) {f : File}
    (found : (d'.entry L key).file = some f) : (d.entry L key).file = some f := by
  refine h.keeps (I := fun x => x.file = some f → (d.entry L key).file = some f) id ?_ ?_ found
  · intro expected op a _ n x hx y kept found
    refine kept (Entry.file_on (fun upload same => ?_) found).1
    exact absurd (same ▸ hx) register_not_mem_edits
  · exact fun upload n registers => absurd registers silent

/-- The item writes that themselves give the description of the file of `key`. -/
def Describes (L : LibraryId) (key : String) (e : Event (server digests config)) : Prop :=
  ∃ r a d d' provided, e = .commit r a d d' ∧ Request.Stores L key provided r ∧
    ∃ name ∈ Entry.fileMembers, (provided.get name).isSome

theorem Change.described (h : Change L e d d') (owned : (d.entry L key).Owned)
    (described : (d.entry L key).Described) (quiet : ¬ Describes L key e) :
    (d'.entry L key).Described := by
  refine (h.keeps (I := fun x => x.Owned ∧ x.Described) ⟨owned, described⟩ ?_ ?_).2
  · rintro expected op a rfl n x hx y ⟨owned, described⟩
    have apart (upload : PendingUpload) (same : x = .register key upload) : y.attachment = true :=
      absurd (same ▸ hx) register_not_mem_edits
    refine ⟨owned.on apart, described.on owned apart ?_⟩
    rintro provided rfl name member
    by_contra named
    exact quiet ⟨_, a, d, d', provided, rfl, stores_of_mem_edits hx, name, member,
      Option.isSome_iff_ne_none.mpr named⟩
  · intro upload n _ item
    exact ⟨owned.on fun _ _ => item, described.on owned (fun _ _ => item) fun _ => nofun⟩

/-- A registration describes its file in the attachment. -/
theorem Change.described_of_registers (h : Change L e d d') (registers : Registers L key e) :
    (d'.entry L key).Described := by
  cases h with
  | guarded => cases registers
  | @registered _ key' upload _ _ registers' item after =>
      obtain rfl : key' = key := by
        cases registers
        cases registers'
        rfl
      rw [← after.entry, edit_entry, entry_setVersion]
      exact Entry.described_register (x := d.entry L key') item upload
  | apart _ silent => exact absurd registers (silent key)

/-- The commits that end the identity of an attachment: a deletion that names
it, or a write within which it is something else. -/
inductive EndsIdentity (L : LibraryId) (key : String) : Event (server digests config) → Prop where
  | deleted {expected : Option Int} {keys : List String} {allow : Bool} {a : Reply}
      {d d' : Database} (named : key ∈ keys) :
      EndsIdentity L key (.commit (Request.guarded L expected (.delete .item keys allow)) a d d')
  | converted {expected : Option Int} {batch : List Value} {allow : Bool}
      {random : Nat → Fin 8 → UInt8} {a : Reply} {d d' : Database} {done rest : List Edit}
      (entries : storeEdits .item random 0 batch = done ++ rest)
      (other : (Database.edits L (d.version L + 1)
        (d.setVersion L (d.version L + 1)) done).attachment
        L key = false) :
      EndsIdentity L key (.commit (Request.guarded L expected (.write .item batch allow random))
        a d d')

theorem fileMeta_eq_none (absent : (d.entry L key).file = none) :
    Sql.eval (.fileMeta L key) d = none := by
  have absent : d.file.find? (L, key) = none := absent
  simp [Sql.eval, absent]

theorem file_after {op : GuardedOp} {es : List Edit} {n : Int} {x : Entry}
    (sub : ∀ e ∈ es, e ∈ op.edits) (absent : x.file = none) : (x.after n key es).file = none := by
  refine Entry.after_keeps (I := fun x => x.file = none) (fun e he x absent => ?_) absent
  by_contra present
  obtain ⟨f, found⟩ := Option.ne_none_iff_exists'.mp present
  have before := (Entry.file_on (fun upload same => ?_) found).1
  · rw [absent] at before
    cases before
  · exact register_not_mem_edits (same ▸ sub e he)

/-- A commit that ends the identity leaves no file, whatever it writes after. -/
theorem Committed.file_eq_none {expected : Option Int} {op : GuardedOp} {a : Reply}
    (committed : Committed L expected op.edits d d')
    (ends : EndsIdentity L key (.commit (Request.guarded L expected op) a d d' :
      Event (server digests config))) (owned : (d.entry L key).Owned) :
    (d'.entry L key).file = none := by
  have lost : ∃ done rest, op.edits = done ++ rest ∧
      ((d.entry L key).after (d.version L + 1) key done).file = none := by
    cases ends with
    | @deleted _ keys _ _ _ _ named =>
        obtain ⟨front, back, rfl⟩ := List.append_of_mem named
        refine ⟨front.map (.remove .item) ++ [.remove .item key], back.map (.remove .item), ?_, ?_⟩
        · simp [GuardedOp.edits]
        · simp [Entry.after, Edit.on]
    | @converted _ batch allow random _ _ _ done rest entries other =>
        refine ⟨done, rest, entries, ?_⟩
        have kept : ((d.entry L key).after (d.version L + 1) key done).Owned := by
          refine Entry.after_keeps (fun e he x owned => owned.on fun upload same => ?_) owned
          have mem : e ∈ (GuardedOp.write .item batch allow random).edits := by
            rw [GuardedOp.edits, entries]
            exact List.mem_append_left rest he
          exact absurd (same ▸ mem) register_not_mem_edits
        by_contra present
        have attached := kept (Option.isSome_iff_ne_none.mpr present)
        rw [← entry_setVersion (d.version L + 1), ← edits_entry] at attached
        exact absurd (other.symm.trans attached) Bool.false_ne_true
  obtain ⟨done, rest, entries, absent⟩ := lost
  rw [committed.entry, entries, Entry.after, List.foldl_append]
  have sub (e : Edit) (he : e ∈ rest) : e ∈ op.edits :=
    entries.symm ▸ List.mem_append_right done he
  exact file_after sub absent

/-- What the data of an attachment says of its file since the registration of
that file. -/
def DescribedSince (L : LibraryId) (key : String) (events : List (Event (server digests config)))
    (d : Database) : Prop :=
  ∃ before e after, events = before ++ e :: after ∧ Registers L key e ∧
    (∀ e' ∈ after, ¬ Registers L key e') ∧
    ((∀ e' ∈ after, ¬ Describes L key e') → (d.entry L key).Described)

theorem describedSince_of_run (run : Run σ₀ events σ) (starts : Starts σ₀)
    (fresh : Fresh L σ₀.state) {f : File} (found : (σ.state.entry L key).file = some f) :
    DescribedSince L key events σ.state := by
  have all : (σ.state.entry L key).Owned ∧ ∀ f, (σ.state.entry L key).file = some f →
      DescribedSince L key events σ.state := by
    refine run.history (H := fun es d => (d.entry L key).Owned ∧
      ∀ f, (d.entry L key).file = some f → DescribedSince L key es d) ?_ ?_ ?_
    · simp [fresh.entry, Entry.Owned]
    · rintro es e d earlier still ⟨owned, since⟩
      refine ⟨owned, fun f found => ?_⟩
      obtain ⟨before, e₁, after, rfl, registers, last, described⟩ := since f found
      refine ⟨before, e₁, after ++ [e], by simp, registers, ?_, fun quiet => described fun e' he' =>
        quiet e' (List.mem_append_left _ he')⟩
      intro e' he'
      rcases List.mem_append.mp he' with old | new
      · exact last e' old
      · obtain rfl := List.mem_singleton.mp new
        rintro ⟨⟩
        exact still _ _ .commit
    · rintro es e d d' earlier moved ⟨owned, since⟩
      have change := change_of_event run starts L e (earlier.subset (by simp)) d d' moved
      refine ⟨change.owned owned, fun f found => ?_⟩
      by_cases registers : Registers L key e
      · exact ⟨es, e, [], rfl, registers, by simp, fun _ =>
          change.described_of_registers registers⟩
      · obtain ⟨before, e₁, after, rfl, registers₁, last, described⟩ :=
          since f (change.file registers found)
        refine ⟨before, e₁, after ++ [e], by simp, registers₁, ?_, fun quiet => ?_⟩
        · intro e' he'
          rcases List.mem_append.mp he' with old | new
          · exact last e' old
          · exact List.mem_singleton.mp new ▸ registers
        · exact change.described owned
            (described fun e' he' => quiet e' (List.mem_append_left _ he')) (quiet e (by simp))
  exact all.2 f found

/-- A registered file belongs to one stored-file attachment, is not served once
that identity has ended, and is what the data of its attachment says. -/
theorem file_of_one_attachment (run : Run σ₀ events σ) (starts : Starts σ₀)
    (fresh : Fresh L σ₀.state) (key : String) :
    (∀ f, σ.state.file.find? (L, key) = some f → σ.state.attachment L key = true) ∧
    (∀ before e after, events = before ++ e :: after → EndsIdentity L key e →
      (∀ e' ∈ after, ¬ Registers L key e') → Sql.eval (.fileMeta L key) σ.state = none) ∧
    ∀ f, σ.state.file.find? (L, key) = some f → ∃ before e after,
      events = before ++ e :: after ∧ Registers L key e ∧ (∀ e' ∈ after, ¬ Registers L key e') ∧
      ((∀ e' ∈ after, ¬ Describes L key e') → ∃ o,
        σ.state.object.find? (L, .item, key) = some o ∧
        o.data.get "md5" = some (.string f.md5) ∧ o.data.get "mtime" = some (.ofInt f.mtime) ∧
        o.data.get "filename" = some (.string f.filename)) := by
  refine ⟨fun f found => ?_, ?_, fun f found => ?_⟩
  · exact owned_of_run run starts fresh key (Option.isSome_of_eq_some (found : _ = some f))
  · rintro before e after rfl ends silent
    obtain ⟨expected, op, a, d, d', rfl⟩ : ∃ expected op a d d',
        e = .commit (Request.guarded L expected op) a d d' := by
      cases ends <;> exact ⟨_, _, _, _, _, rfl⟩
    obtain ⟨σ₁, σ₂, run₁, rfl, run₂, rfl, rest⟩ := run.around .commit
    have here : .commit (Request.guarded L expected op) a σ₁.state σ₂.state ∈
        before ++ .commit (Request.guarded L expected op) a σ₁.state σ₂.state :: after := by simp
    have lost : (σ₂.state.entry L key).file = none := by
      cases (commit_plainEffect run starts here).2 with
      | guarded committed => exact committed.file_eq_none ends (owned_of_run run₁ starts fresh key)
    refine fileMeta_eq_none ?_
    refine kept_between run₂ rest starts L (I := fun d => (d.entry L key).file = none) lost ?_
    intro e he d d' change absent
    by_contra present
    obtain ⟨f, found⟩ := Option.ne_none_iff_exists'.mp present
    rw [change.file (silent e he) found] at absent
    cases absent
  · have since : DescribedSince L key events σ.state := describedSince_of_run run starts fresh found
    obtain ⟨before, e, after, same, registers, last, described⟩ := since
    exact ⟨before, e, after, same, registers, last, fun quiet => described quiet f found⟩

end Run

/-! ### An attachment that is stored, gets its file, is deleted and stored again -/

def storeFileRequest (version : Int) : Request :=
  .guarded newLibrary (some version) (.write .item
    [.object [("key", .string "FILE2345"), ("itemType", .string "attachment"),
      ("linkMode", .string "imported_file")]] true fun _ _ => 0)

def deleteFileRequest (version : Int) : Request :=
  .guarded newLibrary (some version) (.delete .item ["FILE2345"] true)

/-- An uploaded candidate waits for its attachment. -/
def awaitingDatabase : Database := { pendingDatabase .uploaded with object := ∅ }

theorem awaitingDatabase_valid : awaitingDatabase.Valid := by
  constructor <;> decide

theorem awaitingDatabase_fresh : Fresh newLibrary awaitingDatabase := by
  constructor <;> intros <;> rfl

def storedFileDatabase : Database := demoServer.after awaitingDatabase 8 (storeFileRequest 0)

def servedFileDatabase : Database := demoServer.after storedFileDatabase 30 demoRegister

def deletedFileDatabase : Database := demoServer.after servedFileDatabase 8 (deleteFileRequest 2)

def restoredFileDatabase : Database := demoServer.after deletedFileDatabase 8 (storeFileRequest 3)

/-- A run of statements and one commit gives no description of the file itself. -/
theorem not_describes {S : Request} {a : Reply} {d d' : Database} {es : List (Event demoServer)}
    (stmts : ∀ e ∈ es, ∃ q v, e = .stmt S q v)
    (absent : ∀ provided, Request.Stores newLibrary "FILE2345" provided S →
      ∀ name ∈ Entry.fileMembers, provided.get name = none) :
    ∀ e ∈ es ++ [.commit S a d d'], ¬ Describes newLibrary "FILE2345" e := by
  rintro e he ⟨r, a', d₁, d₂, provided, rfl, stores, name, member, named⟩
  rcases List.mem_append.mp he with old | new
  · obtain ⟨q, v, same⟩ := stmts _ old
    cases same
  · obtain ⟨rfl, -⟩ := Event.commit.inj (List.mem_singleton.mp new)
    rw [absent provided stores name member] at named
    cases named

theorem absent_storeFile (version : Int) (provided : Value)
    (h : Request.Stores newLibrary "FILE2345" provided (storeFileRequest version)) :
    ∀ name ∈ Entry.fileMembers, provided.get name = none := by
  obtain ⟨expected, batch, allow, random, same, entry⟩ := h
  cases same
  simp only [storeEdits, List.mem_singleton, Edit.store.injEq] at entry
  obtain ⟨-, -, rfl⟩ := entry
  decide

set_option maxRecDepth 4000 in
/-- The registered file is described; the attachment that is stored again under
the key serves none. -/
theorem file_of_one_attachment_restored : ∃ events events' f o,
    Run (Session.idle awaitingDatabase : Session demoServer Unit) events
      (Session.idle servedFileDatabase) ∧
    servedFileDatabase.file.find? (newLibrary, "FILE2345") = some f ∧
    servedFileDatabase.object.find? (newLibrary, .item, "FILE2345") = some o ∧
    o.data.get "md5" = some (.string f.md5) ∧
    Run (Session.idle servedFileDatabase : Session demoServer Unit) events'
      (Session.idle restoredFileDatabase) ∧
    restoredFileDatabase.attachment newLibrary "FILE2345" = true ∧
    Sql.eval (.fileMeta newLibrary "FILE2345") restoredFileDatabase = none := by
  obtain ⟨es₁, a₁, store, stmts₁⟩ := Run.commits (S := demoServer) (s := awaitingDatabase)
    (t := storedFileDatabase) (r := storeFileRequest 0) () 8 rfl rfl (by constructor <;> decide)
  obtain ⟨es₂, a₂, register, stmts₂⟩ := Run.commits (S := demoServer) (s := storedFileDatabase)
    (t := servedFileDatabase) (r := demoRegister) () 30 rfl rfl (by constructor <;> decide)
  obtain ⟨es₃, a₃, delete, -⟩ := Run.commits (S := demoServer) (s := servedFileDatabase)
    (t := deletedFileDatabase) (r := deleteFileRequest 2) () 8 rfl rfl (by constructor <;> decide)
  obtain ⟨es₄, a₄, restore, stmts₄⟩ := Run.commits (S := demoServer) (s := deletedFileDatabase)
    (t := restoredFileDatabase) (r := storeFileRequest 3) () 8 rfl rfl
    (by constructor <;> decide)
  have served := store.trans register
  have starts : Starts (Session.idle awaitingDatabase : Session demoServer Unit) :=
    starts_idle awaitingDatabase_valid
  obtain ⟨-, -, described⟩ := file_of_one_attachment served starts awaitingDatabase_fresh "FILE2345"
  obtain ⟨before, e, after, same, -, -, tells⟩ := described _ rfl
  have quiet : ∀ e' ∈ after, ¬ Describes newLibrary "FILE2345" e' := by
    intro e' he'
    have mem := same.symm ▸ List.mem_append_right before (List.mem_cons_of_mem e he')
    rcases List.mem_append.mp mem with first | second
    · exact not_describes stmts₁ (absent_storeFile 0) e' first
    · refine not_describes stmts₂ ?_ e' second
      rintro provided ⟨expected, batch, allow, random, other, -⟩
      cases other
  obtain ⟨o, item, md5, -⟩ := tells quiet
  have whole := served.trans (delete.trans restore)
  rw [List.append_assoc es₃, List.singleton_append, ← List.append_assoc _ es₃] at whole
  obtain ⟨-, lost, -⟩ := file_of_one_attachment whole starts awaitingDatabase_fresh "FILE2345"
  refine ⟨_, _, _, o, served, rfl, item, md5, delete.trans restore, by decide, ?_⟩
  refine lost _ _ _ rfl (.deleted (by decide)) fun e he registers => ?_
  rcases List.mem_append.mp he with old | new
  · obtain ⟨q, v, rfl⟩ := stmts₄ e old
    cases registers
  · obtain rfl := List.mem_singleton.mp new
    cases registers

end Xotero
