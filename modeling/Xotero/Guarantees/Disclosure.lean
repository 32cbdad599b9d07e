import Xotero.Guarantees.FilePolicy
import Xotero.Guarantees.Tags
import Xotero.Store.Batches

/-!
What the response of a write shows of notes that the caller may not read. The
stored object is merged with the entry and returned whole, so the fields that no
entry supplies are shown as well.
-/

namespace Xotero

open Session (Run)

/-! ### The fields of a note -/

def Value.isNote (v : Value) : Bool := (v.get "itemType").bind Value.asStr = some "note"

/-- A field of an overlay is supplied, or was there and is kept. -/
theorem overlay_field {existing : Option Value} {provided : Value} {name : String}
    (has : ((overlay existing provided).get name).isSome) :
    (provided.get name).isSome ∨ ∃ base, existing = some (.object base) ∧
      (Members.get base name).isSome ∧ provided.asObject.isSome := by
  have alone (same : overlay existing provided = provided) : (provided.get name).isSome := by
    rwa [same] at has
  cases existing with
  | none => exact .inl (alone rfl)
  | some base =>
      cases base with
      | object ms =>
          cases provided with
          | object fields =>
              rw [get_overlay_object, Option.isSome_or, Bool.or_eq_true, isSome_fields] at has
              exact has.imp_right fun kept => ⟨ms, rfl, kept, rfl⟩
          | _ => exact .inl (alone rfl)
      | _ => exact .inl (alone (by cases provided <;> rfl))

/-- The fields that the server sets, and the type of an item. -/
def publicFields : List String := ["key", "version", "itemType"]

theorem isNote_stampObject (key : String) (n : Int) (v : Value) :
    (stampObject key n v).isNote = v.isNote := by
  rw [Value.isNote, Value.isNote, get_stampObject_of_ne v (by decide)]

theorem isNote_toJsonb (v : Value) : v.toJsonb.isNote = v.isNote := by
  rw [Value.isNote, Value.isNote, Value.get_toJsonb_asStr]

/-- Some entry for the key supplies the field. -/
def Supplies (es : List (String × Value)) (key name : String) : Prop :=
  ∃ provided, (key, provided) ∈ es ∧ (provided.get name).isSome

/-- The entries for the key are objects, so what was stored stays under them. -/
def KeepsFields (es : List (String × Value)) (key : String) : Prop :=
  ∀ provided, (key, provided) ∈ es → provided.asObject.isSome

/-- Some entry for the key supplies the item type of a note. -/
def TurnsNote (es : List (String × Value)) (key : String) : Prop :=
  ∃ provided, (key, provided) ∈ es ∧
    (provided.fields.get "itemType").bind Value.asStr = some "note"

section Stored
variable {L : LibraryId} {kind : ObjectKind} {n : Int} {d d' : Database} {key name : String}
  {es : List (String × Value)}

/-- A private field of a stored object was supplied, or was there and is kept. -/
theorem stored_field {v : Value} (after : (d.storeAll L n kind es).stored L kind key = some v)
    (has : (v.get name).isSome) (secret : name ∉ publicFields) :
    Supplies es key name ∨ ∃ fields, d.stored L kind key = some (.object fields) ∧
      (Members.get fields name).isSome ∧ KeepsFields es key := by
  induction es generalizing d with
  | nil =>
      cases v with
      | object fields => exact .inr ⟨fields, after, has, fun _ => nofun⟩
      | _ => simp [Value.get] at has
  | cons e es ih =>
      obtain ⟨key', provided⟩ := e
      rcases ih (storeAll_cons (d := d) _ ▸ after) with ⟨p, mem, supplied⟩ |
          ⟨fields, base, has, keeps⟩
      · exact .inl ⟨p, List.mem_cons_of_mem _ mem, supplied⟩
      · rw [edit_stored] at base
        split at base
        · rename_i same
          subst same
          have merged : ((d.merged L n kind key' provided).get name).isSome := by
            rw [← isSome_toJsonb, Option.some.inj base]
            exact has
          rw [Database.merged, get_stampObject_of_ne _
            ⟨fun e => secret (by simp [e, publicFields]),
              fun e => secret (by simp [e, publicFields])⟩] at merged
          rcases overlay_field merged with supplied | ⟨ms, there, had, object⟩
          · exact .inl ⟨provided, by simp, supplied⟩
          · refine .inr ⟨ms, there, had, fun p mem => ?_⟩
            rcases List.mem_cons.mp mem with first | later
            · exact (Prod.mk.inj first).2 ▸ object
            · exact keeps p later
        · rename_i other
          refine .inr ⟨fields, base, has, fun p mem => ?_⟩
          rcases List.mem_cons.mp mem with first | later
          · exact absurd (Prod.mk.inj first).1.symm other
          · exact keeps p later

/-- An object entry over a stored object keeps its fields, and turns it into a
note or leaves its type, unless it supplies another one. -/
theorem merged_keeps {fields : Members} (supplied : Members)
    (there : d.stored L kind key = some (.object fields)) :
    ∃ ms, (d.merged L n kind key (.object supplied)).toJsonb = .object ms ∧
      (∀ name, (Members.get fields name).isSome → (Members.get ms name).isSome) ∧
      ((Value.object ms).isNote ↔ ((((Value.object supplied).fields.get "itemType").or
        (Members.get fields "itemType")).bind Value.asStr = some "note")) := by
  have merged : d.merged L n kind key (.object supplied) =
      stampObject key n (overlay (some (.object fields)) (.object supplied)) := by
    rw [← there]
    rfl
  obtain ⟨ms, same⟩ : ∃ ms, (d.merged L n kind key (.object supplied)).toJsonb = .object ms := by
    rw [merged]
    exact ⟨_, rfl⟩
  refine ⟨ms, same, fun name has => ?_, ?_⟩
  · have here := isSome_toJsonb (d.merged L n kind key (.object supplied)) name
    rw [same, merged, overlay, get_stampObject key n _ rfl, get_overlaid] at here
    rw [← Value.get_object, here]
    split
    · rfl
    · split
      · rfl
      · simp [Option.isSome_or, has]
  · rw [← same, isNote_toJsonb, merged, isNote_stampObject, Value.isNote, decide_eq_true_eq,
      get_overlay_object]

/-- Under entries that are objects a stored object keeps its fields, and is a
note at the end only if it was one or an entry made it one. -/
theorem stored_keeps {fields : Members} (there : d.stored L kind key = some (.object fields))
    (keeps : KeepsFields es key) :
    ∃ fields', (d.storeAll L n kind es).stored L kind key = some (.object fields') ∧
      (∀ name, (Members.get fields name).isSome → (Members.get fields' name).isSome) ∧
      ((Value.object fields').isNote → (Value.object fields).isNote ∨ TurnsNote es key) := by
  induction es generalizing d fields with
  | nil => exact ⟨fields, there, fun _ h => h, .inl⟩
  | cons e es ih =>
      obtain ⟨key', provided⟩ := e
      have later : KeepsFields es key := fun p mem => keeps p (List.mem_cons_of_mem _ mem)
      have turns (h : TurnsNote es key) : TurnsNote ((key', provided) :: es) key := by
        obtain ⟨p, mem, note⟩ := h
        exact ⟨p, List.mem_cons_of_mem _ mem, note⟩
      by_cases same : key' = key
      · subst same
        have object := keeps provided (by simp)
        cases provided with
        | object supplied =>
            obtain ⟨ms, merged, kept, note⟩ := merged_keeps (n := n) supplied there
            have here : (Database.edit L n d (.store kind key' (.object supplied))).stored L kind
                key' = some (.object ms) := by
              rw [edit_stored, if_pos rfl, merged]
            obtain ⟨fields', after, kept', note'⟩ := ih here later
            refine ⟨fields', after, fun name has => kept' name (kept name has), fun is => ?_⟩
            rcases note' is with now | turned
            · have type := note.mp now
              cases had : (Value.object supplied).fields.get "itemType" with
              | some v => exact .inr ⟨_, List.mem_cons_self, by simpa [had] using type⟩
              | none => exact .inl (decide_eq_true (by simpa [had] using type))
            · exact .inr (turns turned)
        | _ => cases object
      · have here : (Database.edit L n d (.store kind key' provided)).stored L kind key =
            some (.object fields) := by
          rw [edit_stored, if_neg same, there]
        obtain ⟨fields', after, kept, note⟩ := ih here later
        exact ⟨fields', after, kept, fun is => (note is).imp_right turns⟩

/-! ### Two states -/

/-- The stored objects agree, unless the next entry for the key replaces them. -/
def AgreeFor (L : LibraryId) (kind : ObjectKind) (es : List (String × Value))
    (d d' : Database) : Prop :=
  ∀ key provided, (es.find? fun e => e.1 = key) = some (key, provided) →
    provided.asObject.isSome →
      Option.Rel Value.FieldsAgree (d.stored L kind key) (d'.stored L kind key)

/-- What is no object replaces what is stored. -/
theorem overlay_of_not_object (existing : Option Value) (p : Value) (other : p.asObject = none) :
    overlay existing p = p := by
  cases p with
  | object => cases other
  | _ => cases existing with
    | none => rfl
    | some base => cases base <;> rfl

theorem AgreeFor.merged {provided : Value} (h : AgreeFor L kind ((key, provided) :: es) d d') :
    (d.merged L n kind key provided).FieldsAgree (d'.merged L n kind key provided) := by
  refine Value.FieldsAgree.stampObject (v := overlay (d.stored L kind key) provided)
    (w := overlay (d'.stored L kind key) provided) ?_ key n
  cases provided with
  | object supplied =>
      have related := h key (.object supplied) (by simp) rfl
      cases there : d.stored L kind key <;> cases there' : d'.stored L kind key <;>
        rw [there, there'] at related
      · exact .same _
      · cases related
      · cases related
      · cases related with
        | some same => exact same.overlay
  | _ =>
      rw [overlay_of_not_object _ _ rfl, overlay_of_not_object _ _ rfl]
      exact .same _

theorem AgreeFor.next {provided : Value} (h : AgreeFor L kind ((key, provided) :: es) d d') :
    AgreeFor L kind es (Database.edit L n d (.store kind key provided))
      (Database.edit L n d' (.store kind key provided)) := by
  intro key' p first object
  rw [edit_stored, edit_stored]
  split
  · rename_i same
    subst same
    exact .some h.merged.toJsonb
  · rename_i other
    exact h key' p (by simpa [other] using first) object

/-- Entry by entry, the same objects are stored and returned. -/
theorem AgreeFor.merged_at (h : AgreeFor L kind es d d') {index : Nat} {provided : Value}
    (entry : es[index]? = some (key, provided)) :
    ((d.storeAll L n kind (es.take index)).merged L n kind key provided).FieldsAgree
      ((d'.storeAll L n kind (es.take index)).merged L n kind key provided) := by
  induction es generalizing d d' index with
  | nil => cases entry
  | cons e es ih =>
      cases index with
      | zero =>
          obtain rfl : e = (key, provided) := by simpa using entry
          exact h.merged
      | succ index => exact ih h.next (by simpa using entry)

end Stored

/-! ### Writers without the notes permission -/

/-- What the response returns for an entry that is about a note, and the caller may not
know already, has been supplied by then: an entry is answered before the next is merged. -/
def NotesHidden (L : LibraryId) (kind : ObjectKind) (es : List (String × Value)) (d : Database)
    (a : Reply) : Prop :=
  ∀ index key provided, es[index]? = some (key, provided) → ∀ data, a.data index = some data →
    (d.stored L kind key).any Value.isNote ∨ data.isNote → ∀ name, (data.get name).isSome →
      name ∈ publicFields ∨ Supplies (es.take (index + 1)) key name

/-- Of each stored object that is a note, or that the first entries turn into
one, these entries supply all fields but the public ones, if they keep them at all. -/
def NotesCovered (L : LibraryId) (kind : ObjectKind) (es : List (String × Value))
    (d : Database) : Prop :=
  ∀ index key provided, es[index]? = some (key, provided) → ∀ fields,
    d.stored L kind key = some (.object fields) → KeepsFields (es.take (index + 1)) key →
    (Value.object fields).isNote ∨ TurnsNote (es.take (index + 1)) key →
    ∀ name, (Members.get fields name).isSome →
      name ∈ publicFields ∨ Supplies (es.take (index + 1)) key name

/-- The first entry for the key supplies the field. -/
def SuppliesFirst (es : List (String × Value)) (key name : String) : Prop :=
  ∃ provided, es.find? (fun e => e.1 = key) = some (key, provided) ∧ (provided.get name).isSome

/-- The states differ at most in fields of stored notes that are not supplied when the
first entry for the note is answered. -/
structure SameButNotes (L : LibraryId) (kind : ObjectKind) (es : List (String × Value))
    (d d' : Database) : Prop where
  version : d.version L = d'.version L
  stored : ∀ key, Option.Rel (fun v w => v.FieldsAgree w ∨ v.isNote ∧ w.isNote ∧
      ∀ name, name ∈ publicFields ∨ SuppliesFirst es key name → v.get name = w.get name)
    (d.stored L kind key) (d'.stored L kind key)

section Hidden
variable {L : LibraryId} {kind : ObjectKind} {d d' : Database} {es : List (String × Value)}

theorem isObject_of_isNote {v : Value} (h : v.isNote) : ∃ ms, v = .object ms := by
  cases v with
  | object ms => exact ⟨ms, rfl⟩
  | _ => simp [Value.isNote, Value.get] at h

theorem Supplies.mono {es es' : List (String × Value)} (sub : ∀ e ∈ es, e ∈ es') {key name : String}
    (h : Supplies es key name) : Supplies es' key name := by
  obtain ⟨provided, mem, supplied⟩ := h
  exact ⟨provided, sub _ mem, supplied⟩

theorem KeepsFields.mono {es es' : List (String × Value)} (sub : ∀ e ∈ es, e ∈ es') {key : String}
    (h : KeepsFields es' key) : KeepsFields es key :=
  fun p mem => h p (sub _ mem)

/-- What a response returns when it reports the stored objects, in order. -/
def Reports (L : LibraryId) (kind : ObjectKind) (n : Int) (es : List (String × Value))
    (d : Database) (a : Reply) : Prop :=
  ∀ index, a.data index = es[index]?.map fun e =>
    orderFields ((d.storeAll L n kind (es.take index)).merged L n kind e.1 e.2)

/-- What is returned for an entry has the fields and the type of what is stored. -/
theorem Reports.stored {n : Int} {a : Reply} (h : Reports L kind n es d a) {index : Nat}
    {key : String} {provided : Value} (entry : es[index]? = some (key, provided)) :
    ∃ data v, a.data index = some data ∧
      (d.storeAll L n kind (es.take (index + 1))).stored L kind key = some v ∧
      (∀ name, (data.get name).isSome = (v.get name).isSome) ∧ data.isNote = v.isNote := by
  have returned := h index
  rw [entry, Option.map_some] at returned
  refine ⟨_, _, returned, merged_stored entry, fun name => ?_, ?_⟩
  · rw [orderFields_get, isSome_toJsonb]
  · rw [isNote_toJsonb, Value.isNote, Value.isNote, orderFields_get]

/-- An entry that makes a stored object a note shows it as one. -/
theorem isNote_merged {n : Int} {key : String} {index : Nat} {provided : Value}
    (entry : es[index]? = some (key, provided)) {fields : Members}
    (there : d.stored L kind key = some (.object fields))
    (keeps : KeepsFields (es.take (index + 1)) key)
    (note : (provided.fields.get "itemType").bind Value.asStr = some "note") :
    ∃ v, (d.storeAll L n kind (es.take (index + 1))).stored L kind key = some v ∧ v.isNote := by
  have before : es.take (index + 1) = es.take index ++ [(key, provided)] := by
    rw [List.take_add_one, entry]
    rfl
  have object := keeps provided (by simp [before])
  obtain ⟨base, here, -⟩ := stored_keeps (n := n) there
    (keeps.mono fun e mem => before ▸ List.mem_append_left _ mem)
  cases provided with
  | object supplied =>
      obtain ⟨ms, merged, -, type⟩ := merged_keeps (n := n) supplied here
      refine ⟨_, merged_stored entry, ?_⟩
      rw [merged, type]
      cases had : (Value.object supplied).fields.get "itemType" with
      | none => simp [had] at note
      | some v => simpa [had] using note
  | _ => cases object

theorem hidden_iff_covered {n : Int} {a : Reply} (h : Reports L kind n es d a) :
    NotesHidden L kind es d a ↔ NotesCovered L kind es d := by
  constructor
  · intro hidden index key provided entry fields there keeps note name has
    rcases note with note | turns
    · obtain ⟨data, v, returned, after, names, -⟩ := h.stored entry
      obtain ⟨fields', after', kept, -⟩ := stored_keeps (n := n) there keeps
      obtain rfl := Option.some.inj (after.symm.trans after')
      refine hidden index key provided entry data returned (.inl (by simp [there, note])) name ?_
      rw [names]
      exact kept name has
    · obtain ⟨p, mem, note⟩ := turns
      obtain ⟨j, bound, at_j⟩ := List.mem_iff_getElem.mp mem
      obtain ⟨earlier, entry_j⟩ : j < index + 1 ∧ es[j]? = some (key, p) := by
        rw [List.length_take] at bound
        rw [List.getElem_take] at at_j
        exact ⟨by omega, List.getElem?_eq_some_iff.mpr ⟨by omega, at_j⟩⟩
      have keeps_j : KeepsFields (es.take (j + 1)) key :=
        keeps.mono fun e mem => (List.take_sublist_take_left (by omega)).subset mem
      obtain ⟨data, v, returned, after, names, type⟩ := h.stored entry_j
      obtain ⟨fields', after', kept, -⟩ := stored_keeps (n := n) there keeps_j
      obtain ⟨w, after'', is⟩ := isNote_merged (n := n) entry_j there keeps_j note
      obtain rfl := Option.some.inj (after.symm.trans after')
      obtain rfl := Option.some.inj (after.symm.trans after'')
      have shown : (data.get name).isSome := by
        rw [names]
        exact kept name has
      refine (hidden j key p entry_j data returned (.inr (type.trans is)) name shown).imp_right ?_
      exact fun supplied => supplied.mono fun e mem =>
        (List.take_sublist_take_left (by omega)).subset mem
  · intro covered index key provided entry data reported note name has
    by_cases shown : name ∈ publicFields
    · exact .inl shown
    obtain ⟨data', v, returned, after, names, type⟩ := h.stored entry
    obtain rfl := Option.some.inj (reported.symm.trans returned)
    rw [names] at has
    rcases stored_field after has shown with supplied | ⟨fields, there, had, keeps⟩
    · exact .inr supplied
    · refine covered index key provided entry fields there keeps ?_ name had
      rcases note with note | note
      · exact .inl (by simpa [there] using note)
      · obtain ⟨fields', after', -, turned⟩ := stored_keeps (n := n) there keeps
        obtain rfl := Option.some.inj (after.symm.trans after')
        exact turned (type.symm.trans note)

/-- Where the batch covers the notes of two states, nothing that it keeps of them
differs. -/
theorem SameButNotes.agreeFor (h : SameButNotes L kind es d d') (covered : NotesCovered L kind es d)
    (covered' : NotesCovered L kind es d') : AgreeFor L kind es d d' := by
  intro key provided first object
  obtain ⟨named, before, rest, split, apart⟩ := List.find?_eq_some_iff_append.mp first
  have entry : es[before.length]? = some (key, provided) := by simp [split]
  -- The prefix up to the first entry of the key holds no other entry of it.
  have only (p : Value) (mem : (key, p) ∈ es.take (before.length + 1)) : p = provided := by
    have mem : (key, p) ∈ before ++ [(key, provided)] := by
      rwa [split, List.take_length_add_append] at mem
    rcases List.mem_append.mp mem with earlier | here
    · simpa using apart _ earlier
    · exact (Prod.mk.inj (List.mem_singleton.mp here)).2
  have keeps : KeepsFields (es.take (before.length + 1)) key := by
    intro p mem
    rw [only p mem]
    exact object
  have first_of {name : String}
      (known : name ∈ publicFields ∨ Supplies (es.take (before.length + 1)) key name) :
      name ∈ publicFields ∨ SuppliesFirst es key name := by
    refine known.imp_right ?_
    intro supplied
    obtain ⟨p, mem, has⟩ := supplied
    exact ⟨provided, first, only p mem ▸ has⟩
  have related := h.stored key
  cases there : d.stored L kind key <;> cases there' : d'.stored L kind key <;>
    rw [there, there'] at related
  · exact .none
  · cases related
  · cases related
  · rename_i v w
    cases related with
    | some related =>
        rcases related with same | ⟨note, note', same⟩
        · exact .some same
        · obtain ⟨fields, rfl⟩ := isObject_of_isNote note
          obtain ⟨fields', rfl⟩ := isObject_of_isNote note'
          have known := covered _ key provided entry fields there keeps (.inl note)
          have known' := covered' _ key provided entry fields' there' keeps (.inl note')
          refine .some (.object fun name => ?_)
          cases got : Members.get fields name with
          | some v => exact got ▸ same name (first_of (known name (by simp [got])))
          | none =>
              cases got' : Members.get fields' name with
              | none => rfl
              | some v =>
                  have differs := same name (first_of (known' name (by simp [got'])))
                  simp [got, got'] at differs

theorem Reports.agree {n : Int} {a a' : Reply} (h : Reports L kind n es d a)
    (h' : Reports L kind n es d' a') (agree : AgreeFor L kind es d d') (index : Nat) :
    Option.Rel Value.FieldsAgree (a.data index) (a'.data index) := by
  rw [h index, h' index]
  cases entry : es[index]? with
  | none => exact .none
  | some e => exact .some (agree.merged_at entry).orderFields

end Hidden

section Runs
variable {digests : Digests} {config : Config} {ι : Type} [DecidableEq ι]
  {σ₀ σ : Session (server digests config) ι} {events : List (Event (server digests config))}

/-- The response of a write shows of notes only what its batch supplies, exactly
when the batch covers them; and then two states that differ in nothing else get
the same response. The caller's permissions have no part in it. -/
theorem written_notes_hidden (run : Run σ₀ events σ) (starts : Starts σ₀) {access : LibraryAccess}
    {kind : ObjectKind} {headers : Params} {batch : List Value} {random : Nat → Fin 8 → UInt8}
    {r : Request} (made : Handlers.write access kind headers (some batch) random = .ok r)
    {a : Reply} {d d' : Database} (he : .commit r a d d' ∈ events) :
    (NotesHidden access.libraryId kind (keyed random 0 batch) d a ↔
      NotesCovered access.libraryId kind (keyed random 0 batch) d) ∧
    ∀ a₂ d₂ d₂', (Request.program digests config r).run d₂ = some (d₂', .commit a₂) →
      SameButNotes access.libraryId kind (keyed random 0 batch) d d₂ →
      NotesCovered access.libraryId kind (keyed random 0 batch) d →
      NotesCovered access.libraryId kind (keyed random 0 batch) d₂ →
        a.doneVersion = a₂.doneVersion ∧
        ∀ index, Option.Rel Value.FieldsAgree (a.data index) (a₂.data index) := by
  obtain ⟨expected, rfl⟩ : ∃ expected, r = .guarded access.libraryId (some expected)
      (.write kind batch access.allowStoredFileWrite random) := by
    simp only [Handlers.write] at made
    split at made
    · cases made
    · obtain ⟨expected, made⟩ := precondition_bind made
      cases made
      exact ⟨expected, rfl⟩
  have alone := guarded_runs run starts he
  have reports : Reports access.libraryId kind (d.version access.libraryId + 1)
      (keyed random 0 batch)
      (d.setVersion access.libraryId (d.version access.libraryId + 1)) a := write_reports alone
  refine ⟨?_, fun a₂ d₂ d₂' alone₂ same covered covered₂ => ⟨?_, ?_⟩⟩
  · have iff := hidden_iff_covered reports
    simpa only [NotesHidden, NotesCovered, stored_setVersion] using iff
  · have done₂ := guarded_run (show (GuardedOp.program access.libraryId (some expected)
      (.write kind batch _ random)).run d₂ = some (d₂', .commit a₂) from alone₂)
    rw [(guarded_run alone).2.1, done₂.2.1, same.version]
  · have reports₂ : Reports access.libraryId kind (d₂.version access.libraryId + 1)
        (keyed random 0 batch)
        (d₂.setVersion access.libraryId (d₂.version access.libraryId + 1)) a₂ :=
      write_reports alone₂
    have agree := same.agreeFor covered covered₂
    rw [← same.version] at reports₂
    refine reports.agree reports₂ ?_
    simpa only [AgreeFor, stored_setVersion] using agree

end Runs

/-- The owner's key may write, but not read notes. -/
def writerAccess : LibraryAccess := ⟨newLibrary, none, ⟨true, false, true, false⟩, true, false⟩

def secretRequest (text : String) : Request :=
  .guarded newLibrary (some 0) (.write .item
    [.object [("key", .string "TEXT2345"), ("itemType", .string "note"), ("note", .string text)]]
    true fun _ _ => 0)

def secretDatabase (text : String) : Database :=
  plainServer.after newDatabase 6 (secretRequest text)

def replaceNote : List Value :=
  [.object [("key", .string "TEXT2345"), ("note", .string "mine")]]

def tagNote : List Value := [.object [("key", .string "TEXT2345"), ("tags", .array [])]]

def writerRequest (batch : List Value) : Request :=
  .guarded newLibrary (some 1) (.write .item batch true fun _ _ => 0)

theorem written_after_secret (text : String) (batch : List Value)
    (stores : (plainServer.commits newDatabase 6 (secretRequest text)).isSome)
    (writes : (plainServer.commits (secretDatabase text) 6 (writerRequest batch)).isSome)
    (valid : (secretDatabase text).Valid)
    (valid' : (plainServer.after (secretDatabase text) 6 (writerRequest batch)).Valid) :
    ∃ events a d', Run (Session.idle newDatabase : Session plainServer Unit)
      (events ++ [.commit (writerRequest batch) a (secretDatabase text) d']) (Session.idle d') := by
  obtain ⟨es, a, store, -⟩ := Run.commits () 6 stores rfl valid
  obtain ⟨es', a', run⟩ := store.then_commits () 6 writes rfl valid'
  exact ⟨es', a', _, run⟩

def secretData (text : String) : Members :=
  [("key", .string "TEXT2345"), ("note", .string text), ("version", .ofInt 1),
    ("itemType", .string "note")]

theorem stored_of_secret (d : Database) (text : String)
    (object : d.object = (∅ : Table (LibraryId × ObjectKind × String) Object).put
      (newLibrary, .item, "TEXT2345") ⟨1, .object (secretData text)⟩) (key : String) :
    d.stored newLibrary .item key =
      if key = "TEXT2345" then some (.object (secretData text)) else none := by
  rw [Database.stored, object, Table.find?_put]
  by_cases same : key = "TEXT2345" <;> simp [same]

/-- Replacing the text of a note that has nothing else shows no more than that. -/
theorem written_notes_hidden_text : ∃ events a d',
    Run (Session.idle newDatabase : Session plainServer Unit)
      (events ++ [.commit (writerRequest replaceNote) a (secretDatabase "secret") d'])
      (Session.idle d') ∧
    NotesHidden newLibrary .item (keyed (fun _ _ => 0) 0 replaceNote) (secretDatabase "secret")
      a := by
  obtain ⟨es, a, d', run⟩ := written_after_secret "secret" replaceNote
    rfl rfl (by constructor <;> decide) (by constructor <;> decide)
  have made : Handlers.write writerAccess .item [("if-unmodified-since-version", "1")]
      (some replaceNote) (fun _ _ => 0) = .ok (writerRequest replaceNote) := rfl
  have hidden := written_notes_hidden run (starts_idle newDatabase_valid) made
    (List.mem_append_right _ (List.mem_singleton_self _))
  refine ⟨es, a, d', run, hidden.1.mpr ?_⟩
  intro index key provided entry fields there _ _ name has
  have named : keyed (fun _ _ => 0) 0 replaceNote = [("TEXT2345",
      .object [("key", .string "TEXT2345"), ("note", .string "mine")])] := rfl
  rw [named] at entry ⊢
  cases index with
  | succ index => cases entry
  | zero =>
      cases entry
      have secret := stored_of_secret (secretDatabase "secret") "secret" rfl "TEXT2345"
      obtain rfl := Value.object.inj (Option.some.inj (secret.symm.trans there))
      have known := mem_names_of_get has
      simp only [secretData, List.map_cons, List.map_nil, List.mem_cons, List.not_mem_nil,
        or_false] at known
      rcases known with rfl | rfl | rfl | rfl
      · exact .inl (by decide)
      · exact .inr ⟨_, List.mem_cons_self, rfl⟩
      · exact .inl (by decide)
      · exact .inl (by decide)

/-- Tagging a note shows its text, and so tells two notes apart. -/
theorem written_notes_shown : ∃ events a d' a₂ d₂',
    Handlers.write writerAccess .item [("if-unmodified-since-version", "1")]
      (some tagNote) (fun _ _ => 0) = .ok (writerRequest tagNote) ∧
    Run (Session.idle newDatabase : Session plainServer Unit)
      (events ++ [.commit (writerRequest tagNote) a (secretDatabase "secret") d'])
      (Session.idle d') ∧
    ¬ NotesHidden newLibrary .item (keyed (fun _ _ => 0) 0 tagNote) (secretDatabase "secret") a ∧
    ((writerRequest tagNote).program plainDigests plainConfig).run (secretDatabase "other") =
      some (d₂', .commit a₂) ∧
    SameButNotes newLibrary .item (keyed (fun _ _ => 0) 0 tagNote) (secretDatabase "secret")
      (secretDatabase "other") ∧
    ((a.data 0).bind fun v => v.get "note") = some (.string "secret") ∧
    ((a₂.data 0).bind fun v => v.get "note") = some (.string "other") := by
  obtain ⟨es, a, d', run⟩ := written_after_secret "secret" tagNote
    rfl rfl (by constructor <;> decide) (by constructor <;> decide)
  have shown := write_reports (guarded_runs run (starts_idle newDatabase_valid)
    (List.mem_append_right _ (List.mem_singleton_self _))) 0
  have text : ((a.data 0).bind fun v => v.get "note") = some (.string "secret") := by
    rw [shown]
    rfl
  refine ⟨es, a, d', _, _, rfl, run, fun hidden => ?_, rfl, ?_, text, rfl⟩
  · obtain ⟨v, returned, got⟩ := Option.bind_eq_some_iff.mp text
    rcases hidden 0 _ _ rfl v returned (.inl rfl) "note" (by rw [got]; rfl) with known | supplied
    · simp [publicFields] at known
    · obtain ⟨provided, mem, has⟩ := supplied
      cases List.mem_singleton.mp mem
      cases has
  · refine ⟨rfl, fun key => ?_⟩
    rw [stored_of_secret _ "secret" rfl, stored_of_secret _ "other" rfl]
    split
    · refine .some (.inr ⟨rfl, rfl, fun name known => ?_⟩)
      have other : name ≠ "note" := by
        rintro rfl
        rcases known with known | ⟨provided, first, has⟩
        · simp [publicFields] at known
        · cases List.mem_singleton.mp (List.mem_of_find?_eq_some first)
          cases has
      simp [secretData, Members.get, other.symm]
    · exact .none

end Xotero
