import Xotero.Foundation.Leading
import Xotero.Foundation.Views
import Xotero.Guarantees.Acceptance
import Xotero.Guarantees.Notes
import Xotero.Guarantees.Tags
import Xotero.Handlers.Items

/-!
The data that a client is served: the members of what is stored, an annotation's
type and an attachment's link mode before all others, which keep their order.
-/

namespace Xotero

open Leading
open Session (Run)

/-! ### The order of members -/

/-- How early a client has to see a member. -/
def fieldRank (name : String) : Nat :=
  if name = "annotationType" then 0 else if name = "linkMode" then 1 else 2

/-- The members that need not come first. -/
def otherFields (ms : Members) : Members := ms.filter fun m => fieldRank m.1 = 2

def DiscriminatorsFirst : Value → Prop
  | .object ms => ms.Pairwise fun m m' => fieldRank m.1 ≤ fieldRank m'.1
  | _ => True

/-- `data` is what a client is served for `v`. -/
structure ServedAs (v data : Value) : Prop where
  equals : data.Equals v
  members : ∀ ms, v = .object ms → ∃ ms', data = .object ms' ∧ ms'.Perm ms ∧
    otherFields ms' = otherFields ms
  untouched : ¬ v.asObject.isSome → data = v
  first : DiscriminatorsFirst data
  stable : orderFields data = data

theorem fieldRank_eq (name : String) : fieldRank name = orderFirst.idxOf name := by
  rw [fieldRank, orderFirst]
  by_cases annotation : name = "annotationType"
  · rw [if_pos annotation, List.idxOf_cons_eq _ annotation.symm]
  · rw [if_neg annotation, List.idxOf_cons_ne _ (Ne.symm annotation)]
    by_cases link : name = "linkMode"
    · rw [if_pos link, List.idxOf_cons_eq _ link.symm]
    · rw [if_neg link, List.idxOf_cons_ne _ (Ne.symm link)]
      rfl

theorem fieldRank_eq_two {name : String} : fieldRank name = 2 ↔ name ∉ orderFirst := by
  rw [fieldRank_eq]
  exact List.idxOf_eq_length_iff

theorem discriminatorsFirst_object {ms : Members} :
    DiscriminatorsFirst (.object ms) ↔ Led Prod.fst orderFirst ms := by
  simp only [DiscriminatorsFirst, Led, fieldRank_eq]

theorem otherFields_eq (ms : Members) : otherFields ms = unlisted Prod.fst orderFirst ms :=
  List.filter_congr fun m _ => by simp [fieldRank_eq_two]

/-- The members with a name, of which there is at most one. -/
theorem filter_name {ms : Members} (once : ms.Once) (name : String) :
    (ms.filter fun m => m.1 = name) = ((ms.get name).map (name, ·)).toList := by
  induction ms with
  | nil => rfl
  | cons m ms ih =>
      obtain ⟨n, v⟩ := m
      obtain ⟨absent, rest⟩ := List.nodup_cons.mp once
      by_cases same : n = name
      · subst same
        have none : (ms.filter fun m => m.1 = n) = [] :=
          List.filter_eq_nil_iff.mpr fun m hm other =>
            absent (List.mem_map.mpr ⟨m, hm, of_decide_eq_true other⟩)
        rw [List.filter_cons_of_pos (by simp), none, Members.get, if_pos rfl]
        rfl
      · rw [List.filter_cons_of_neg (by simpa using same), Members.get, if_neg same]
        exact ih rest

/-- Taking out the named members and the rest is leading with them. -/
theorem named_append_rest {names : List String} (distinct : names.Nodup) {ms : Members}
    (once : ms.Once) : (names.filterMap fun name => (ms.get name).map (name, ·)) ++
      ms.filter (fun m => !names.contains m.1) = lead Prod.fst names ms := by
  induction names generalizing ms with
  | nil => exact List.filter_eq_self.mpr fun m _ => rfl
  | cons name names ih =>
      obtain ⟨first, distinct⟩ := List.nodup_cons.mp distinct
      have remaining : Members.Once (ms.filter fun m => m.1 ≠ name) :=
        once.sublist (List.filter_sublist.map Prod.fst)
      have later : (names.filterMap fun n => (ms.get n).map (n, ·)) =
          names.filterMap fun n => (Members.get (ms.filter fun m => m.1 ≠ name) n).map (n, ·) :=
        List.filterMap_congr fun n hn => by
          have other : n ≠ name := fun same => first (same ▸ hn)
          rw [Members.get_filter fun n => n ≠ name, if_pos (by simpa using other)]
      have others : (ms.filter fun m => !(name :: names).contains m.1) =
          (ms.filter fun m => m.1 ≠ name).filter fun m => !names.contains m.1 := by
        rw [List.filter_filter]
        exact List.filter_congr fun m _ => by simp [Bool.and_comm]
      rw [lead, filter_name once, others, ← ih distinct remaining, ← later, ← List.append_assoc]
      congr 1
      cases got : ms.get name <;> simp [got]

theorem orderFields_object {ms : Members} (once : ms.Once) :
    orderFields (.object ms) = .object (lead Prod.fst orderFirst ms) := by
  have distinct : orderFirst.Nodup := by decide
  rw [orderFields]
  split
  · rw [named_append_rest distinct once]
  · rename_i none
    have absent (m : String × Value) (hm : m ∈ ms) : m.1 ∉ orderFirst := fun listed =>
      none (List.any_eq_true.mpr ⟨m.1, listed, by rw [once.get_eq_some.mpr hm]; rfl⟩)
    have led : Led Prod.fst orderFirst ms :=
      List.pairwise_of_forall_mem_list fun m hm m' hm' => by
        rw [List.idxOf_eq_length (absent m hm), List.idxOf_eq_length (absent m' hm')]
    rw [lead_of_led led]

/-- Ordering the fields of a parsed value loses and adds nothing. -/
theorem servedAs_orderFields {v : Value} (parsed : Parsed v) : ServedAs v (orderFields v) where
  equals := equals_orderFields v
  members ms same := by
    subst same
    rw [orderFields_object (parsed ms rfl)]
    refine ⟨_, rfl, lead_perm _ _ _, ?_⟩
    rw [otherFields_eq, otherFields_eq, unlisted_lead]
  untouched := orderFields_of_other
  first := by
    cases v with
    | object ms =>
        rw [orderFields_object (parsed ms rfl)]
        exact discriminatorsFirst_object.mpr (led_lead _ _ _)
    | _ => trivial
  stable := by
    cases v with
    | object ms =>
        have once := parsed ms rfl
        rw [orderFields_object once, orderFields_object, lead_lead]
        exact ((lead_perm _ _ _).map Prod.fst).nodup_iff.mpr once
    | _ => rfl

/-! ### Stored data -/

section Stored
variable {L : LibraryId} {n : Int} {d d' : Database}

/-- The data of every object of the library is as jsonb keeps it. -/
def StoredData (L : LibraryId) (d : Database) : Prop :=
  ∀ kind key o, d.object.find? (L, kind, key) = some o → o.data.Stored

theorem parsed_of_stored {v : Value} (h : v.Stored) : Parsed v := by
  rintro ms rfl
  exact (Value.stored_object.mp h).1.once

theorem StoredData.congr (h : StoredData L d) (same : LibraryAgree L d d') : StoredData L d' :=
  fun kind key o found => h kind key o ((same.find?_object kind key).trans found)

theorem StoredData.setVersion (h : StoredData L d) (m : Int) : StoredData L (d.setVersion L m) :=
  fun kind key o found => h kind key o (by simpa using found)

theorem edit_storedData (h : StoredData L d) {e : Edit}
    (attached : ∀ key upload, e = .register key upload → d.attachment L key = true) :
    StoredData L (Database.edit L n d e) := by
  intro kind key o found
  cases e with
  | store kind' key' provided =>
      rw [Database.edit, Table.find?_put] at found
      split at found
      · obtain rfl := Option.some.inj found
        exact Value.stored_toJsonb _
      · exact h kind key o found
  | remove kind' key' =>
      rw [Database.edit, Table.find?_erase] at found
      split at found
      · cases found
      · exact h kind key o found
  | removeTag tag =>
      rw [find?_removeTag] at found
      obtain ⟨before, there, rfl⟩ := Option.map_eq_some_iff.mp found
      split
      · exact stored_withoutTag (h kind key before there)
      · exact h kind key before there
  | register key' upload =>
      rw [Database.edit] at found
      cases there : d.object.find? (L, .item, key') with
      | none =>
          simp only [there] at found
          exact h kind key o found
      | some before =>
          simp only [there, Table.find?_put] at found
          split at found
          · obtain rfl := Option.some.inj found
            have stored := h .item key' before there
            have attachment : isStoredFileAttachment before.data = true := by
              simpa [Database.attachment, there] using attached key' upload rfl
            cases data : before.data with
            | object ms =>
                rw [data] at stored
                exact stored.concat (by simp [fileStamp, Value.Stored, Value.toJsonb, Value.ofInt])
            | _ => simp [data, isStoredFileAttachment, Value.get] at attachment
          · exact h kind key o found
  | storeSetting | removeSetting | storeText => exact h kind key o found

theorem edits_storedData {es : List Edit} (h : StoredData L d)
    (apart : ∀ key upload, .register key upload ∉ es) : StoredData L (Database.edits L n d es) :=
  edits_keep (fun _ he _ before => edit_storedData before fun key upload same =>
    absurd (same ▸ he) (apart key upload)) h

theorem storeAll_storedData {kind : ObjectKind} {es : List (String × Value)}
    (h : StoredData L d) : StoredData L (d.storeAll L n kind es) :=
  edits_storedData h fun key upload mem => by
    obtain ⟨e, -, same⟩ := List.mem_map.mp mem
    cases same

/-- What an entry becomes has each member once, as the entry and what was stored. -/
theorem parsed_merged {kind : ObjectKind} {key : String} {provided : Value}
    (h : StoredData L d) (parsed : Parsed provided) : Parsed (d.merged L n kind key provided) := by
  intro ms same
  cases provided with
  | object fields =>
      obtain ⟨laid, overlaid⟩ := isObject_overlay (d.stored L kind key) fields
      have stored (v : Value) (there : d.stored L kind key = some v) : v.Stored := by
        obtain ⟨o, found, rfl⟩ := Option.map_eq_some_iff.mp there
        exact h kind key o found
      have once := once_overlay (parsed fields rfl) stored overlaid
      exact once_stampObject once ((congrArg (stampObject key n) overlaid).symm.trans same)
  | _ =>
      rw [merged_of_other (by simp [Value.asObject])] at same
      exact parsed ms same

end Stored

/-! ### Reads -/

section Reads
variable {I : Database → Prop} {L : LibraryId} {kind : ObjectKind} {notes : Bool}
  {front : Frontend} {path : String} {raw : Option String}

/-- The row of an object in a state with `I`. -/
def FromState (I : Database → Prop) (L : LibraryId) (kind : ObjectKind)
    (row : String × Object) : Prop :=
  ∃ d, I d ∧ d.object.find? (L, kind, row.1) = some row.2

/-- Each object of the body is that of a state with `I`, as it is served. -/
def Serves (I : Database → Prop) (L : LibraryId) (kind : ObjectKind) (body : Value) : Prop :=
  ∀ rows, body = .array rows → ∀ row ∈ rows, ∃ key o data, FromState I L kind (key, o) ∧
    row = reported key o.version data ∧ ServedAs o.data data

/-- The response lists items of states with `I`, as they are served, or none at all. -/
def ServesItems (I : Database → Prop) (L : LibraryId) (response : ItemsResponse) : Prop :=
  ∀ v, response.body = some (.json v) → Serves I L .item v

theorem views_execute {q : Sql} {Q : q.Result → Prop} (h : ∀ d, I d → Q (q.eval d)) :
    (execute q).Views (D := Db) I Q := by
  unfold execute
  split
  · exact fun d hd => h d hd
  · trivial

theorem serves_versionMap (rows : List (String × Int)) : Serves I L kind (versionMap rows) :=
  fun _ array => nomatch array

theorem views_versions (since : Int) :
    (versions L kind since notes).Views (D := Db) I (Serves I L kind) :=
  Txn.views_bind_any fun rows => serves_versionMap rows

theorem views_topVersions (since : Int) :
    (topVersions L since notes).Views (D := Db) I (Serves I L .item) :=
  Txn.views_bind_any fun rows => serves_versionMap rows

variable (stored : ∀ d, I d → StoredData L d)
include stored

theorem serves_rows {rows : List (String × Object)}
    (there : ∀ row ∈ rows, FromState I L kind row) : Serves I L kind (objectsBody rows) := by
  rintro _ ⟨⟩ _ mem
  obtain ⟨row, listed, rfl⟩ := List.mem_map.mp mem
  obtain ⟨d, hd, found⟩ := there row listed
  exact ⟨row.1, row.2, _, ⟨d, hd, found⟩, rfl,
    servedAs_orderFields (parsed_of_stored (stored d hd kind row.1 row.2 found))⟩

theorem views_objects (keys : List String) :
    (objects L kind keys notes).Views (D := Db) I (Serves I L kind) := by
  have rows : (execute (.objects L kind keys notes)).Views (D := Db) I
      fun rows => ∀ row ∈ rows, FromState I L kind row := by
    refine views_execute fun d hd row mem => ⟨d, hd, ?_⟩
    simp only [Sql.eval] at mem
    exact (mem_objectsWhere.mp mem).1
  exact Txn.views_bind rows fun rows there => serves_rows stored there

theorem views_queryItems (locale : Locale) (q : ItemQuery) :
    (queryItems locale L q notes).Views (D := Db) I fun r => Serves I L .item (.array r.1) := by
  have rows : (execute (.queryItems locale L q notes)).Views (D := Db) I
      fun rows => ∀ row ∈ rows, FromState I L .item row := by
    refine views_execute fun d hd row mem => ⟨d, hd, ?_⟩
    simp only [Sql.eval] at mem
    have matching := (List.mem_insertionSort _).mp
      (List.mem_of_mem_drop (List.mem_of_mem_take mem))
    exact (mem_objectsWhere.mp matching).1
  refine Txn.views_bind_any fun total => ?_
  exact Txn.views_bind rows fun rows there => serves_rows stored there

theorem views_read (params : Params) : (Handlers.read L kind params).Views (D := Db) I
    fun r => ∀ v, r.body = some v → Serves I L kind v := by
  refine Txn.views_ite (fun _ => ?_) fun _ => ?_
  · refine Txn.views_bind_any fun current => ?_
    refine Txn.views_bind (views_versions _) fun value serves => ?_
    rintro v ⟨⟩
    exact serves
  · refine Txn.views_bind (views_objects stored _) fun value serves => ?_
    refine Txn.views_bind_any fun current => ?_
    rintro v ⟨⟩
    exact serves

/-- The sync reads of items. -/
theorem views_itemSyncRead (params : Params) (top : Bool) :
    (Handlers.itemSyncRead L params top notes).Views (D := Db) I
      fun r => ∀ response, r = some response → ∀ v, response.body = some v →
        Serves I L .item v := by
  refine Txn.views_ite (fun _ => ?_) fun _ => ?_
  · refine Txn.views_bind_any fun current => ?_
    cases top with
    | true =>
        refine Txn.views_bind (views_topVersions _) fun value serves => ?_
        rintro response ⟨⟩ v ⟨⟩
        exact serves
    | false =>
        refine Txn.views_bind (views_versions _) fun value serves => ?_
        rintro response ⟨⟩ v ⟨⟩
        exact serves
  · cases keys : params.get "itemKey" with
    | none => exact fun _ none => nomatch none
    | some csv =>
        refine Txn.views_bind (views_objects stored _) fun value serves => ?_
        refine Txn.views_bind_any fun current => ?_
        rintro response ⟨⟩ v ⟨⟩
        exact serves

omit stored in
/-- A list of keys is a text. -/
theorem ends_itemKeysResponse_text (params : Params) (q : ItemQuery) :
    (Handlers.itemKeysResponse front L notes params q).Ends fun r =>
      ∀ response, r = some response → ∀ v, response.body ≠ some (.json v) := by
  unfold Handlers.itemKeysResponse
  split
  · exact fun _ none => nomatch none
  · refine Txn.ends_bind (Txn.ends_true _) fun keys _ => ?_
    refine Txn.ends_bind (Txn.ends_true _) fun current _ => ?_
    rintro response ⟨⟩ v
    exact nofun

theorem views_itemListing (q : ItemQuery) :
    (Handlers.itemListing front L notes path raw q).Views (D := Db) I (ServesItems I L) := by
  refine Txn.views_bind (views_queryItems stored _ q) fun r serves => ?_
  refine Txn.views_bind_any fun current => ?_
  rintro v ⟨⟩
  exact serves

theorem views_itemQuery (q : ItemQuery) :
    (Handlers.itemQuery front L notes path raw q).Views (D := Db) I (ServesItems I L) := by
  refine Txn.views_bind (Txn.Ends.views (ends_itemKeysResponse_text _ q)) fun r text => ?_
  cases r with
  | some response => exact fun v body => absurd body (text response rfl v)
  | none => exact views_itemListing stored q

theorem views_itemsWith (top : Bool) :
    (Handlers.itemsWith front L notes path raw top).Views (D := Db) I (ServesItems I L) := by
  refine Txn.views_bind (views_itemSyncRead stored _ top) fun r serves => ?_
  cases r with
  | none => exact views_itemQuery stored _
  | some response =>
      intro v body
      obtain ⟨w, same, ⟨⟩⟩ := Option.map_eq_some_iff.mp body
      exact serves response rfl _ same

/-- Every listing of items. -/
theorem views_items (route : ItemsRoute) :
    (route.get front L notes path raw).Views (D := Db) I (ServesItems I L) := by
  cases route with
  | items | top => exact views_itemsWith stored _
  | trash | collection | collectionTop => exact views_itemQuery stored _

end Reads

/-! ### Runs -/

section Runs
variable {digests : Digests} {config : Config} {ι : Type} [DecidableEq ι]
  {σ₀ σ : Session (server digests config) ι} {events : List (Event (server digests config))}
  {L : LibraryId}

theorem storedData_of_run (run : Run σ₀ events σ) (starts : Starts σ₀)
    (stored : StoredData L σ₀.state) : StoredData L σ.state := by
  refine kept_between .refl run starts L (I := StoredData L) stored ?_
  intro e _ d d' change before
  cases change with
  | guarded committed =>
      exact committed.after ▸ edits_storedData (before.setVersion _) fun _ _ =>
        register_not_mem_edits
  | registered _ item after =>
      refine (edit_storedData (before.setVersion _) ?_).congr after
      rintro _ _ ⟨⟩
      simpa [Database.attachment] using item
  | apart same _ => exact before.congr same

/-- A state of the database that some run ends in. -/
def Reached (σ₀ : Session (server digests config) ι) (d : Database) : Prop :=
  ∃ (events : List (Event (server digests config))) (σ : Session (server digests config) ι),
    Run σ₀ events σ ∧ σ.state = d

theorem storedData_of_reached {d : Database} (reached : Reached σ₀ d) (starts : Starts σ₀)
    (typed : σ₀.state.Typed) : StoredData L d := by
  obtain ⟨events, σ, run, rfl⟩ := reached
  refine storedData_of_run run starts fun kind key o found => ?_
  exact (typed.object L kind key o.data (by rw [Database.stored, found]; rfl)).1

/-- A report returns each entry as it is served of the object it stored. -/
theorem report_served {expected : Option Int} {kind : ObjectKind} {batch : List Value}
    {allow : Bool} {random : Nat → Fin 8 → UInt8} {a : Reply} {d d' : Database}
    (stored : StoredData L d) (parsed : ∀ provided ∈ batch, Parsed provided)
    (ran : (GuardedOp.program L expected (.write kind batch allow random)).run d =
      some (d', .commit a)) (index : Nat) {data : Value} (returned : a.data index = some data) :
    ∃ key provided object, (keyed random 0 batch)[index]? = some (key, provided) ∧
      ((d.setVersion L (d.version L + 1)).storeAll L (d.version L + 1) kind
        ((keyed random 0 batch).take (index + 1))).stored L kind key = some object.toJsonb ∧
      ServedAs object data := by
  rw [write_reports ran] at returned
  obtain ⟨⟨key, provided⟩, entry, rfl⟩ := Option.map_eq_some_iff.mp returned
  refine ⟨key, provided, _, entry, merged_stored entry, servedAs_orderFields ?_⟩
  exact parsed_merged (storeAll_storedData (stored.setVersion _))
    (parsed _ (mem_of_keyed (List.mem_of_getElem? entry)))

/-- Ordering loses nothing and puts the discriminators first; and so is whatever a
write reports and a read returns. -/
theorem data_served (run : Run σ₀ events σ) (starts : Starts σ₀) (typed : σ₀.state.Typed) :
    (∀ v, Parsed v → ServedAs v (orderFields v)) ∧
    (∀ L expected kind batch allow random a d d',
      .commit (Request.guarded L expected (.write kind batch allow random)) a d d' ∈ events →
      (∀ provided ∈ batch, Parsed provided) → ∀ index data, a.data index = some data →
        ∃ key provided object, (keyed random 0 batch)[index]? = some (key, provided) ∧
          ((d.setVersion L (d.version L + 1)).storeAll L (d.version L + 1) kind
            ((keyed random 0 batch).take (index + 1))).stored L kind key = some object.toJsonb ∧
          ServedAs object data) ∧
    (∀ front L notes path raw (route : ItemsRoute) states response,
      (∀ d ∈ states, Reached σ₀ d) →
      (route.get front L notes path raw).replay states = some response →
        ServesItems (· ∈ states) L response) ∧
    ∀ L kind params states response, (∀ d ∈ states, Reached σ₀ d) →
      (Handlers.read L kind params).replay states = some response →
        ∀ v, response.body = some v → Serves (· ∈ states) L kind v := by
  have stored {states : List Database} (reached : ∀ d ∈ states, Reached σ₀ d) (L : LibraryId)
      (d : Database) (mem : d ∈ states) : StoredData L d :=
    storedData_of_reached (reached d mem) starts typed
  refine ⟨fun v => servedAs_orderFields, ?_, ?_, ?_⟩
  · intro L expected kind batch allow random a d d' he parsed index data returned
    obtain ⟨before, σ₁, run₁, rfl, -⟩ := run.before he .commit
    exact report_served (storedData_of_reached ⟨before, σ₁, run₁, rfl⟩ starts typed) parsed
      (guarded_runs run starts he) index returned
  · intro front L notes path raw route states response reached replayed
    exact (views_items (stored reached L) route).replay (fun _ mem => mem) replayed
  · intro L kind params states response reached replayed
    exact (views_read (stored reached L) params).replay (fun _ mem => mem) replayed

/-- An attachment whose link mode is not its first member. -/
def linkedAttachment : Value :=
  .object [("key", .string "ATTACH22"), ("itemType", .string "attachment"),
    ("linkMode", .string "imported_file"), ("filename", .string "t.pdf"),
    ("contentType", .string "application/pdf")]

def linkedRequest : Request :=
  .guarded newLibrary (some 0) (.write .item [linkedAttachment] true fun _ _ => 0)

def linkedDatabase : Database := plainServer.after newDatabase 6 linkedRequest

/-- What the items of the library are listed as. -/
def linkedListing : Option ItemsResponse :=
  (ItemsRoute.items.get plainFrontend newLibrary true "/users/1/items" none).replay
    [linkedDatabase, linkedDatabase, linkedDatabase]

theorem data_served_linked : ∃ a : Reply, ∃ data, a.data 0 = some data ∧
    DiscriminatorsFirst data ∧ (namedKeys data).head? = some "linkMode" ∧
      ∃ response row, linkedListing = some response ∧
        response.body = some (.json (.array [row])) ∧
          ∃ listed, row.get "data" = some listed ∧ DiscriminatorsFirst listed := by
  obtain ⟨events, a, run, -⟩ := Run.commits (ι := Unit) (S := plainServer) (s := newDatabase)
    (t := linkedDatabase) (r := linkedRequest) () 6 rfl rfl (by constructor <;> decide)
  have starts : Starts (Session.idle newDatabase : Session plainServer Unit) :=
    starts_idle newDatabase_valid
  have he := List.mem_append_right events (List.mem_singleton_self
    (Event.commit (S := plainServer) linkedRequest a newDatabase linkedDatabase))
  obtain ⟨-, reports, lists, -⟩ := data_served run starts newDatabase_typed
  have returned := write_reports (guarded_runs run starts he) 0
  have parsed : ∀ provided ∈ [linkedAttachment], Parsed provided := by
    intro provided mem fields same
    obtain rfl := List.mem_singleton.mp mem
    cases same
    decide
  obtain ⟨_, _, _, -, -, served⟩ := reports _ _ _ _ _ _ _ _ _ he parsed 0 _ returned
  have states : ∀ d ∈ [linkedDatabase, linkedDatabase, linkedDatabase],
      Reached (Session.idle newDatabase : Session plainServer Unit) d := by
    intro d mem
    obtain rfl : d = linkedDatabase := by simpa using mem
    exact ⟨_, _, run, rfl⟩
  obtain ⟨response, row, listing, body⟩ : ∃ response row, linkedListing = some response ∧
      response.body = some (.json (.array [row])) := ⟨_, _, rfl, rfl⟩
  obtain ⟨_, _, listed, -, rfl, served'⟩ :=
    lists _ _ _ _ _ _ _ response states listing _ body _ rfl row (List.mem_singleton_self row)
  exact ⟨a, _, returned, served.first, rfl, response, _, listing, body, listed, rfl, served'.first⟩

end Runs

end Xotero
