import Xotero.Foundation.TwoRun
import Xotero.Store.Objects
import Xotero.Store.Settings
import Xotero.Store.Versions

/-!
What the reads of a library depend on: two states with the same visible rows of
the library answer each of them alike. Rows that a statement returns in no order
are compared up to their order.
-/

namespace Xotero

/-- A row that a reader with or without the notes permission may see. -/
def visible (notes : Bool) (kind : ObjectKind) (o : Object) : Bool :=
  kind ≠ .item || noteVisible notes o

/-- The states have the same visible rows of library `L`. -/
structure SameRows (L : LibraryId) (notes : Bool) (d d' : Database) : Prop where
  version : (d.library.find? L).map Library.version = (d'.library.find? L).map Library.version
  object : ∀ kind key, (d.object.find? (L, kind, key)).filter (visible notes kind) =
    (d'.object.find? (L, kind, key)).filter (visible notes kind)
  setting : ∀ key, d.setting.find? (L, key) = d'.setting.find? (L, key)
  deletion : ∀ kind key, d.deletion.find? (L, kind, key) = d'.deletion.find? (L, kind, key)
  file : ∀ key, d.file.find? (L, key) = d'.file.find? (L, key)
  fulltext : ∀ key, d.fulltext.find? (L, key) = d'.fulltext.find? (L, key)

/-- The reads of library `L` that return no note unless `notes` is granted. -/
def Sql.reads (L : LibraryId) (notes : Bool) : Sql → Prop
  | .libraryVersion M | .settings M | .deletedSince M _ | .fulltextVersions M _
  | .fulltextItem M _ => M = L
  | .objectData M kind _ => M = L ∧ (kind = .item → notes = true)
  | .objects M kind _ includeNotes | .versions M kind _ includeNotes =>
      M = L ∧ (kind = .item → includeNotes = true → notes = true)
  | .topVersions M _ includeNotes | .countItems _ M _ includeNotes
  | .queryItems _ M _ includeNotes | .itemKeys _ M _ includeNotes =>
      M = L ∧ (includeNotes = true → notes = true)
  | .tags _ M => M = L ∧ notes = true
  | .fileMeta M _ => M = L
  | _ => False

/-- The same rows in some order, no name twice. -/
structure SameNamed {ρ : Type} (rows rows' : List (String × ρ)) : Prop where
  perm : rows.Perm rows'
  nodup : (rows.map Prod.fst).Nodup

/-- The same result; of rows without an order, the same rows. -/
def Sql.Same : (q : Sql) → q.Result → q.Result → Prop
  | .objects .., rows, rows' => SameNamed rows rows'
  | .versions .., rows, rows' | .topVersions .., rows, rows'
  | .fulltextVersions .., rows, rows' => SameNamed rows rows'
  | .settings _, rows, rows' => SameNamed rows rows'
  | .deletedSince .., rows, rows' => rows.Perm rows'
  | _, r, r' => r = r'

section
variable {L : LibraryId} {notes : Bool} {d d' : Database}

theorem noteVisible_mono {includeNotes : Bool} {o : Object} (h : noteVisible includeNotes o = true)
    (le : includeNotes = true → notes = true) : noteVisible notes o = true := by
  simp only [noteVisible, Bool.or_eq_true] at *
  exact h.imp_left le

/-- What a read that leaves notes out shows is visible. -/
theorem visible_mono {includeNotes : Bool} {kind : ObjectKind} {o : Object}
    (h : visible includeNotes kind o = true)
    (le : kind = .item → includeNotes = true → notes = true) : visible notes kind o = true := by
  simp only [visible, Bool.or_eq_true, decide_eq_true_eq] at h ⊢
  by_cases item : kind = .item
  · exact .inr (noteVisible_mono (h.resolve_left (not_not.mpr item)) (le item))
  · exact .inl item

theorem Option.filter_iff {α : Type} {a b : Option α} {p : α → Bool}
    (h : a.filter p = b.filter p) {x : α} (holds : p x = true) : a = some x ↔ b = some x := by
  have inside (c : Option α) : c = some x ↔ c.filter p = some x := by
    rw [Option.filter_eq_some_iff]
    exact (and_iff_left holds).symm
  rw [inside a, inside b, h]

theorem SameNamed.map {ρ τ : Type} {rows rows' : List (String × ρ)} (h : SameNamed rows rows')
    (f : String × ρ → τ) :
      SameNamed (rows.map fun e => (e.1, f e)) (rows'.map fun e => (e.1, f e)) :=
  ⟨h.1.map _, by simpa only [List.map_map, Function.comp_def] using h.2⟩

/-- Rows of different names are the same row, if their names are the same. -/
theorem SameNamed.eq_of_fst {ρ : Type} {rows rows' : List (String × ρ)} (h : SameNamed rows rows')
    {e e' : String × ρ} (he : e ∈ rows) (he' : e' ∈ rows') (same : e.1 = e'.1) : e = e' :=
  List.inj_on_of_nodup_map h.2 he (h.1.mem_iff.mpr he') same

/-- A library has one object of a kind under a key. -/
theorem nodup_objectsWhere (d : Database) (L : LibraryId) (kind : ObjectKind)
    (p : String → Object → Bool) : ((d.objectsWhere L kind p).map Prod.fst).Nodup := by
  rw [Database.objectsWhere, List.map_map]
  refine List.Nodup.map_on ?_ (Table.nodup_select _ _).of_map
  rintro ⟨⟨M, kind₁, key₁⟩, o₁⟩ h₁ ⟨⟨N, kind₂, key₂⟩, o₂⟩ h₂ same
  obtain ⟨found₁, here₁⟩ := Table.mem_select.mp h₁
  obtain ⟨found₂, here₂⟩ := Table.mem_select.mp h₂
  simp only [Bool.and_eq_true, decide_eq_true_eq] at here₁ here₂
  obtain ⟨⟨rfl, rfl⟩, -⟩ := here₁
  obtain ⟨⟨rfl, rfl⟩, -⟩ := here₂
  obtain rfl : key₁ = key₂ := same
  rw [Option.some.inj (found₁.symm.trans found₂)]

namespace SameRows

theorem find?_iff (h : SameRows L notes d d') {kind : ObjectKind} {key : String} {o : Object}
    (seen : visible notes kind o = true) :
    d.object.find? (L, kind, key) = some o ↔ d'.object.find? (L, kind, key) = some o :=
  Option.filter_iff (h.object kind key) seen

/-- Selections of visible objects. -/
theorem objectsWhere (h : SameRows L notes d d') {kind : ObjectKind}
    {p p' : String → Object → Bool} (same : ∀ key o, p key o = p' key o)
    (seen : ∀ key o, p key o = true → visible notes kind o = true) :
    SameNamed (d.objectsWhere L kind p) (d'.objectsWhere L kind p') := by
  constructor
  · refine (Table.select_perm fun k o => ?_).map _
    obtain ⟨M, kind', key⟩ := k
    simp only [Bool.and_eq_true, decide_eq_true_eq, ← same key o]
    constructor
    · rintro ⟨found, ⟨rfl, rfl⟩, holds⟩
      exact ⟨(h.find?_iff (seen key o holds)).mp found, ⟨rfl, rfl⟩, holds⟩
    · rintro ⟨found, ⟨rfl, rfl⟩, holds⟩
      exact ⟨(h.find?_iff (seen key o holds)).mpr found, ⟨rfl, rfl⟩, holds⟩
  · exact nodup_objectsWhere d L kind p

/-- Rows of a table whose key is a library and a name. -/
theorem sameNamed_select {ρ : Type} {t u : Table (LibraryId × String) ρ}
    (h : ∀ key, t.find? (L, key) = u.find? (L, key)) (p : ρ → Bool) :
    SameNamed ((t.select fun k row => k.1 = L && p row).map fun e => (e.1.2, e.2))
      ((u.select fun k row => k.1 = L && p row).map fun e => (e.1.2, e.2)) := by
  constructor
  · refine (Table.select_perm fun k row => ?_).map _
    obtain ⟨M, key⟩ := k
    simp only [Bool.and_eq_true, decide_eq_true_eq]
    constructor
    · rintro ⟨found, rfl, holds⟩
      exact ⟨(h key).symm.trans found, rfl, holds⟩
    · rintro ⟨found, rfl, holds⟩
      exact ⟨(h key).trans found, rfl, holds⟩
  · rw [List.map_map]
    refine List.Nodup.map_on ?_ (Table.nodup_select _ _).of_map
    rintro ⟨⟨M, key₁⟩, r₁⟩ h₁ ⟨⟨N, key₂⟩, r₂⟩ h₂ same
    obtain ⟨found₁, here₁⟩ := Table.mem_select.mp h₁
    obtain ⟨found₂, here₂⟩ := Table.mem_select.mp h₂
    simp only [Bool.and_eq_true, decide_eq_true_eq] at here₁ here₂
    obtain rfl := here₁.1
    obtain rfl := here₂.1
    obtain rfl : key₁ = key₂ := same
    rw [Option.some.inj (found₁.symm.trans found₂)]

theorem matchingItems (h : SameRows L notes d d') (locale : Locale) (q : ItemQuery)
    {includeNotes : Bool} (le : includeNotes = true → notes = true) :
    SameNamed (d.matchingItems locale L q includeNotes)
      (d'.matchingItems locale L q includeNotes) := by
  refine h.objectsWhere (fun key o => by rw [h.fulltext]) fun key o holds => ?_
  simp only [itemMatches, Bool.and_eq_true] at holds
  exact noteVisible_mono holds.1.1.1.1.1.1.1 le

theorem usedTags (h : SameRows L true d d') : (d.usedTags L).Perm (d'.usedTags L) :=
  (h.objectsWhere (fun _ _ => rfl) fun _ _ _ => by simp [visible, noteVisible]).1.flatMap_right _

/-- A served file belongs to an attachment, which is no note. -/
theorem fileMeta (h : SameRows L notes d d') (key : String) :
    Sql.eval (.fileMeta L key) d = Sql.eval (.fileMeta L key) d' := by
  have seen (o : Object) (attachment : o.data.getText "itemType" = some "attachment") :
      visible notes .item o = true := by
    simp [visible, noteVisible, Value.itemType, attachment]
  have found (o : Object) (attachment : o.data.getText "itemType" = some "attachment") :
      d.object.find? (L, .item, key) = some o ↔ d'.object.find? (L, .item, key) = some o :=
    h.find?_iff (seen o attachment)
  simp only [Sql.eval, h.file]
  cases d'.file.find? (L, key) with
  | none => rfl
  | some f =>
      cases here : d.object.find? (L, .item, key) <;>
        cases there : d'.object.find? (L, .item, key) <;> grind

/-- What a read returns of the visible rows. -/
theorem same_of_reads (h : SameRows L notes d d') {q : Sql} (reads : q.reads L notes) :
    q.Same (q.eval d) (q.eval d') := by
  cases q with
  | libraryVersion M =>
      obtain rfl := reads
      exact h.version
  | objects M kind keys includeNotes =>
      obtain ⟨rfl, le⟩ := reads
      simp only [Sql.Same, Sql.eval]
      refine h.objectsWhere (fun _ _ => rfl) fun key o holds => ?_
      exact visible_mono (Bool.and_eq_true_iff.mp holds).2 le
  | objectData M kind key =>
      obtain ⟨rfl, le⟩ := reads
      have seen (o : Object) : visible notes kind o = true := by
        by_cases item : kind = .item
        · simp [visible, noteVisible, le item]
        · simp [visible, item]
      exact congrArg (Option.map Object.data) (Option.ext fun o => h.find?_iff (seen o))
  | versions M kind since includeNotes =>
      obtain ⟨rfl, le⟩ := reads
      refine SameNamed.map (h.objectsWhere (fun _ _ => rfl) fun key o holds => ?_) fun e =>
        e.2.version
      exact visible_mono (Bool.and_eq_true_iff.mp holds).2 le
  | topVersions M since includeNotes =>
      obtain ⟨rfl, le⟩ := reads
      refine SameNamed.map (h.objectsWhere (fun _ _ => rfl) fun key o holds => ?_) fun e =>
        e.2.version
      simp only [Bool.and_eq_true] at holds
      exact noteVisible_mono holds.2 le
  | countItems locale M q includeNotes =>
      obtain ⟨rfl, le⟩ := reads
      exact (h.matchingItems locale q le).1.length_eq
  | queryItems locale M q includeNotes =>
      obtain ⟨rfl, le⟩ := reads
      have same := h.matchingItems locale q le
      simp only [Sql.Same, Sql.eval]
      have sorted := @insertionSort_eq_of_perm _ (q.compareRows locale) _ _ _ same.perm
        fun e he e' he' equal => same.eq_of_fst he he' (ItemQuery.key_eq_of_compareRows equal)
      rw [sorted]
  | itemKeys locale M q includeNotes =>
      obtain ⟨rfl, le⟩ := reads
      exact insertionSort_eq_of_perm ((h.matchingItems locale q le).1.map _)
        fun _ _ _ _ equal => Std.LawfulEqCmp.eq_of_compare equal
  | tags locale M =>
      obtain ⟨rfl, rfl⟩ := reads
      have same := h.usedTags
      simp only [Sql.Same, Sql.eval]
      have sorted := @insertionSort_eq_of_perm _ locale.compare _ _ _ same.dedup
        fun _ _ _ _ equal => Std.LawfulEqCmp.eq_of_compare equal
      rw [sorted]
      exact List.map_congr_left fun tag _ => by rw [same.count_eq]
  | deletedSince M since =>
      obtain rfl := reads
      refine (Table.select_perm fun k version => ?_).map _
      obtain ⟨M', kind, key⟩ := k
      simp only [Bool.and_eq_true, decide_eq_true_eq]
      constructor
      · rintro ⟨found, rfl, above⟩
        exact ⟨(h.deletion kind key).symm.trans found, rfl, above⟩
      · rintro ⟨found, rfl, above⟩
        exact ⟨(h.deletion kind key).trans found, rfl, above⟩
  | settings M =>
      obtain rfl := reads
      simpa only [Sql.Same, Sql.eval, Bool.and_true] using
        sameNamed_select h.setting fun _ => true
  | fulltextVersions M since =>
      obtain rfl := reads
      have same := (sameNamed_select h.fulltext fun row => decide (since < row.version)).map
        fun e => e.2.version
      simpa only [Sql.Same, Sql.eval, List.map_map, Function.comp_def] using same
  | fulltextItem M key =>
      obtain rfl := reads
      exact h.fulltext key
  | fileMeta M key =>
      obtain rfl := reads
      exact h.fileMeta key
  | _ => cases reads

end SameRows

/-! ### Responses -/

mutual

/-- The same value, up to the order of the rows it was made of. -/
inductive Value.Same : Value → Value → Prop where
  | refl (v : Value) : Value.Same v v
  | array {vs ws : List Value} (rows : vs.Perm ws) : Value.Same (.array vs) (.array ws)
  | object {ms ms' : Members} (rows : ms.Perm ms') : Value.Same (.object ms) (.object ms')
  | fields {ms ms' : Members} (fields : FieldsSame ms ms') : Value.Same (.object ms) (.object ms')

inductive FieldsSame : Members → Members → Prop where
  | nil : FieldsSame [] []
  | cons {name : String} {v w : Value} {ms ms' : Members} (value : Value.Same v w)
      (rest : FieldsSame ms ms') : FieldsSame ((name, v) :: ms) ((name, w) :: ms')

end

/-- Rows of different names, put into a map one by one. -/
theorem foldl_insert {ρ : Type} (value : ρ → Value) {rows : List (String × ρ)}
    (nodup : (rows.map Prod.fst).Nodup) :
    rows.foldl (fun map row => Members.insert row.1 (value row.2) map) [] =
      rows.map fun row => (row.1, value row.2) := by
  have onto (map : Members) (nodup : (map.map Prod.fst ++ rows.map Prod.fst).Nodup) :
      rows.foldl (fun map row => Members.insert row.1 (value row.2) map) map =
        map ++ rows.map fun row => (row.1, value row.2) := by
    induction rows generalizing map with
    | nil => simp
    | cons row rows ih =>
        have absent : row.1 ∉ map.map Prod.fst := by
          intro mem
          exact (List.nodup_append.mp nodup).2.2 row.1 mem row.1 (by simp) rfl
        rw [List.foldl_cons, insert_of_absent absent, ih (by grind) _ (by simpa using nodup)]
        simp
  simpa using onto [] (by simpa using nodup)

theorem SameNamed.map_object {ρ : Type} {rows rows' : List (String × ρ)}
    (h : SameNamed rows rows') (value : ρ → Value) :
    Value.Same (.object (rows.foldl (fun map row => Members.insert row.1 (value row.2) map) []))
      (.object (rows'.foldl (fun map row => Members.insert row.1 (value row.2) map) [])) := by
  have nodup : (rows'.map Prod.fst).Nodup := (h.perm.map Prod.fst).nodup_iff.mp h.nodup
  rw [foldl_insert value h.nodup, foldl_insert value nodup]
  exact .object (h.perm.map _)

/-! ### Programs -/

/-- Over states with the same visible rows, the program ends in results related
by `S`. -/
abbrev ReadsAlike {α : Type} (L : LibraryId) (notes : Bool) (S : α → α → Prop) (p : Txn Db α) :
    Prop :=
  Txn.Alike (D := Db) (Sql.reads L notes) Sql.Same S p p

theorem SameRows.twin (h : SameRows L notes d d') :
    Txn.Twin (D := Db) (Sql.reads L notes) Sql.Same d d' :=
  fun _ reads => h.same_of_reads reads

theorem alike_execute {q : Sql} (reads : q.reads L notes) :
    ReadsAlike L notes q.Same (execute q) := by
  unfold execute
  split
  · exact Txn.alike_stmt reads
  · exact Txn.alike_fail

/-- One read, and what is made of its result. -/
theorem alike_read {α : Type} {S : α → α → Prop} {q : Sql} {f : q.Result → α}
    (reads : q.reads L notes) (same : ∀ r r', q.Same r r' → S (f r) (f r')) :
    ReadsAlike L notes S (do return f (← execute q)) :=
  Txn.alike_bind (alike_execute reads) fun r r' related => Txn.alike_ret (same r r' related)

theorem alike_fetchOne {α : Type} (a : Option α) : ReadsAlike L notes Eq (fetchOne a) := by
  cases a with
  | none => exact Txn.alike_fail
  | some a => exact Txn.alike_ret rfl

theorem alike_currentVersion : ReadsAlike L notes Eq (currentVersion L) :=
  Txn.alike_bind (alike_execute (q := .libraryVersion L) rfl) fun r r' same => by
    obtain rfl : r = r' := same
    exact alike_fetchOne r

section
variable {includeNotes : Bool} (le : includeNotes = true → notes = true)
include le

theorem alike_versions (kind : ObjectKind) (since : Int) :
    ReadsAlike L notes Value.Same (versions L kind since includeNotes) :=
  alike_read (q := .versions L kind since includeNotes) ⟨rfl, fun _ => le⟩
    fun _ _ same => SameNamed.map_object same .ofInt

theorem alike_topVersions (since : Int) :
    ReadsAlike L notes Value.Same (topVersions L since includeNotes) :=
  alike_read (q := .topVersions L since includeNotes) ⟨rfl, le⟩
    fun _ _ same => SameNamed.map_object same .ofInt

theorem alike_objects (kind : ObjectKind) (keys : List String) :
    ReadsAlike L notes Value.Same (objects L kind keys includeNotes) :=
  alike_read (q := .objects L kind keys includeNotes) ⟨rfl, fun _ => le⟩
    fun _ _ same => .array (same.perm.map _)

theorem alike_queryItems (locale : Locale) (q : ItemQuery) :
    ReadsAlike L notes Eq (queryItems locale L q includeNotes) := by
  refine Txn.alike_bind (alike_execute (q := .countItems locale L q includeNotes) ⟨rfl, le⟩) ?_
  intro total total' same
  obtain rfl : total = total' := same
  refine alike_read (q := .queryItems locale L q includeNotes) ⟨rfl, le⟩ fun rows rows' same => ?_
  obtain rfl : rows = rows' := same
  rfl

theorem alike_itemKeys (locale : Locale) (q : ItemQuery) :
    ReadsAlike L notes Eq (itemKeys locale L q includeNotes) :=
  alike_execute (q := .itemKeys locale L q includeNotes) ⟨rfl, le⟩

end

theorem alike_tags (locale : Locale) : ReadsAlike L true Eq (tags locale L) :=
  alike_read (q := .tags locale L) ⟨rfl, rfl⟩ fun rows rows' same => by
    obtain rfl : rows = rows' := same
    rfl

theorem alike_settings : ReadsAlike L notes Value.Same (settings L) :=
  alike_read (q := .settings L) rfl fun _ _ same => SameNamed.map_object same fun row : Setting =>
    .object [("value", row.value), ("version", .ofInt row.version)]

theorem alike_fulltextVersions (since : Int) :
    ReadsAlike L notes Value.Same (fulltextVersions L since) :=
  alike_read (q := .fulltextVersions L since) rfl
    fun _ _ same => SameNamed.map_object same .ofInt

theorem alike_fulltextItem (key : String) : ReadsAlike L notes Eq (fulltextItem L key) :=
  alike_read (q := .fulltextItem L key) rfl fun r r' same => by
    obtain rfl : r = r' := same
    rfl

theorem alike_deleted (since : Int) : ReadsAlike L notes Value.Same (deleted L since) := by
  refine alike_read (q := .deletedSince L since) rfl fun rows rows' same => ?_
  have same : rows.Perm rows' := same
  have column (kind : DeletionKind) (f : String → Value) : Value.Same
      (.array ((ofKind kind rows).map f)) (.array ((ofKind kind rows').map f)) :=
    .array (((same.filter _).map _).map f)
  exact .fields (.cons (column _ _) (.cons (column _ _) (.cons (column _ _)
    (.cons (column _ _) (.cons (column _ _) .nil)))))

end

end Xotero
