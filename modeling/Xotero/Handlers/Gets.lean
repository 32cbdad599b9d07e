import Xotero.Foundation.Snapshots
import Xotero.Handlers.Items

/-!
The GETs of the data of one library: each reads the rows of that library only,
and most show the version of the library, some read before the rows and some
after them.
-/

namespace Xotero

open Txn (ScopedStmt)

namespace Handlers

/-- The version shown is that of the row. -/
def fulltextItem (L : LibraryId) (key : String) : Txn Db (Option Response) := do
  match ← Xotero.fulltextItem L key with
  | some (version, data) => return some ⟨200, version, some data⟩
  | none => return none

def tagsGet (locale : Locale) (L : LibraryId) : Txn Db Response := do
  let value ← Xotero.tags locale L
  let current ← currentVersion L
  return ⟨200, current, some value⟩

end Handlers

/-- A GET of library data other than a file. -/
inductive DataGet where
  | settings (headers params : Params)
  | collections (params : Params)
  | searches (params : Params)
  | items (route : ItemsRoute) (path : String) (raw : Option String)
  | fulltextVersions (params : Params)
  | fulltextItem (key : String)
  | tags
  | deleted (params : Params)

namespace DataGet
variable (front : Frontend) (L : LibraryId) (notes : Bool)

/-- `none` is the 404 of an item without full text. -/
def serve : DataGet → Txn Db (Option ItemsResponse)
  | .settings headers params => do
      return some (.ofResponse (← Handlers.settingsRead L headers params))
  | .collections params => do return some (.ofResponse (← Handlers.read L .collection params))
  | .searches params => do return some (.ofResponse (← Handlers.read L .search params))
  | .items route path raw => do return some (← route.get front L notes path raw)
  | .fulltextVersions params => do
      return some (.ofResponse (← Handlers.fulltextVersions L params))
  | .fulltextItem key => do
      return (← Handlers.fulltextItem L key).map .ofResponse
  | .tags => do return some (.ofResponse (← Handlers.tagsGet front.locale L))
  | .deleted params => do return some (.ofResponse (← Handlers.deleted L params))

/-- The version is read before anything else. -/
def versionFirst : DataGet → Prop
  | .settings _ _ | .fulltextVersions _ => True
  | .collections params | .searches params => params.get "format" = some "versions"
  | .items route _ raw => (route = .items ∨ route = .top) ∧
      (front.urlencoded.parse raw).get "format" = some "versions"
  | .fulltextItem _ | .tags | .deleted _ => False

/-- The version is read after everything else. -/
def versionLast : DataGet → Prop
  | .tags | .deleted _ => True
  | .collections params | .searches params => params.get "format" ≠ some "versions"
  | .items route _ raw => ¬ ((route = .items ∨ route = .top) ∧
      (front.urlencoded.parse raw).get "format" = some "versions")
  | .settings _ _ | .fulltextVersions _ | .fulltextItem _ => False

end DataGet

/-! ### What a GET reads -/

/-- The library that a reading statement is confined to. -/
def Sql.readHome : Sql → Option LibraryId
  | .libraryVersion L | .objects L _ _ _ | .versions L _ _ _ | .topVersions L _ _
  | .countItems _ L _ _ | .queryItems _ L _ _ | .itemKeys _ L _ _ | .tags _ L
  | .deletedSince L _ | .settings L | .fulltextVersions L _ | .fulltextItem L _
  | .fileMeta L _ => some L
  | _ => none

section Agree
variable {L : LibraryId} {d d' : Database}

theorem LibraryAgree.objectsWhere (h : LibraryAgree L d d') (kind : ObjectKind)
    (p : String → Object → Bool) : d.objectsWhere L kind p = d'.objectsWhere L kind p := by
  unfold Database.objectsWhere
  rw [Table.select_eq_of_part_eq h.object]
  intro k o hk
  simp only [Bool.and_eq_true, decide_eq_true_eq] at hk
  simpa [inLibrary] using hk.1.1

theorem LibraryAgree.matchingItems (h : LibraryAgree L d d') (locale : Locale) (q : ItemQuery)
    (notes : Bool) : d.matchingItems locale L q notes = d'.matchingItems locale L q notes := by
  have texts (key : String) : d.fulltext.find? (L, key) = d'.fulltext.find? (L, key) :=
    Table.find?_eq_of_part_eq h.fulltext (inLibrary_self L key)
  simp only [Database.matchingItems, texts]
  exact h.objectsWhere .item _

theorem writes_of_readHome {q : Sql} (h : q.readHome = some L) (d : Database) :
    q.writes d = [] := by
  cases q <;> first | rfl | cases h

theorem scopedStmt_of_readHome {q : Sql} (h : q.readHome = some L) :
    ScopedStmt Db [.library L] q where
  eval_eq {d d'} agree := by
    have agree : LibraryAgree L d d' := agree (.library L) (by simp)
    have rows {κ ρ : Type} [DecidableEq κ] {t u : Table (LibraryId × κ) ρ}
        (same : t.part (inLibrary L) = u.part (inLibrary L)) (p : LibraryId × κ → ρ → Bool) :
        (t.select fun k r => k.1 = L && p k r) = u.select fun k r => k.1 = L && p k r := by
      refine Table.select_eq_of_part_eq same fun k r hk => ?_
      simp only [Bool.and_eq_true, decide_eq_true_eq] at hk
      simpa [inLibrary] using hk.1
    cases q <;> simp only [Sql.readHome, Option.some.injEq, reduceCtorEq] at h <;> subst h
    case libraryVersion => exact congrArg (Option.map _) agree.library
    case objects => simp only [Sql.eval, agree.objectsWhere]
    case versions => exact congrArg (List.map _) (agree.objectsWhere _ _)
    case topVersions => exact congrArg (List.map _) (agree.objectsWhere _ _)
    case countItems => exact congrArg List.length (agree.matchingItems _ _ _)
    case queryItems => simp only [Sql.eval, agree.matchingItems]
    case itemKeys => simp only [Sql.eval, agree.matchingItems]
    case tags => simp only [Sql.eval, Database.usedTags, agree.objectsWhere]
    case deletedSince => exact congrArg (List.map _) (rows agree.deletion _)
    case settings =>
      have all := rows agree.setting fun _ _ => true
      simp only [Bool.and_true] at all
      exact congrArg (List.map _) all
    case fulltextVersions => exact congrArg (List.map _) (rows agree.fulltext _)
    case fulltextItem => exact Table.find?_eq_of_part_eq agree.fulltext (inLibrary_self _ _)
    case fileMeta => simp only [Sql.eval, agree.find?_file, agree.find?_object]
  writes_eq {d d'} _ := (writes_of_readHome h d).trans (writes_of_readHome h d').symm
  target_mem {d w} hw := by
    have none : w ∈ q.writes d := hw
    simp [writes_of_readHome h d] at none

/-- The program reads rows of the library and does nothing else. -/
structure ReadsOnly (L : LibraryId) {α : Type} (p : Txn Db α) : Prop where
  inside : p.Scoped [RowId.library L]
  readOnly : p.ReadOnly

end Agree

section ReadsOnly
variable {L : LibraryId} {α β : Type}

theorem ReadsOnly.ret (a : α) : ReadsOnly L (.ret a : Txn Db α) := ⟨trivial, trivial⟩

theorem ReadsOnly.bind {p : Txn Db α} {f : α → Txn Db β} (hp : ReadsOnly L p)
    (hf : ∀ a, ReadsOnly L (f a)) : ReadsOnly L (p >>= f) :=
  ⟨Txn.scoped_bind hp.inside fun a => (hf a).inside,
    Txn.readOnly_bind hp.readOnly fun a => (hf a).readOnly⟩

theorem ReadsOnly.ite {c : Prop} [Decidable c] {p p' : Txn Db α} (hp : ReadsOnly L p)
    (hp' : ReadsOnly L p') : ReadsOnly L (if c then p else p') := by
  split
  · exact hp
  · exact hp'

theorem ReadsOnly.execute {q : Sql} (h : q.readHome = some L) : ReadsOnly L (execute q) where
  inside := scoped_execute (scopedStmt_of_readHome h)
  readOnly := readOnly_execute (writes_of_readHome h)

theorem ReadsOnly.currentVersion : ReadsOnly L (currentVersion L) :=
  (ReadsOnly.execute rfl).bind fun row => ⟨by cases row <;> trivial, readOnly_fetchOne⟩

end ReadsOnly

/-! #### The handlers -/

section Handlers
variable (front : Frontend) (L : LibraryId) (notes : Bool)

theorem reads_versions (kind : ObjectKind) (since : Int) :
    ReadsOnly L (versions L kind since notes) :=
  (ReadsOnly.execute rfl).bind fun _ => .ret _

theorem reads_objects (kind : ObjectKind) (keys : List String) :
    ReadsOnly L (objects L kind keys notes) :=
  (ReadsOnly.execute rfl).bind fun _ => .ret _

theorem reads_read (kind : ObjectKind) (params : Params) :
    ReadsOnly L (Handlers.read L kind params) := by
  refine .ite ?_ ?_
  · exact ReadsOnly.currentVersion.bind fun _ =>
      (reads_versions L true kind _).bind fun _ => .ret _
  · exact (reads_objects L true kind _).bind fun _ =>
      ReadsOnly.currentVersion.bind fun _ => .ret _

theorem reads_itemSyncRead (params : Params) (top : Bool) :
    ReadsOnly L (Handlers.itemSyncRead L params top notes) := by
  refine .ite ?_ ?_
  · refine ReadsOnly.currentVersion.bind fun current => .ite (.bind ?_ fun _ => .ret _)
      ((reads_versions L notes .item _).bind fun _ => .ret _)
    exact (ReadsOnly.execute rfl).bind fun _ => .ret _
  · split
    · exact (reads_objects L notes .item _).bind fun value =>
        ReadsOnly.currentVersion.bind fun _ => .ret _
    · exact .ret _

theorem reads_itemQuery (path : String) (raw : Option String) (q : ItemQuery) :
    ReadsOnly L (Handlers.itemQuery front L notes path raw q) := by
  refine .bind (.ite (.ret _) ?_) fun response => ?_
  · exact (ReadsOnly.execute rfl).bind fun _ => ReadsOnly.currentVersion.bind fun _ => .ret _
  · cases response with
    | some response => exact .ret _
    | none =>
        refine .bind ?_ fun _ => ReadsOnly.currentVersion.bind fun _ => .ret _
        exact (ReadsOnly.execute rfl).bind fun _ => (ReadsOnly.execute rfl).bind fun _ => .ret _

theorem reads_itemsWith (path : String) (raw : Option String) (top : Bool) :
    ReadsOnly L (Handlers.itemsWith front L notes path raw top) := by
  refine .bind (reads_itemSyncRead L notes _ top) fun response => ?_
  cases response with
  | some response => exact .ret _
  | none => exact reads_itemQuery front L notes path raw _

theorem DataGet.reads (get : DataGet) : ReadsOnly L (get.serve front L notes) := by
  cases get with
  | settings headers params =>
      refine .bind (.bind (ReadsOnly.currentVersion.bind fun _ => .ret _) fun check => ?_)
        fun _ => .ret _
      exact .ite (.ret _) (.bind ((ReadsOnly.execute rfl).bind fun _ => .ret _) fun _ => .ret _)
  | collections params => exact (reads_read L .collection params).bind fun _ => .ret _
  | searches params => exact (reads_read L .search params).bind fun _ => .ret _
  | items route path raw =>
      refine .bind ?_ fun _ => .ret _
      cases route with
      | items | top => exact reads_itemsWith front L notes path raw _
      | trash | collection | collectionTop => exact reads_itemQuery front L notes path raw _
  | fulltextVersions params =>
      refine .bind (ReadsOnly.currentVersion.bind fun _ => ?_) fun _ => .ret _
      exact .bind ((ReadsOnly.execute rfl).bind fun _ => .ret _) fun _ => .ret _
  | fulltextItem key =>
      refine .bind (.bind ((ReadsOnly.execute rfl).bind fun _ => .ret _) fun row => ?_)
        fun _ => .ret _
      cases row with
      | none => exact .ret _
      | some row => exact .ret _
  | tags =>
      refine .bind (.bind ((ReadsOnly.execute rfl).bind fun _ => .ret _) fun _ => ?_)
        fun _ => .ret _
      exact ReadsOnly.currentVersion.bind fun _ => .ret _
  | deleted params =>
      refine .bind (.bind ((ReadsOnly.execute rfl).bind fun _ => .ret _) fun _ => ?_)
        fun _ => .ret _
      exact ReadsOnly.currentVersion.bind fun _ => .ret _

/-! #### The version shown -/

def shownVersion (response : Option ItemsResponse) : Option Int :=
  response.map ItemsResponse.version

theorem currentVersion_bind {α : Type} (f : Int → Txn Db α) : currentVersion L >>= f =
    Txn.query (D := Db) (.libraryVersion L) fun row => fetchOne row >>= f := by
  have accepted : (Sql.libraryVersion L).accepted = true := rfl
  rw [currentVersion, Txn.bind_assoc, execute_bind, if_pos accepted]

theorem eval_libraryVersion (d : Database) :
    Sql.eval (.libraryVersion L) d = none ∨
      Sql.eval (.libraryVersion L) d = some (d.version L) := by
  cases row : d.library.find? L with
  | none => exact .inl (by simp [Sql.eval, row])
  | some r => exact .inr (by simp [Sql.eval, Database.version, row])

theorem opens_currentVersion {α : Type} {shown : α → Option Int} {f : Int → Txn Db α}
    (h : ∀ n, (f n).Ends fun a => shown a = some n) :
    (currentVersion L >>= f).Opens (Database.version · L) shown := by
  rw [currentVersion_bind]
  refine Txn.opens_query fun d => ?_
  show Txn.Ends _ (fetchOne (Sql.eval (.libraryVersion L) d) >>= f)
  cases eval_libraryVersion L d with
  | inl absent =>
      rw [absent]
      trivial
  | inr read =>
      rw [read]
      exact h (d.version L)

theorem closes_currentVersion {α : Type} {shown : α → Option Int} {f : Int → α}
    (h : ∀ n, shown (f n) = some n) :
    (currentVersion L >>= fun n => .ret (f n)).Closes (Database.version · L) shown := by
  rw [currentVersion_bind]
  intro ss a rest consumed
  cases ss with
  | nil => cases consumed
  | cons d ss =>
      change (fetchOne (Sql.eval (.libraryVersion L) d) >>= fun n => Txn.ret (f n)).consume ss =
        some (a, rest) at consumed
      cases eval_libraryVersion L d with
      | inl absent =>
          rw [absent] at consumed
          cases ss <;> cases consumed
      | inr read =>
          rw [read, fetchOne, Txn.ret_bind, Txn.consume_ret] at consumed
          obtain ⟨rfl, rfl⟩ := Prod.mk.inj (Option.some.inj consumed)
          exact ⟨[], d, rfl, h _⟩

theorem opens_read {kind : ObjectKind} {params : Params}
    (format : params.get "format" = some "versions") :
    (Handlers.read L kind params >>= fun r => .ret (some (ItemsResponse.ofResponse r))).Opens
      (Database.version · L) shownVersion := by
  rw [Handlers.read, if_pos format, Txn.bind_assoc]
  refine opens_currentVersion L fun n => ?_
  rw [Txn.bind_assoc]
  exact Txn.ends_bind (Txn.ends_true _) fun _ _ => rfl

theorem closes_read {kind : ObjectKind} {params : Params}
    (format : params.get "format" ≠ some "versions") :
    (Handlers.read L kind params >>= fun r => .ret (some (ItemsResponse.ofResponse r))).Closes
      (Database.version · L) shownVersion := by
  rw [Handlers.read, if_neg format, Txn.bind_assoc]
  refine Txn.closes_bind fun value => ?_
  rw [Txn.bind_assoc]
  exact closes_currentVersion L fun _ => rfl

/-- A sync read of versions is answered before the query part is reached. -/
theorem itemSyncRead_versions {params : Params} (top : Bool)
    (format : params.get "format" = some "versions") :
    ∃ f : Int → Txn Db (Option Response), Handlers.itemSyncRead L params top notes =
      currentVersion L >>= f ∧
      ∀ n, (f n).Ends fun r => ∃ response, r = some response ∧ response.version = n := by
  refine ⟨_, by rw [Handlers.itemSyncRead, if_pos format], fun n => ?_⟩
  cases top with
  | true => exact fun _ => ⟨_, rfl, rfl⟩
  | false => exact fun _ => ⟨_, rfl, rfl⟩

theorem opens_itemsWith {path : String} {raw : Option String} (top : Bool)
    (format : (front.urlencoded.parse raw).get "format" = some "versions") :
    (Handlers.itemsWith front L notes path raw top >>= fun r => .ret (some r)).Opens
      (Database.version · L) shownVersion := by
  obtain ⟨f, same, ends⟩ := itemSyncRead_versions L notes top format
  rw [Handlers.itemsWith, same, Txn.bind_assoc, Txn.bind_assoc]
  refine opens_currentVersion L fun n => Txn.ends_bind (ends n) fun r shows => ?_
  obtain ⟨response, rfl, rfl⟩ := shows
  exact rfl

theorem closes_itemQuery {path : String} {raw : Option String} (q : ItemQuery) :
    (Handlers.itemQuery front L notes path raw q >>= fun r => .ret (some r)).Closes
      (Database.version · L) shownVersion := by
  rw [Handlers.itemQuery, Handlers.itemKeysResponse, Txn.bind_assoc]
  by_cases format : (front.urlencoded.parse raw).get "format" ≠ some "keys"
  · rw [if_pos format, Txn.pure_eq, Txn.ret_bind]
    rw [Handlers.itemListing, Txn.bind_assoc]
    refine Txn.closes_bind fun page => ?_
    rw [Txn.bind_assoc]
    exact closes_currentVersion L fun _ => rfl
  · rw [if_neg format, Txn.bind_assoc]
    refine Txn.closes_bind fun keys => ?_
    rw [Txn.bind_assoc]
    exact closes_currentVersion L fun _ => rfl

theorem closes_itemsWith {path : String} {raw : Option String} (top : Bool)
    (format : (front.urlencoded.parse raw).get "format" ≠ some "versions") :
    (Handlers.itemsWith front L notes path raw top >>= fun r => .ret (some r)).Closes
      (Database.version · L) shownVersion := by
  rw [Handlers.itemsWith, Handlers.itemSyncRead, if_neg format, Txn.bind_assoc]
  cases (front.urlencoded.parse raw).get "itemKey" with
  | none => exact closes_itemQuery front L notes _
  | some csv =>
      rw [Txn.bind_assoc]
      refine Txn.closes_bind fun value => ?_
      rw [Txn.bind_assoc]
      exact closes_currentVersion L fun _ => rfl

theorem DataGet.opens {get : DataGet} (first : get.versionFirst front) :
    (get.serve front L notes).Opens (Database.version · L) shownVersion := by
  cases get with
  | settings headers params =>
      rw [DataGet.serve, Handlers.settingsRead, sinceCheck, Txn.bind_assoc, Txn.bind_assoc]
      refine opens_currentVersion L fun n => ?_
      rw [Txn.pure_eq, Txn.ret_bind]
      refine Txn.ends_bind (Q := fun r => r.version = n) ?_ fun r same => congrArg some same
      dsimp only
      split
      · rfl
      · exact fun _ => rfl
  | collections params => exact opens_read L first
  | searches params => exact opens_read L first
  | items route path raw =>
      obtain ⟨sync, format⟩ := first
      cases route with
      | items | top => exact opens_itemsWith front L notes _ format
      | trash | collection | collectionTop =>
          cases sync with
          | inl same => cases same
          | inr same => cases same
  | fulltextVersions params =>
      rw [DataGet.serve, Handlers.fulltextVersions, Txn.bind_assoc]
      refine opens_currentVersion L fun n => ?_
      rw [Txn.bind_assoc]
      exact Txn.ends_bind (Txn.ends_true _) fun _ _ => rfl
  | fulltextItem | tags | deleted => cases first

theorem DataGet.closes {get : DataGet} (last : get.versionLast front) :
    (get.serve front L notes).Closes (Database.version · L) shownVersion := by
  cases get with
  | collections params => exact closes_read L last
  | searches params => exact closes_read L last
  | items route path raw =>
      cases route with
      | items => exact closes_itemsWith front L notes _ fun format => last ⟨.inl rfl, format⟩
      | top => exact closes_itemsWith front L notes _ fun format => last ⟨.inr rfl, format⟩
      | trash | collection | collectionTop => exact closes_itemQuery front L notes _
  | tags =>
      rw [DataGet.serve, Handlers.tagsGet, Txn.bind_assoc]
      refine Txn.closes_bind fun value => ?_
      rw [Txn.bind_assoc]
      exact closes_currentVersion L fun _ => rfl
  | deleted params =>
      rw [DataGet.serve, Handlers.deleted, Txn.bind_assoc]
      refine Txn.closes_bind fun value => ?_
      rw [Txn.bind_assoc]
      exact closes_currentVersion L fun _ => rfl
  | settings | fulltextVersions | fulltextItem => cases last

end Handlers

end Xotero
