import Xotero.Guarantees.Notes
import Xotero.Guarantees.Snapshots

/-!
A client that keeps a copy of a library by nothing but GETs: it trusts a round
of them only when the versions shown by the first and the last are equal. Over
any run its copy is the library as it was at the version it carries.
-/

namespace Xotero

open Session (Run)

/-! ### What a client keeps, and what it reads off the answers -/

/-- The answers of a round, beside what was asked. -/
abbrev Exchange := List (DataGet × Option ItemsResponse)

def bodyOf (answer : Option ItemsResponse) : Value :=
  match answer.bind ItemsResponse.body with
  | some (.json v) => v
  | _ => .null

namespace DataGet
variable (front : Frontend)

/-- The kind of objects whose versions are asked for, and the cursor. -/
def listSince : DataGet → Option (ObjectKind × Int)
  | .collections params =>
      if params.get "format" = some "versions" then some (.collection, sinceOf params) else none
  | .searches params =>
      if params.get "format" = some "versions" then some (.search, sinceOf params) else none
  | .items .items _ raw =>
      let params := front.urlencoded.parse raw
      if params.get "format" = some "versions" then some (.item, sinceOf params) else none
  | _ => none

/-- The objects that are asked for by their keys. -/
def fetchKeys : DataGet → Option (ObjectKind × List String)
  | .collections params =>
      if params.get "format" = some "versions" then none
      else some (.collection, csvOf params "collectionKey")
  | .searches params =>
      if params.get "format" = some "versions" then none
      else some (.search, csvOf params "searchKey")
  | .items .items _ raw =>
      let params := front.urlencoded.parse raw
      if params.get "format" = some "versions" then none
      else (params.get "itemKey").map fun csv => (.item, csv.splitOn ",")
  | _ => none

end DataGet

/-- The objects of one kind that an answer brings. -/
def sentObjects (front : Frontend) (kind : ObjectKind) (entry : DataGet × Option ItemsResponse) :
    List (String × Int × Value) :=
  if (entry.1.fetchKeys front).any fun fetch => fetch.1 = kind then objectEntries (bodyOf entry.2)
  else []

def goneObjects (kind : ObjectKind) (entry : DataGet × Option ItemsResponse) : List String :=
  match entry.1 with
  | .deleted _ => deletedKeys kind (bodyOf entry.2)
  | _ => []

/-- The settings come whole, or not at all with a 304. -/
def sentSettings (entry : DataGet × Option ItemsResponse) : Option Value :=
  match entry.1, entry.2 with
  | .settings _ _, some r => if r.status = 304 then none else some (bodyOf entry.2)
  | _, _ => none

def sentText (key : String) (entry : DataGet × Option ItemsResponse) : Option (Int × Value) :=
  match entry.1 with
  | .fulltextItem key' => if key' = key then entry.2.map fun r => (r.version, bodyOf entry.2)
      else none
  | _ => none

/-- A client's copy of a library. -/
structure Mirror where
  version : Int
  object : ObjectKind → String → Option (Int × Value)
  setting : String → Option Value
  fulltext : String → Option (Int × Value)

namespace Mirror

def empty : Mirror := ⟨0, fun _ _ => none, fun _ => none, fun _ => none⟩

/-- The copy after a round that showed version `h`: what was sent is put in,
what is gone is taken out. -/
def pull (front : Frontend) (m : Mirror) (h : Int) (exchange : Exchange) : Mirror where
  version := h
  object kind key :=
    match (exchange.flatMap (sentObjects front kind)).find? fun e => e.1 = key with
    | some e => some e.2
    | none => if key ∈ exchange.flatMap (goneObjects kind) then none else m.object kind key
  setting :=
    match exchange.findSome? sentSettings with
    | some body => body.get
    | none => m.setting
  fulltext key := (exchange.findSome? (sentText key)).or (m.fulltext key)

end Mirror

/-- The client asks for everything that may have changed since its version. -/
structure Asked (front : Frontend) (since : Int) (exchange : Exchange) : Prop where
  settings : ∃ headers params answer, (.settings headers params, answer) ∈ exchange ∧
    max (sinceOf params) (ifModifiedSince headers) = since
  deleted : ∃ params answer, (.deleted params, answer) ∈ exchange ∧ sinceOf params = since
  listed : ∀ kind, ∃ get answer, (get, answer) ∈ exchange ∧
    get.listSince front = some (kind, since) ∧
    ∀ key ∈ namedKeys (bodyOf answer), ∃ get' answer' keys, (get', answer') ∈ exchange ∧
      get'.fetchKeys front = some (kind, keys) ∧ key ∈ keys
  texts : ∃ params answer, (.fulltextVersions params, answer) ∈ exchange ∧
    sinceOf params = since ∧ ∀ key ∈ namedKeys (bodyOf answer),
      ∃ answer', (.fulltextItem key, answer') ∈ exchange

/-- The copies a client can come to hold while its statements find these
databases: a round whose two versions differ, or that it gives up, changes
nothing. -/
inductive Mirrored (front : Frontend) (L : LibraryId) : List Database → Mirror → Prop where
  | new : Mirrored front L [] .empty
  | dropped {ds : List Database} {m : Mirror} (before : Mirrored front L ds m)
      (unused : List Database) : Mirrored front L (ds ++ unused) m
  | pulled {ds ds' : List Database} {m : Mirror} (before : Mirrored front L ds m)
      {first last : DataGet} {gets : List DataGet} (opens : first.versionFirst front)
      (closes : last.versionLast front) {answers : List (Option ItemsResponse)}
      (replayed : (Txn.inTurn ((first :: gets ++ [last]).map
        (DataGet.serve front L true))).replay ds' = some answers) {h : Int}
      (firstShows : answers.head?.bind shownVersion = some h)
      (lastShows : answers.getLast?.bind shownVersion = some h)
      (asked : Asked front m.version ((first :: gets ++ [last]).zip answers)) :
      Mirrored front L (ds ++ ds') (m.pull front h ((first :: gets ++ [last]).zip answers))

/-! ### The library a copy is of -/

def servedSetting (L : LibraryId) (d : Database) (key : String) : Option Value :=
  (d.setting.find? (L, key)).map fun s =>
    .object [("value", s.value), ("version", .ofInt s.version)]

def textBody (t : Fulltext) : Value :=
  .object [
    ("content", .string t.content),
    ("indexedChars", .ofInt t.indexedChars),
    ("totalChars", .ofInt t.totalChars),
    ("indexedPages", .ofInt t.indexedPages),
    ("totalPages", .ofInt t.totalPages)]

def servedText (L : LibraryId) (d : Database) (key : String) : Option (Int × Value) :=
  (d.fulltext.find? (L, key)).map fun t => (t.version, textBody t)

/-- The copy is the library as it is served at `d`. -/
structure Exact (L : LibraryId) (d : Database) (m : Mirror) : Prop where
  version : m.version = d.version L
  object : ∀ kind, m.object kind = served L kind d
  setting : m.setting = servedSetting L d
  fulltext : m.fulltext = servedText L d

/-! ### The answers of one state -/

section Answers
variable {front : Frontend} {L : LibraryId} {d : Database} {answer : Option ItemsResponse}
  {kind : ObjectKind} {key : String}

theorem run_currentVersion {α : Type} {f : Int → Txn Db α} {r : Database × α}
    (h : (currentVersion L >>= f).run d = some r) : (f (d.version L)).run d = some r := by
  rw [currentVersion_bind] at h
  change (fetchOne (Sql.eval (.libraryVersion L) d) >>= f).run d = some r at h
  cases eval_libraryVersion L d with
  | inl absent =>
      rw [absent] at h
      cases h
  | inr read =>
      rw [read] at h
      exact h

theorem run_execute {α : Type} {q : Sql} {f : q.Result → Txn Db α} {r : Database × α}
    (home : q.readHome = some L) (h : (execute q >>= f).run d = some r) :
    (f (q.eval d)).run d = some r := by
  rw [execute_bind_eq, writes_of_readHome home] at h
  split at h
  · exact h
  · cases h

theorem run_read_versions {params : Params} (format : params.get "format" = some "versions")
    (h : (Handlers.read L kind params >>= fun r =>
      .ret (some (ItemsResponse.ofResponse r))).run d = some (d, answer)) :
    bodyOf answer = versionMap (Sql.eval (.versions L kind (sinceOf params) true) d) := by
  rw [Handlers.read, if_pos format, Txn.bind_assoc] at h
  have read := run_currentVersion h
  obtain ⟨-, rfl⟩ := Prod.mk.inj (Option.some.inj read)
  rfl

theorem run_read_objects {params : Params} (format : params.get "format" ≠ some "versions")
    (h : (Handlers.read L kind params >>= fun r =>
      .ret (some (ItemsResponse.ofResponse r))).run d = some (d, answer)) :
    bodyOf answer =
      objectsBody (Sql.eval (.objects L kind (csvOf params (kind.name ++ "Key")) true) d) := by
  rw [Handlers.read, if_neg format, Txn.bind_assoc, objects, Txn.bind_assoc] at h
  have read := run_execute (L := L) rfl h
  rw [Txn.pure_eq, Txn.ret_bind, Txn.bind_assoc] at read
  have read := run_currentVersion read
  obtain ⟨-, rfl⟩ := Prod.mk.inj (Option.some.inj read)
  rfl

theorem run_items_versions {path : String} {raw : Option String}
    (format : (front.urlencoded.parse raw).get "format" = some "versions")
    (h : ((DataGet.items .items path raw).serve front L true).run d = some (d, answer)) :
    bodyOf answer = versionMap
      (Sql.eval (.versions L .item (sinceOf (front.urlencoded.parse raw)) true) d) := by
  rw [DataGet.serve, ItemsRoute.get, Handlers.itemsGet, Handlers.itemsWith, Handlers.itemSyncRead,
    if_pos format, Txn.bind_assoc, Txn.bind_assoc] at h
  have read := run_currentVersion h
  obtain ⟨-, rfl⟩ := Prod.mk.inj (Option.some.inj read)
  rfl

theorem run_items_objects {path csv : String} {raw : Option String}
    (format : (front.urlencoded.parse raw).get "format" ≠ some "versions")
    (named : (front.urlencoded.parse raw).get "itemKey" = some csv)
    (h : ((DataGet.items .items path raw).serve front L true).run d = some (d, answer)) :
    bodyOf answer = objectsBody (Sql.eval (.objects L .item (csv.splitOn ",") true) d) := by
  rw [DataGet.serve, ItemsRoute.get, Handlers.itemsGet, Handlers.itemsWith, Handlers.itemSyncRead,
    if_neg format] at h
  simp only [named] at h
  rw [objects, Txn.bind_assoc, Txn.bind_assoc, Txn.bind_assoc] at h
  have read := run_execute (L := L) rfl h
  rw [Txn.pure_eq, Txn.ret_bind, Txn.bind_assoc] at read
  have read := run_currentVersion read
  obtain ⟨-, rfl⟩ := Prod.mk.inj (Option.some.inj read)
  rfl

theorem run_listSince {get : DataGet} {since : Int}
    (lists : get.listSince front = some (kind, since))
    (h : (get.serve front L true).run d = some (d, answer)) :
    bodyOf answer = versionMap (Sql.eval (.versions L kind since true) d) := by
  cases get with
  | collections params | searches params =>
      rw [DataGet.listSince] at lists
      split at lists
      · cases lists
        exact run_read_versions ‹_› h
      · cases lists
  | items route path raw =>
      cases route with
      | items =>
          simp only [DataGet.listSince] at lists
          split at lists
          · cases lists
            exact run_items_versions ‹_› h
          · cases lists
      | top | trash | collection | collectionTop => cases lists
  | settings | fulltextVersions | fulltextItem | tags | deleted => cases lists

theorem run_fetchKeys {get : DataGet} {keys : List String}
    (fetches : get.fetchKeys front = some (kind, keys))
    (h : (get.serve front L true).run d = some (d, answer)) :
    bodyOf answer = objectsBody (Sql.eval (.objects L kind keys true) d) := by
  cases get with
  | collections params | searches params =>
      rw [DataGet.fetchKeys] at fetches
      split at fetches
      · cases fetches
      · cases fetches
        exact run_read_objects ‹_› h
  | items route path raw =>
      cases route with
      | items =>
          simp only [DataGet.fetchKeys] at fetches
          split at fetches
          · cases fetches
          · obtain ⟨csv, named, same⟩ := Option.map_eq_some_iff.mp fetches
            cases same
            exact run_items_objects ‹_› named h
      | top | trash | collection | collectionTop => cases fetches
  | settings | fulltextVersions | fulltextItem | tags | deleted => cases fetches

theorem run_deleted {params : Params}
    (h : ((DataGet.deleted params).serve front L true).run d = some (d, answer)) :
    bodyOf answer = deletedBody (Sql.eval (.deletedSince L (sinceOf params)) d) := by
  rw [DataGet.serve, Handlers.deleted, Txn.bind_assoc, Xotero.deleted, Txn.bind_assoc] at h
  have read := run_execute (L := L) rfl h
  rw [Txn.pure_eq, Txn.ret_bind, Txn.bind_assoc] at read
  have read := run_currentVersion read
  obtain ⟨-, rfl⟩ := Prod.mk.inj (Option.some.inj read)
  rfl

/-- The settings in whole, unless the client's cursor is not below the version. -/
theorem run_settings {headers params : Params}
    (h : ((DataGet.settings headers params).serve front L true).run d = some (d, answer)) :
    sentSettings (.settings headers params, answer) =
        some (settingsBody (Sql.eval (.settings L) d)) ∨
      sentSettings (.settings headers params, answer) = none ∧
        d.version L ≤ max (sinceOf params) (ifModifiedSince headers) := by
  rw [DataGet.serve, Handlers.settingsRead, sinceCheck, Txn.bind_assoc, Txn.bind_assoc] at h
  have read := run_currentVersion h
  rw [Txn.pure_eq, Txn.ret_bind] at read
  by_cases fresh : (0 < max (sinceOf params) (ifModifiedSince headers) &&
      d.version L ≤ max (sinceOf params) (ifModifiedSince headers)) = true
  · simp only [fresh, if_true] at read
    obtain ⟨-, rfl⟩ := Prod.mk.inj (Option.some.inj read)
    simp only [Bool.and_eq_true, decide_eq_true_eq] at fresh
    exact .inr ⟨rfl, fresh.2⟩
  · simp only [fresh] at read
    obtain ⟨-, rfl⟩ := Prod.mk.inj (Option.some.inj read)
    exact .inl rfl

theorem run_fulltextVersions {params : Params}
    (h : ((DataGet.fulltextVersions params).serve front L true).run d = some (d, answer)) :
    bodyOf answer = versionMap (Sql.eval (.fulltextVersions L (sinceOf params)) d) := by
  rw [DataGet.serve, Handlers.fulltextVersions, Txn.bind_assoc] at h
  have read := run_currentVersion h
  obtain ⟨-, rfl⟩ := Prod.mk.inj (Option.some.inj read)
  rfl

theorem run_fulltextItem
    (h : ((DataGet.fulltextItem key).serve front L true).run d = some (d, answer)) :
    sentText key (.fulltextItem key, answer) = servedText L d key := by
  rw [DataGet.serve, Handlers.fulltextItem, Txn.bind_assoc, Xotero.fulltextItem,
    Txn.bind_assoc] at h
  have read := run_execute (L := L) rfl h
  rw [Txn.pure_eq, Txn.ret_bind] at read
  simp only [Sql.eval] at read
  simp only [sentText, servedText, if_true]
  cases row : d.fulltext.find? (L, key) with
  | none =>
      rw [row] at read
      obtain ⟨-, rfl⟩ := Prod.mk.inj (Option.some.inj read)
      rfl
  | some t =>
      rw [row] at read
      obtain ⟨-, rfl⟩ := Prod.mk.inj (Option.some.inj read)
      rfl

/-! ### A round of answers from one state -/

/-- Every answer is the one given at `d`. -/
def AnsweredAt (front : Frontend) (L : LibraryId) (d : Database) (exchange : Exchange) : Prop :=
  ∀ entry ∈ exchange, (entry.1.serve front L true).run d = some (d, entry.2)

variable {exchange : Exchange}

theorem mem_objectEntries {keys : List String} {e : String × Int × Value} :
    e ∈ objectEntries (objectsBody (Sql.eval (.objects L kind keys true) d)) ↔
      e.1 ∈ keys ∧ served L kind d e.1 = some e.2 := by
  obtain ⟨key, r⟩ := e
  simp only [objectEntries_body, Sql.eval, List.mem_map, served, Option.map_eq_some_iff]
  constructor
  · rintro ⟨⟨k, o⟩, h, same⟩
    obtain ⟨rfl, rfl⟩ := Prod.mk.inj same
    obtain ⟨found, holds⟩ := mem_objectsWhere.mp h
    exact ⟨by simpa [noteVisible] using holds, o, found, rfl⟩
  · rintro ⟨hk, o, found, rfl⟩
    exact ⟨(key, o), mem_objectsWhere.mpr ⟨found, by simpa [noteVisible] using hk⟩, rfl⟩

/-- Whatever was sent is there. -/
theorem served_of_sent (at_d : AnsweredAt front L d exchange) {e : String × Int × Value}
    (sent : e ∈ exchange.flatMap (sentObjects front kind)) : served L kind d e.1 = some e.2 := by
  obtain ⟨⟨get, answer⟩, hentry, he⟩ := List.mem_flatMap.mp sent
  rw [sentObjects] at he
  cases fetches : get.fetchKeys front with
  | none => simp [fetches] at he
  | some fetch =>
      obtain ⟨kind', keys⟩ := fetch
      simp only [fetches, Option.any_some, decide_eq_true_eq] at he
      split at he
      · obtain rfl : kind' = kind := ‹_›
        rw [run_fetchKeys fetches (at_d _ hentry)] at he
        exact (mem_objectEntries.mp he).2
      · cases he

theorem sent_of_served (at_d : AnsweredAt front L d exchange) {get : DataGet}
    {keys : List String} (asked : (get, answer) ∈ exchange)
    (fetches : get.fetchKeys front = some (kind, keys)) (hk : key ∈ keys) {r : Int × Value}
    (found : served L kind d key = some r) :
    (key, r) ∈ exchange.flatMap (sentObjects front kind) := by
  refine List.mem_flatMap.mpr ⟨(get, answer), asked, ?_⟩
  rw [sentObjects, fetches, Option.any_some, decide_eq_true rfl, if_pos rfl,
    run_fetchKeys fetches (at_d _ asked)]
  exact mem_objectEntries.mpr ⟨hk, found⟩

theorem dead_of_gone (at_d : AnsweredAt front L d exchange)
    (gone : key ∈ exchange.flatMap (goneObjects kind)) :
    ∃ v, d.deletion.find? (L, .object kind, key) = some v := by
  obtain ⟨⟨get, answer⟩, hentry, hk⟩ := List.mem_flatMap.mp gone
  cases get with
  | deleted params =>
      rw [goneObjects, run_deleted (at_d _ hentry), deletedKeys_body, mem_deletedSince] at hk
      obtain ⟨v, dead, -⟩ := hk
      exact ⟨v, dead⟩
  | _ => cases hk

variable {d₀ : Database} {m : Mirror} {h : Int}

/-- Between the two states an object the client was neither sent nor told to be
gone has not changed. -/
theorem served_kept (at_d : AnsweredAt front L d exchange)
    (steps : Relation.ReflTransGen (LibraryStep L) d₀ d) (ok : Feed.Ok (objectFeed L kind d₀))
    (asked : Asked front (d₀.version L) exchange)
    (unsent : ∀ r, (key, r) ∉ exchange.flatMap (sentObjects front kind))
    (ungone : key ∉ exchange.flatMap (goneObjects kind)) :
    served L kind d key = served L kind d₀ key := by
  have kept (live : (objectFeed L kind d).live key = (objectFeed L kind d₀).live key) :
      served L kind d key = served L kind d₀ key := by
    rw [served_eq, served_eq]
    simp only [Feed.map, live]
  rcases (advance_of_steps steps ok).2 key with ⟨live, -⟩ | ⟨n, above, -, touched⟩
  · exact kept live
  · cases touched with
    | kept live _ => exact kept live
    | stored v live _ =>
        -- The object is listed, so it was asked for and sent.
        obtain ⟨o, found, same⟩ := Option.map_eq_some_iff.mp live
        obtain ⟨rfl, -⟩ := Prod.mk.inj same
        obtain ⟨get, answer, hentry, lists, fetched⟩ := asked.listed kind
        have named : key ∈ namedKeys (bodyOf answer) := by
          rw [run_listSince lists (at_d _ hentry), mem_namedKeys_versions]
          exact ⟨o, found, above⟩
        obtain ⟨get', answer', keys, hentry', fetches, hk⟩ := fetched key named
        have here : served L kind d key = some (o.version, orderFields o.data) := by
          rw [served, found, Option.map_some]
        exact absurd (sent_of_served at_d hentry' fetches hk here) (unsent _)
    | removed _ dead =>
        obtain ⟨params, answer, hentry, cursor⟩ := asked.deleted
        refine absurd (List.mem_flatMap.mpr ⟨(.deleted params, answer), hentry, ?_⟩) ungone
        rw [goneObjects, run_deleted (at_d _ hentry), deletedKeys_body, mem_deletedSince, cursor]
        exact ⟨n, dead, above⟩

theorem pull_object (at_d : AnsweredAt front L d exchange)
    (steps : Relation.ReflTransGen (LibraryStep L) d₀ d) (ok : Feed.Ok (objectFeed L kind d₀))
    (exact : Exact L d₀ m) (asked : Asked front m.version exchange) :
    (m.pull front h exchange).object kind = served L kind d := by
  funext key
  rw [exact.version] at asked
  simp only [Mirror.pull]
  cases found : (exchange.flatMap (sentObjects front kind)).find? fun e => e.1 = key with
  | some e =>
      obtain rfl : e.1 = key := by simpa using List.find?_some found
      exact (served_of_sent at_d (List.mem_of_find?_eq_some found)).symm
  | none =>
      have unsent (r : Int × Value) : (key, r) ∉ exchange.flatMap (sentObjects front kind) := by
        intro sent
        simpa using List.find?_eq_none.mp found (key, r) sent
      show (if key ∈ exchange.flatMap (goneObjects kind) then none else m.object kind key) = _
      by_cases gone : key ∈ exchange.flatMap (goneObjects kind)
      · rw [if_pos gone]
        obtain ⟨v, dead⟩ := dead_of_gone at_d gone
        have ok' := ok.advance (advance_of_steps steps ok)
        cases live : served L kind d key with
        | none => rfl
        | some r =>
            obtain ⟨o, here, -⟩ := Option.map_eq_some_iff.mp live
            have none := ok'.disjoint (k := key) (r := (o.version, o.data))
              (by simp [objectFeed, here])
            simp [objectFeed, dead] at none
      · rw [if_neg gone, exact.object kind]
        exact (served_kept at_d steps ok asked unsent gone).symm

/-! #### Settings -/

theorem settingsBody_get (L : LibraryId) (d : Database) :
    (settingsBody (Sql.eval (.settings L) d)).get = servedSetting L d := by
  funext key
  have functional (r r' : Setting) (h : (key, r) ∈ Sql.eval (.settings L) d)
      (h' : (key, r') ∈ Sql.eval (.settings L) d) : r = r' :=
    Option.some.inj ((mem_settings.mp h).symm.trans (mem_settings.mp h'))
  have entry := get_foldl_insert_nil (fun row : Setting =>
    .object [("value", row.value), ("version", .ofInt row.version)]) _ key functional
  ext v
  simp only [settingsBody, Value.get_object, servedSetting, Option.map_eq_some_iff]
  rw [entry v]
  constructor
  · rintro ⟨row, hr, rfl⟩
    exact ⟨row, mem_settings.mp hr, rfl⟩
  · rintro ⟨row, found, rfl⟩
    exact ⟨row, mem_settings.mpr found, rfl⟩

theorem servedSetting_congr (h : LibraryAgree L d₀ d) : servedSetting L d₀ = servedSetting L d := by
  funext key
  rw [servedSetting, servedSetting, Table.find?_eq_of_part_eq h.setting (inLibrary_self L key)]

theorem pull_setting (at_d : AnsweredAt front L d exchange)
    (steps : Relation.ReflTransGen (LibraryStep L) d₀ d) (exact : Exact L d₀ m)
    (asked : Asked front m.version exchange) :
    (m.pull front h exchange).setting = servedSetting L d := by
  simp only [Mirror.pull]
  cases found : exchange.findSome? sentSettings with
  | some body =>
      obtain ⟨⟨get, answer⟩, hentry, sent⟩ := List.exists_of_findSome?_eq_some found
      cases get with
      | settings headers params =>
          rcases run_settings (at_d _ hentry) with whole | ⟨none, -⟩
          · obtain rfl := Option.some.inj (sent.symm.trans whole)
            exact settingsBody_get L d
          · cases sent.symm.trans none
      | _ => cases sent
  | none =>
      obtain ⟨headers, params, answer, hentry, cursor⟩ := asked.settings
      have unsent := List.findSome?_eq_none_iff.mp found _ hentry
      rcases run_settings (at_d _ hentry) with whole | ⟨-, current⟩
      · cases unsent.symm.trans whole
      · -- A 304: the version has not moved, so neither have the settings.
        rw [cursor, exact.version] at current
        have same := Int.le_antisymm (version_le_of_steps steps) current
        exact exact.setting.trans (servedSetting_congr (agree_of_steps steps same))

/-! #### Full text -/

theorem edit_texts (e : Edit) {n : Int} :
    (Database.edit L n d e).fulltext.find? (L, key) = d.fulltext.find? (L, key) ∨
      ∃ t, (Database.edit L n d e).fulltext.find? (L, key) = some t ∧ t.version = n := by
  cases e with
  | storeText item =>
      simp only [Database.edit, Table.find?_put]
      split
      · exact .inr ⟨_, rfl, rfl⟩
      · exact .inl rfl
  | register key' upload =>
      refine .inl ?_
      rw [Database.edit]
  | store | remove | removeTag | storeSetting | removeSetting => exact .inl rfl

theorem edits_texts (es : List Edit) {n : Int} :
    (Database.edits L n d es).fulltext.find? (L, key) = d.fulltext.find? (L, key) ∨
      ∃ t, (Database.edits L n d es).fulltext.find? (L, key) = some t ∧ t.version = n := by
  induction es generalizing d with
  | nil => exact .inl rfl
  | cons e es ih =>
      rcases ih (d := Database.edit L n d e) with same | stored
      · exact (edit_texts e).imp same.trans fun ⟨t, found, hn⟩ => ⟨t, same.trans found, hn⟩
      · exact .inr stored

/-- Full text is replaced, and never removed. -/
theorem texts_of_steps (steps : Relation.ReflTransGen (LibraryStep L) d₀ d) (key : String) :
    d.fulltext.find? (L, key) = d₀.fulltext.find? (L, key) ∨
      ∃ t, d.fulltext.find? (L, key) = some t ∧ d₀.version L < t.version := by
  induction steps with
  | refl => exact .inl rfl
  | @tail d' d'' before step ih =>
      have low := version_le_of_steps before
      cases step with
      | apart same =>
          rw [← Table.find?_eq_of_part_eq same.fulltext (inLibrary_self L key)]
          exact ih
      | edited es nonempty found after =>
          rw [← Table.find?_eq_of_part_eq after.fulltext (inLibrary_self L key)]
          rcases edits_texts es with same | ⟨t, stored, hn⟩
          · rw [same]
            simpa only [Database.setVersion_fulltext] using ih
          · exact .inr ⟨t, stored, by omega⟩

theorem pull_fulltext (at_d : AnsweredAt front L d exchange)
    (steps : Relation.ReflTransGen (LibraryStep L) d₀ d) (exact : Exact L d₀ m)
    (asked : Asked front m.version exchange) :
    (m.pull front h exchange).fulltext = servedText L d := by
  funext key
  have sent {text : Int × Value} (found : exchange.findSome? (sentText key) = some text) :
      servedText L d key = some text := by
    obtain ⟨⟨get, answer⟩, hentry, hsent⟩ := List.exists_of_findSome?_eq_some found
    cases get with
    | fulltextItem key' =>
        by_cases same : key' = key
        · subst same
          exact (run_fulltextItem (at_d _ hentry)).symm.trans hsent
        · simp only [sentText, if_neg same] at hsent
          cases hsent
    | _ => cases hsent
  simp only [Mirror.pull]
  cases found : exchange.findSome? (sentText key) with
  | some text => exact (sent found).symm
  | none =>
      rw [Option.none_or, exact.fulltext]
      rcases texts_of_steps steps key with same | ⟨t, stored, above⟩
      · rw [servedText, servedText, same]
      · -- The text is listed, so it was asked for and sent.
        obtain ⟨params, answer, hentry, cursor, fetched⟩ := asked.texts
        have named : key ∈ namedKeys (bodyOf answer) := by
          rw [run_fulltextVersions (at_d _ hentry), mem_namedKeys, cursor, exact.version]
          exact List.mem_map.mpr ⟨(key, t.version), VersionListing.fulltext.mem_rows.mpr
            ⟨by simp [VersionListing.version, stored], above⟩, rfl⟩
        obtain ⟨answer', hentry'⟩ := fetched key named
        have unsent := List.findSome?_eq_none_iff.mp found _ hentry'
        rw [run_fulltextItem (at_d _ hentry'), servedText, stored] at unsent
        cases unsent

/-- A round answered from one state makes an exact copy of any earlier state
exact again. -/
theorem pull_exact (at_d : AnsweredAt front L d exchange)
    (steps : Relation.ReflTransGen (LibraryStep L) d₀ d)
    (ok : ∀ kind, Feed.Ok (objectFeed L kind d₀)) (exact : Exact L d₀ m)
    (asked : Asked front m.version exchange) (shown : h = d.version L) :
    Exact L d (m.pull front h exchange) where
  version := shown
  object kind := pull_object at_d steps (ok kind) exact asked
  setting := pull_setting at_d steps exact asked
  fulltext := pull_fulltext at_d steps exact asked

end Answers

/-! ### All clients of a run -/

section Run
variable {digests : Digests} {config : Config} {ι : Type} [DecidableEq ι]
  {σ₀ σ : Session (server digests config) ι} {front : Frontend} {L : LibraryId}

theorem Exact.unique {d : Database} {m m' : Mirror} (exact : Exact L d m) (exact' : Exact L d m') :
    m = m' := by
  cases m with
  | mk version object setting fulltext =>
      cases m' with
      | mk version' object' setting' fulltext' =>
          obtain rfl : version = version' := exact.version.trans exact'.version.symm
          obtain rfl : object = object' :=
            funext fun kind => (exact.object kind).trans (exact'.object kind).symm
          obtain rfl : setting = setting' := exact.setting.trans exact'.setting.symm
          obtain rfl : fulltext = fulltext' := exact.fulltext.trans exact'.fulltext.symm
          rfl

theorem Exact.congr {d d' : Database} {m : Mirror} (exact : Exact L d m)
    (agree : LibraryAgree L d d') : Exact L d' m where
  version := exact.version.trans agree.version
  object kind := (exact.object kind).trans
    (funext fun key => by rw [served, served, agree.find?_object])
  setting := exact.setting.trans (servedSetting_congr agree)
  fulltext := exact.fulltext.trans (funext fun key => by
    rw [servedText, servedText, Table.find?_eq_of_part_eq agree.fulltext (inLibrary_self L key)])

theorem Fresh.exact_empty {d : Database} (fresh : Fresh L d) (zero : d.version L = 0) :
    Exact L d .empty where
  version := zero.symm
  object kind := funext fun key => by simp [served, fresh.object, Mirror.empty]
  setting := funext fun key => by simp [servedSetting, fresh.setting, Mirror.empty]
  fulltext := funext fun key => by simp [servedText, fresh.fulltext, Mirror.empty]

/-- A client's copy is exact for the start or for one of the moments of its
statements. -/
theorem Mirrored.exact {cs : List Database} {m : Mirror} (mirrored : Mirrored front L cs m)
    {d₀ : Database} (ordered : (d₀ :: cs).Pairwise (Relation.ReflTransGen (LibraryStep L)))
    (fresh : Fresh L d₀) (zero : d₀.version L = 0) : ∃ d ∈ d₀ :: cs, Exact L d m := by
  induction mirrored with
  | new => exact ⟨d₀, by simp, fresh.exact_empty zero⟩
  | dropped before unused ih =>
      obtain ⟨d, hd, exact⟩ := ih (List.Pairwise.sublist (by simp) ordered)
      exact ⟨d, List.mem_append_left unused hd, exact⟩
  | @pulled ds ds' m before first last gets opens closes answers replayed h firstShows lastShows
      asked ih =>
      have parts := List.pairwise_append.mp (show ((d₀ :: ds) ++ ds').Pairwise _ from ordered)
      obtain ⟨d, hd, exact⟩ := ih parts.1
      obtain ⟨d', hd', shown, each⟩ :=
        gets_of_ordered front true parts.2.1 opens closes replayed
          (firstShows.trans lastShows.symm)
      have start : Relation.ReflTransGen (LibraryStep L) d₀ d := by
        rcases List.mem_cons.mp hd with rfl | later
        · exact .refl
        · exact (List.pairwise_cons.mp parts.1).1 d later
      have at_d : AnsweredAt front L d' ((first :: gets ++ [last]).zip answers) :=
        fun entry hentry => (List.forall₂_iff_zip.mp each).2 hentry
      refine ⟨d', List.mem_append_right (d₀ :: ds) hd', ?_⟩
      refine pull_exact at_d (parts.2.2 d hd d' hd') (fun kind => ?_) exact asked ?_
      · exact (fresh.feed kind).advance (advance_of_steps start (fresh.feed kind))
      · exact Option.some.inj (firstShows.symm.trans shown)

/-- In every run from the empty library, with any number of clients that only
read beside those that write: a client's copy is the whole library as it was at
the version of the copy; two clients with the same version hold the same copy;
and a client whose version is the current one holds the current library. -/
theorem mirrors_exact {ds : List Database} (starts : Starts σ₀) (fresh : Fresh L σ₀.state)
    (zero : σ₀.state.version L = 0) (watched : Watched σ₀ ds σ) :
    (∀ cs m, List.Sublist cs ds → Mirrored front L cs m →
      ∃ d ∈ σ₀.state :: ds, Exact L d m) ∧
    (∀ cs m cs' m', List.Sublist cs ds → Mirrored front L cs m → List.Sublist cs' ds →
      Mirrored front L cs' m' → m.version = m'.version → m = m') ∧
    ∀ cs m, List.Sublist cs ds → Mirrored front L cs m → m.version = σ.state.version L →
      Exact L σ.state m := by
  have ordered := watched.ordered .refl starts L
  have exact (cs : List Database) (m : Mirror) (mine : List.Sublist cs ds)
      (mirrored : Mirrored front L cs m) : ∃ d ∈ σ₀.state :: ds, Exact L d m := by
    have before := (List.pairwise_append.mp ordered).1
    obtain ⟨d, hd, exact⟩ := mirrored.exact (before.sublist (mine.cons_cons _)) fresh zero
    exact ⟨d, (mine.cons_cons _).subset hd, exact⟩
  -- Two moments with the same version have the same library, whichever comes first.
  have alike : ∀ ⦃d⦄, d ∈ σ₀.state :: ds → ∀ ⦃d'⦄, d' ∈ σ₀.state :: ds →
      d.version L = d'.version L → LibraryAgree L d d' := by
    have moments := (List.pairwise_append.mp ordered).1
    apply List.Pairwise.forall_of_forall_of_flip
    · exact fun d _ _ => .refl L d
    · exact moments.imp fun steps same => agree_of_steps steps same
    · exact moments.imp fun steps (same : _ = _) => (agree_of_steps steps same.symm).symm
  refine ⟨exact, fun cs m cs' m' mine mirrored mine' mirrored' same => ?_,
    fun cs m mine mirrored current => ?_⟩
  · obtain ⟨d, hd, here⟩ := exact cs m mine mirrored
    obtain ⟨d', hd', here'⟩ := exact cs' m' mine' mirrored'
    have versions : d.version L = d'.version L :=
      here.version.symm.trans (same.trans here'.version)
    exact (here.congr (alike hd hd' versions)).unique here'
  · obtain ⟨d, hd, here⟩ := exact cs m mine mirrored
    have steps := (List.pairwise_append.mp ordered).2.2 d hd σ.state (by simp)
    exact here.congr (agree_of_steps steps (here.version.symm.trans current))

def colorsRequest : Request :=
  .guarded newLibrary (some 0) (.writeSettings
    (.object [("tagColors", .object [("value", .array [])])]))

def twoNotesRequest : Request :=
  .guarded newLibrary (some 1) (.write .item
    [.object [("key", .string "TEXT2345"), ("itemType", .string "note")],
      .object [("key", .string "NEXT2345"), ("itemType", .string "note")]] true fun _ _ => 0)

def textRequest : Request :=
  .guarded newLibrary (some 2) (.writeFulltext
    [.object [("key", .string "TEXT2345"), ("content", .string "text")]])

def deleteNextRequest : Request :=
  .guarded newLibrary (some 3) (.delete .item ["NEXT2345"] true)

def colorsDatabase : Database := plainServer.after pairDatabase 6 colorsRequest

def twoNotesDatabase : Database := plainServer.after colorsDatabase 10 twoNotesRequest

def textDatabase : Database := plainServer.after twoNotesDatabase 6 textRequest

/-- The library that the client finds, and the other one before and after its change. -/
def foundDatabase : Database := plainServer.after textDatabase 6 deleteNextRequest

def movedDatabase : Database := plainServer.after foundDatabase 6 otherNoteRequest

/-- It reads the two queries that are sent below. -/
def listFrontend : Frontend :=
  ⟨plainLocale, ⟨fun raw =>
    if raw = "format=versions" then some [("format", "versions")]
    else if raw = "itemKey=TEXT2345" then some [("itemKey", "TEXT2345")]
    else none, fun _ => none⟩, plainConfig⟩

/-- What it asks for between the settings and the deletions. -/
def firstRound : List DataGet :=
  [.collections [("format", "versions")], .searches [("format", "versions")],
    .items .items "/users/1/items" (some "format=versions"),
    .items .items "/users/1/items" (some "itemKey=TEXT2345"), .fulltextVersions [],
    .fulltextItem "TEXT2345"]

theorem serve_fetch : (DataGet.items .items "/users/1/items" (some "itemKey=TEXT2345")).serve
    listFrontend newLibrary true = (do
      let value ← objects newLibrary .item ["TEXT2345"] true
      let current ← currentVersion newLibrary
      return some (.ofResponse ⟨200, current, some value⟩)) := by
  have read : Handlers.itemSyncRead newLibrary [("itemKey", "TEXT2345")] false true = (do
      let value ← objects newLibrary .item ["TEXT2345"] true
      let current ← currentVersion newLibrary
      return some ⟨200, current, some value⟩) := by
    rw [Handlers.itemSyncRead, if_neg (by decide), ← splitOn_noteKey]
    rfl
  rw [DataGet.serve, ItemsRoute.get, Handlers.itemsGet, Handlers.itemsWith]
  change (Handlers.itemSyncRead newLibrary [("itemKey", "TEXT2345")] false true >>= _) >>= _ = _
  rw [read]
  simp only [Txn.bind_assoc, Txn.pure_eq, Txn.ret_bind]

/-- The answers show one version, and the client has asked for all that it needs. -/
theorem firstRound_asked : ∃ answers,
    (Txn.inTurn ((DataGet.settings [] [] :: firstRound ++ [DataGet.deleted []]).map
      (DataGet.serve listFrontend newLibrary true))).replay
        (List.replicate 6 foundDatabase ++ List.replicate 9 movedDatabase) = some answers ∧
    answers.head?.bind shownVersion = some 4 ∧ answers.getLast?.bind shownVersion = some 4 ∧
    Asked listFrontend 0
      ((DataGet.settings [] [] :: firstRound ++ [DataGet.deleted []]).zip answers) := by
  simp only [firstRound, List.map_cons, List.map_nil, List.cons_append,
    List.nil_append, serve_fetch]
  refine ⟨_, rfl, rfl, rfl, ?_⟩
  refine
    { settings := ⟨_, _, _, .head _, rfl⟩
      deleted := ⟨_, _, .tail _ (.tail _ (.tail _ (.tail _ (.tail _ (.tail _ (.tail _
        (.head _))))))), rfl⟩
      listed := fun kind => ?_
      texts := ?_ }
  · cases kind with
    | item =>
        refine ⟨_, _, .tail _ (.tail _ (.tail _ (.head _))), rfl, fun key hk => ?_⟩
        have named : key ∈ ["TEXT2345"] := hk
        refine ⟨_, _, "TEXT2345".splitOn ",",
          .tail _ (.tail _ (.tail _ (.tail _ (.head _)))), rfl, ?_⟩
        rwa [splitOn_noteKey]
    | collection =>
        refine ⟨_, _, .tail _ (.head _), rfl, fun key hk => ?_⟩
        exact absurd (show key ∈ [] from hk) List.not_mem_nil
    | search =>
        refine ⟨_, _, .tail _ (.tail _ (.head _)), rfl, fun key hk => ?_⟩
        exact absurd (show key ∈ [] from hk) List.not_mem_nil
  · refine ⟨_, _, .tail _ (.tail _ (.tail _ (.tail _ (.tail _ (.head _))))), rfl,
      fun key hk => ?_⟩
    obtain rfl : key = "TEXT2345" := List.mem_singleton.mp hk
    exact ⟨_, .tail _ (.tail _ (.tail _ (.tail _ (.tail _ (.tail _ (.head _))))))⟩

/-- The first round of a client, while the other library changes. -/
theorem mirrors_exact_between : ∃ m,
    Mirrored listFrontend newLibrary
      (List.replicate 6 foundDatabase ++ List.replicate 9 movedDatabase) m ∧
    Exact newLibrary movedDatabase m ∧
    foundDatabase.version otherLibrary = 0 ∧ movedDatabase.version otherLibrary = 1 ∧
    m.setting "tagColors" ≠ none ∧ m.object .item "TEXT2345" ≠ none ∧
    m.fulltext "TEXT2345" ≠ none ∧ m.object .item "NEXT2345" = none ∧
    movedDatabase.deletion.find? (newLibrary, .object .item, "NEXT2345") = some 4 := by
  have start : Run (Session.idle pairDatabase : Session plainServer Unit) []
      (Session.idle pairDatabase) := .refl
  obtain ⟨_, run, -⟩ := start.then_alone (r := colorsRequest) (t := colorsDatabase) () 6 rfl rfl
    (by constructor <;> decide)
  obtain ⟨_, run, -⟩ := run.then_alone (r := twoNotesRequest) (t := twoNotesDatabase) () 10 rfl rfl
    (by constructor <;> decide)
  obtain ⟨_, run, -⟩ := run.then_alone (r := textRequest) (t := textDatabase) () 6 rfl rfl
    (by constructor <;> decide)
  obtain ⟨_, run, -⟩ := run.then_alone (r := deleteNextRequest) (t := foundDatabase) () 6 rfl rfl
    (by constructor <;> decide)
  have between : Run (Session.idle foundDatabase : Session plainServer Unit) []
      (Session.idle foundDatabase) := .refl
  obtain ⟨_, run', -⟩ := between.then_alone (r := otherNoteRequest) (t := movedDatabase) () 6
    rfl rfl (by constructor <;> decide)
  have idle {n : Nat} {d : Database} {events : List (Event plainServer)}
      {σ τ : Session plainServer Unit} {ds : List Database} (h : Run σ events (Session.idle d))
      (rest : Watched (Session.idle d) ds τ) :
      Watched σ (List.replicate (n + 1) d ++ ds) τ := by
    induction n generalizing σ events with
    | zero => exact .read h rest
    | succ n ih => exact .read h (ih .refl)
  have watched := idle (n := 5) run (idle (n := 8) run' (.last .refl))
  have opens : (DataGet.settings [] []).versionFirst listFrontend := trivial
  have closes : (DataGet.deleted []).versionLast listFrontend := trivial
  obtain ⟨answers, replayed, firstShows, lastShows, asked⟩ := firstRound_asked
  have mirrored := Mirrored.pulled .new opens closes replayed firstShows lastShows asked
  have current : Exact newLibrary movedDatabase _ :=
    (mirrors_exact (starts_idle pairDatabase_valid) (by constructor <;> intros <;> rfl) rfl
      watched).2.2 _ _ (.refl _) mirrored rfl
  refine ⟨_, mirrored, current, rfl, rfl, ?_, ?_, ?_, ?_, rfl⟩
  · rw [current.setting]
    exact nofun
  · rw [current.object]
    exact nofun
  · rw [current.fulltext]
    exact nofun
  · rw [current.object]
    rfl

end Run

end Xotero
