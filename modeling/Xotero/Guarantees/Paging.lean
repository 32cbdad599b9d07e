import Xotero.Foundation.Paging
import Xotero.Guarantees.Notes
import Xotero.Http.Urlencoded

/-!
Paging of the item listings. A request names a window of one sorted list of rows,
and the link of its page is a request for the next window with the same query; so
a walk over an unchanged library lists each row once, and the rows are those that
the plain list of keys names.
-/

namespace Xotero

namespace ItemsRoute

/-- The request is answered with a page, and neither by a sync read nor with all keys. -/
structure Lists (route : ItemsRoute) (params : Params) : Prop where
  no_sync : ¬ route.SyncRead params
  no_keys : params.get "format" ≠ some "keys"

/-- The query of the route, with the filters it adds to those of the request. -/
def query (route : ItemsRoute) (params : Params) : ItemQuery :=
  match route with
  | .items => { ItemQuery.fromParams params with top := false }
  | .top => { ItemQuery.fromParams params with top := true }
  | .trash => { ItemQuery.fromParams params with onlyTrashed := true }
  | .collection key => { ItemQuery.fromParams params with collection := some key }
  | .collectionTop key => { ItemQuery.fromParams params with collection := some key, top := true }

end ItemsRoute

section Answers
variable {front : Frontend} {L : LibraryId} {notes : Bool} {path : String} {raw : Option String}

/-- Past the sync reads every route asks the same of its query. -/
theorem get_of_not_syncRead {route : ItemsRoute}
    (other : ¬ route.SyncRead (front.urlencoded.parse raw)) :
    route.get front L notes path raw = Handlers.itemQuery front L notes path raw
      (route.query (front.urlencoded.parse raw)) := by
  have past (top : Bool) (format : (front.urlencoded.parse raw).get "format" ≠ some "versions")
      (keys : (front.urlencoded.parse raw).get "itemKey" = none) :
      Handlers.itemsWith front L notes path raw top = Handlers.itemQuery front L notes path raw
        { ItemQuery.fromParams (front.urlencoded.parse raw) with top := top } := by
    simp only [Handlers.itemsWith, Handlers.itemSyncRead, if_neg format, keys]
    rfl
  cases route with
  | items | top =>
      simp only [ItemsRoute.SyncRead, not_or, Option.not_isSome_iff_eq_none] at other
      exact past _ other.1 other.2
  | trash | collection | collectionTop => rfl

theorem ends_itemSyncRead (params : Params) (top : Bool)
    (sync : params.get "format" = some "versions" ∨ (params.get "itemKey").isSome) :
    (Handlers.itemSyncRead L params top notes).Ends fun r => r.isSome := by
  unfold Handlers.itemSyncRead
  split
  · refine Txn.ends_bind (Txn.ends_true _) fun current _ => ?_
    cases top <;> exact Txn.ends_bind (Txn.ends_true _) fun _ _ => rfl
  · rename_i format
    obtain ⟨csv, keys⟩ := Option.isSome_iff_exists.mp (sync.resolve_left format)
    simp only [keys]
    exact Txn.ends_bind (Txn.ends_true _) fun _ _ => Txn.ends_bind (Txn.ends_true _) fun _ _ => rfl

theorem ends_itemKeysResponse (params : Params) (q : ItemQuery) :
    (Handlers.itemKeysResponse front L notes params q).Ends fun r =>
      (r = none → params.get "format" ≠ some "keys") ∧
        ∀ response, r = some response → response.totalResults = none := by
  unfold Handlers.itemKeysResponse
  split
  · rename_i other
    exact ⟨fun _ => other, fun _ some_response => nomatch some_response⟩
  · refine Txn.ends_bind (Txn.ends_true _) fun keys _ => ?_
    refine Txn.ends_bind (Txn.ends_true _) fun current _ => ?_
    refine ⟨fun same => (nomatch same), fun response same => ?_⟩
    obtain rfl := Option.some.inj same
    rfl

/-- A response with a total is a page. -/
theorem ends_get (route : ItemsRoute) :
    (route.get front L notes path raw).Ends fun r =>
      r.totalResults.isSome → route.Lists (front.urlencoded.parse raw) := by
  have synced (top : Bool) (sync : (front.urlencoded.parse raw).get "format" = some "versions" ∨
      ((front.urlencoded.parse raw).get "itemKey").isSome) :
      (Handlers.itemsWith front L notes path raw top).Ends fun r =>
        r.totalResults.isSome → route.Lists (front.urlencoded.parse raw) := by
    refine Txn.ends_bind (ends_itemSyncRead _ top sync) fun r answered => ?_
    obtain ⟨response, rfl⟩ := Option.isSome_iff_exists.mp answered
    exact fun total => nomatch total
  by_cases sync : route.SyncRead (front.urlencoded.parse raw)
  · cases route with
    | items => exact synced false sync
    | top => exact synced true sync
    | trash | collection | collectionTop => exact sync.elim
  · rw [get_of_not_syncRead sync]
    refine Txn.ends_bind (ends_itemKeysResponse _ _) fun r ends => ?_
    cases r with
    | none =>
        exact Txn.ends_bind (Txn.ends_true _) fun _ _ =>
          Txn.ends_bind (Txn.ends_true _) fun _ _ _ => ⟨sync, ends.1 rfl⟩
    | some response =>
        intro total
        rw [ends.2 response rfl] at total
        cases total

/-! ### A page -/

/-- The rows that a query selects, in its order. -/
def Database.listed (d : Database) (locale : Locale) (L : LibraryId) (q : ItemQuery)
    (notes : Bool) : List (String × Object) :=
  (d.matchingItems locale L q notes).insertionSort fun e e' => (q.compareRows locale e e').isLE

def rowJson (row : String × Object) : Value := objectJson row.1 row.2.version row.2.data

/-- The page that a query asks for, of a library at version `current`. -/
def Database.page (d : Database) (front : Frontend) (L : LibraryId) (notes : Bool) (path : String)
    (raw : Option String) (q : ItemQuery) (current : Int) : ItemsResponse where
  status := 200
  version := current
  totalResults := some (d.matchingItems front.locale L q notes).length
  link := if addI64 q.start q.limit < (d.matchingItems front.locale L q notes).length then
    some (nextLink front path raw (addI64 q.start q.limit)) else none
  body := some (.json (.array
    (((d.listed front.locale L q notes).drop q.start.toNat).take q.limit.toNat |>.map rowJson)))

theorem currentVersion_bind_run {α : Type} (f : Int → Txn Db α) (d : Database) :
    (currentVersion L >>= f).run d =
      (d.library.find? L).bind fun row => (f row.version).run d := by
  have accepted : (Sql.libraryVersion L).accepted = true := rfl
  have read : Sql.eval (.libraryVersion L) d = (d.library.find? L).map Library.version := rfl
  rw [currentVersion, Txn.bind_assoc, execute_bind_eq, if_pos accepted, read]
  cases d.library.find? L <;> rfl

theorem itemListing_run (q : ItemQuery) (d : Database) :
    (Handlers.itemListing front L notes path raw q).run d =
      if q.storable then
        (d.library.find? L).map fun row => (d, d.page front L notes path raw q row.version)
      else none := by
  have count : (Sql.countItems front.locale L q notes).accepted = q.storable := rfl
  have rows : (Sql.queryItems front.locale L q notes).accepted = q.storable := rfl
  rw [Handlers.itemListing, queryItems, Txn.bind_assoc, execute_bind_eq, count]
  split
  · rename_i storable
    rw [Txn.bind_assoc, execute_bind_eq, rows, if_pos storable]
    refine (currentVersion_bind_run _ d).trans ?_
    cases d.library.find? L <;> rfl
  · rfl

/-- `format=keys`: the keys of the same rows. -/
theorem itemQuery_keys_run {q : ItemQuery} {d : Database}
    (keys : (front.urlencoded.parse raw).get "format" = some "keys")
    (storable : q.storable = true) :
    (Handlers.itemQuery front L notes path raw q).run d =
      (d.library.find? L).map fun row => (d, ⟨200, row.version, none, none,
        some (.text ("\n".intercalate (Sql.eval (.itemKeys front.locale L q notes) d)))⟩) := by
  have accepted : (Sql.itemKeys front.locale L q notes).accepted = true := storable
  rw [Handlers.itemQuery, Handlers.itemKeysResponse, if_neg (by simpa using keys), itemKeys,
    Txn.bind_assoc, execute_bind_eq, if_pos accepted, Txn.bind_assoc]
  refine (currentVersion_bind_run _ d).trans ?_
  cases d.library.find? L <;> rfl

/-- Without it the query is answered with a page. -/
theorem get_of_lists {route : ItemsRoute} (lists : route.Lists (front.urlencoded.parse raw)) :
    route.get front L notes path raw = Handlers.itemListing front L notes path raw
      (route.query (front.urlencoded.parse raw)) := by
  rw [get_of_not_syncRead lists.no_sync, Handlers.itemQuery, Handlers.itemKeysResponse,
    if_pos lists.no_keys]
  rfl

end Answers

/-! ### The rows of a listing -/

section Listed
variable {d : Database} {locale : Locale} {L : LibraryId} {q : ItemQuery} {notes : Bool}

theorem perm_listed : (d.listed locale L q notes).Perm (d.matchingItems locale L q notes) :=
  List.perm_insertionSort _ _

/-- Rows of one listing differ in their keys, so the order leaves nothing open. -/
theorem pairwise_listed :
    (d.listed locale L q notes).Pairwise fun e e' => q.compareRows locale e e' = .lt := by
  have keys : (d.listed locale L q notes).Pairwise fun e e' => e.1 ≠ e'.1 :=
    List.pairwise_map.mp ((perm_listed.map Prod.fst).nodup_iff.mpr (nodup_objectsWhere d L .item _))
  have sorted : (d.listed locale L q notes).Pairwise fun e e' => (q.compareRows locale e e').isLE :=
    pairwise_insertionSort_isLE _
  refine (keys.and sorted).imp fun {e e'} h => ?_
  obtain ⟨apart, le⟩ := h
  cases order : q.compareRows locale e e' with
  | lt => rfl
  | eq => exact absurd (ItemQuery.key_eq_of_compareRows order) apart
  | gt => simp [order] at le

theorem perm_itemKeys : (Sql.eval (.itemKeys locale L q notes) d).Perm
    ((d.listed locale L q notes).map Prod.fst) :=
  (List.perm_insertionSort _ _).trans (perm_listed.symm.map _)

theorem length_matchingItems_le (d : Database) (locale : Locale) (L : LibraryId) (q : ItemQuery)
    (notes : Bool) : (d.matchingItems locale L q notes).length ≤ d.object.rows.length := by
  rw [Database.matchingItems, Database.objectsWhere, List.length_map, Table.select]
  exact List.length_filter_le _ _

end Listed

/-! ### Following the link -/

/-- Query strings that read back what they were written from. -/
def Urlencoded.RoundTrips (urlencoded : Urlencoded) : Prop :=
  ∀ pairs, ∃ s, urlencoded.toString pairs = some s ∧ urlencoded.fromStr s = some pairs

/-- The query string of a link to the listing itself. -/
def linkedQuery (front : Frontend) (path link : String) : Option String :=
  ((link.toList.dropPrefix? ("<" ++ front.config.publicUrl ++ path ++ "?").toList).bind
    fun rest => rest.dropSuffix? ">; rel=\"next\"".toList).map String.ofList

theorem linkedQuery_nextLink (front : Frontend) (path : String) (raw : Option String)
    (start : Int) : linkedQuery front path (nextLink front path raw start) =
      some ((front.urlencoded.toString
        ((front.urlencoded.parse raw).restart (toString start))).getD "") := by
  generalize written : (front.urlencoded.toString
    ((front.urlencoded.parse raw).restart (toString start))).getD "" = qs
  have parts : (nextLink front path raw start).toList =
      ("<" ++ front.config.publicUrl ++ path ++ "?").toList ++
        (qs.toList ++ ">; rel=\"next\"".toList) := by
    rw [← written]
    simp only [nextLink, Params.restart, String.toList_append, List.append_assoc]
  rw [linkedQuery, parts, List.dropPrefix?_append_of_beq _ (beq_self_eq_true _), Option.bind_some,
    List.dropSuffix?_eq_some_iff.mpr ⟨_, rfl, beq_self_eq_true _⟩, Option.map_some,
    String.ofList_toList]

theorem addI64_eq {a b : Int} (nonneg : 0 ≤ a + b) (small : a + b < 2 ^ 63) :
    addI64 a b = a + b :=
  Int.bmod_eq_of_le (by omega) (by omega)

namespace ItemsRoute

theorem lists_restart {route : ItemsRoute} {params : Params} (lists : route.Lists params)
    (start : String) : route.Lists (params.restart start) := by
  have format := params.get_restart start (show "format" ≠ "start" by decide)
  have itemKey := params.get_restart start (show "itemKey" ≠ "start" by decide)
  refine ⟨fun sync => lists.no_sync ?_, format ▸ lists.no_keys⟩
  cases route with
  | items | top => simpa only [SyncRead, format, itemKey] using sync
  | trash | collection | collectionTop => exact sync.elim

theorem query_restart (route : ItemsRoute) (params : Params) {start : Nat}
    (small : start < 2 ^ 63) :
    route.query (params.restart (toString (start : Int))) =
      { route.query params with start := start } := by
  cases route <;> simp only [query, ItemQuery.fromParams_restart params small]

/-- The page window of a route is that of its parameters. -/
theorem limit_query (route : ItemsRoute) (params : Params) :
    (route.query params).limit = (ItemQuery.fromParams params).limit := by
  cases route <;> rfl

theorem start_query (route : ItemsRoute) (params : Params) :
    (route.query params).start = (ItemQuery.fromParams params).start := by
  cases route <;> rfl

/-- The listing as a site, over a library that does not change. -/
def site (front : Frontend) (L : LibraryId) (notes : Bool) (path : String) (d : Database)
    (route : ItemsRoute) : Site (Option String) ItemsResponse String where
  answer raw := ((route.get front L notes path raw).run d).map Prod.snd
  link := ItemsResponse.link
  follow link := (linkedQuery front path link).map some

end ItemsRoute

def ItemsResponse.items (r : ItemsResponse) : List Value :=
  match r.body with
  | some (.json (.array values)) => values
  | _ => []

section Windows
variable {front : Frontend} {L : LibraryId} {notes : Bool} {path : String} {route : ItemsRoute}
  {params : Params} {d : Database} {row : Library}

/-- A request for the listing of `params`, from `offset` on. -/
structure ItemsRoute.Asks (front : Frontend) (route : ItemsRoute) (params : Params) (bound : Nat)
    (offset : Nat) (raw : Option String) : Prop where
  lists : route.Lists (front.urlencoded.parse raw)
  query : route.query (front.urlencoded.parse raw) = { route.query params with start := offset }
  inside : offset ≤ bound

/-- PostgreSQL addresses a row of a table by a block number of 32 bits and an offset
of 16 in the block. -/
def Database.Addressable (d : Database) : Prop := d.object.rows.length ≤ 2 ^ 48

/-- The link asks for the same listing from another offset. -/
theorem asks_next (L : LibraryId) (notes : Bool) (path : String) (d : Database)
    (roundTrips : front.urlencoded.RoundTrips) {bound offset : Nat}
    {raw : Option String} (asks : route.Asks front params bound offset raw) {n : Nat}
    (inside : n ≤ bound) (small : n < 2 ^ 63) :
    ∃ raw', (route.site front L notes path d).follow (nextLink front path raw n) = some raw' ∧
      route.Asks front params bound n raw' := by
  obtain ⟨s, written, read⟩ :=
    roundTrips ((front.urlencoded.parse raw).restart (toString (n : Int)))
  have again : front.urlencoded.parse (some s) =
      (front.urlencoded.parse raw).restart (toString (n : Int)) := by
    rw [Urlencoded.parse, Option.bind_some, read, Option.getD_some]
  refine ⟨some s, ?_, ?_, ?_, inside⟩
  · simp only [ItemsRoute.site]
    rw [linkedQuery_nextLink, written]
    rfl
  · rw [again]
    exact ItemsRoute.lists_restart asks.lists _
  · rw [again, ItemsRoute.query_restart route _ small, asks.query]

/-- Each request gets its window of the one sorted list, and a link past it. -/
theorem windows (notes : Bool) (path : String) (roundTrips : front.urlencoded.RoundTrips)
    (fits : d.Addressable) (storable : (route.query params).storable = true)
    (known : d.library.find? L = some row) :
    (route.site front L notes path d).Windows
      ((d.listed front.locale L (route.query params) notes).map rowJson)
      (route.query params).limit.toNat ItemsResponse.items
      (route.Asks front params d.object.rows.length)
      fun r => r.totalResults =
          some (d.matchingItems front.locale L (route.query params) notes).length ∧
        r.items.length ≤ (route.query params).limit := by
  have window := ItemQuery.window_fromParams params
  rw [← route.limit_query params, maxLimit] at window
  obtain ⟨positive, most, -⟩ := window
  have total : ((d.listed front.locale L (route.query params) notes).map rowJson).length =
      (d.matchingItems front.locale L (route.query params) notes).length := by
    rw [List.length_map, perm_listed.length_eq]
  refine ⟨by omega, fun {offset raw} asks => ?_⟩
  have run : (route.get front L notes path raw).run d = some (d,
      d.page front L notes path raw { route.query params with start := offset } row.version) := by
    have accepted : ({ route.query params with start := (offset : Int) } : ItemQuery).storable =
      true := storable
    rw [get_of_lists asks.lists, asks.query, itemListing_run, if_pos accepted, known]
    rfl
  have items : (d.page front L notes path raw
      { route.query params with start := offset } row.version).items =
        (((d.listed front.locale L (route.query params) notes).drop offset).take
          (route.query params).limit.toNat).map rowJson := rfl
  refine ⟨_, congrArg (Option.map Prod.snd) run, ⟨rfl, ?_⟩, ?_, ?_⟩
  · have size := List.length_take_le (route.query params).limit.toNat
      ((d.listed front.locale L (route.query params) notes).drop offset)
    rw [items, List.length_map]
    omega
  · rw [items, List.map_take, List.map_drop]
  · -- The offset stays far from where the sum of two `i64` wraps around.
    have bound := length_matchingItems_le d front.locale L (route.query params) notes
    have inside := asks.inside
    unfold Database.Addressable at fits
    have sum : addI64 offset (route.query params).limit =
        ((offset + (route.query params).limit.toNat : Nat) : Int) :=
      (addI64_eq (by omega) (by omega)).trans (by omega)
    have link : (d.page front L notes path raw
        { route.query params with start := offset } row.version).link =
          if addI64 offset (route.query params).limit <
              (d.matchingItems front.locale L (route.query params) notes).length then
            some (nextLink front path raw (addI64 offset (route.query params).limit))
          else none := rfl
    rw [sum] at link
    rw [total]
    split
    · rename_i more
      obtain ⟨raw', followed, asks'⟩ := asks_next L notes path d roundTrips asks
        (show offset + (route.query params).limit.toNat ≤ _ by omega) (by omega)
      exact ⟨_, raw', link.trans (if_pos (Int.ofNat_lt.mpr more)), followed, asks'⟩
    · rename_i done
      exact link.trans (if_neg fun less => done (Int.ofNat_lt.mp less))

end Windows

/-- Parameters that ask for the same, and for all keys at once. -/
structure Params.KeysOf (params' params : Params) : Prop where
  format : params'.get "format" = some "keys"
  others : ∀ name, name ≠ "format" → params'.all name = params.all name

theorem Params.KeysOf.get {params' params : Params} (h : params'.KeysOf params) {name : String}
    (other : name ≠ "format") : params'.get name = params.get name := by
  have first (ps : Params) : ps.get name = ((ps.all name).head?) := by
    rw [Params.get, Params.all, List.head?_map, List.head?_filter]
  rw [first, first, h.others name other]

theorem Params.KeysOf.query {params' params : Params} (h : params'.KeysOf params)
    (route : ItemsRoute) : route.query params' = route.query params := by
  have same : ItemQuery.fromParams params' = ItemQuery.fromParams params := by
    simp (disch := decide) only [ItemQuery.fromParams, h.get, h.others]
  cases route <;> simp only [ItemsRoute.query, same]

/-- The request for all keys is no sync read where the listing is none. -/
theorem Params.KeysOf.no_sync {params' params : Params} (h : params'.KeysOf params)
    {route : ItemsRoute} (lists : route.Lists params) : ¬ route.SyncRead params' := by
  have itemKey := h.get (show "itemKey" ≠ "format" by decide)
  have other := lists.no_sync
  cases route with
  | items | top =>
      simp only [ItemsRoute.SyncRead, not_or] at other ⊢
      exact ⟨by simp [h.format], itemKey ▸ other.2⟩
  | trash | collection | collectionTop => exact id

/-- The pages of a listing make up all rows that its query selects, each once and in
order; the plain list of keys names the same rows. -/
theorem paging_enumerates (front : Frontend) (roundTrips : front.urlencoded.RoundTrips)
    (route : ItemsRoute) (L : LibraryId) (notes : Bool) (path : String) (raw : Option String)
    {d d' : Database} (fits : d.Addressable) {first : ItemsResponse}
    (answered : (route.get front L notes path raw).run d = some (d', first))
    (listing : first.totalResults.isSome)
    (beginning : (ItemQuery.fromParams (front.urlencoded.parse raw)).start = 0) :
    let q := route.query (front.urlencoded.parse raw)
    ∃ (pages : List ItemsResponse) (rows : List (String × Object)),
      (route.site front L notes path d).Walk raw pages ∧
      (∀ pages', (route.site front L notes path d).Walk raw pages' → pages' = pages) ∧
      rows.Perm (d.matchingItems front.locale L q notes) ∧
      (rows.map Prod.fst).Nodup ∧
      rows.Pairwise (fun e e' => q.compareRows front.locale e e' = .lt) ∧
      pages.flatMap ItemsResponse.items = rows.map rowJson ∧
      (∀ page ∈ pages,
        page.totalResults = some (d.matchingItems front.locale L q notes).length ∧
          page.items.length ≤ q.limit) ∧
      ∀ raw', (front.urlencoded.parse raw').KeysOf (front.urlencoded.parse raw) →
        ∃ response keys, (route.get front L notes path raw').run d = some (d, response) ∧
          response.body = some (.text ("\n".intercalate keys)) ∧
          keys.Perm (rows.map Prod.fst) := by
  intro q
  have lists := Txn.ends_of_run (ends_get route) answered listing
  rw [get_of_lists lists, itemListing_run] at answered
  split at answered
  · rename_i storable
    cases known : d.library.find? L with
    | none => simp [known] at answered
    | some row =>
        have start : (route.query (front.urlencoded.parse raw)).start = 0 :=
          (route.start_query _).trans beginning
        have asks : route.Asks front (front.urlencoded.parse raw) d.object.rows.length 0 raw :=
          ⟨lists, by rw [Int.natCast_zero, ← start], Nat.zero_le _⟩
        obtain ⟨pages, walk, contents, shown⟩ :=
          (windows notes path roundTrips fits storable known).walk asks
        refine ⟨pages, _, walk, fun _ walk' => walk'.unique walk, perm_listed,
          (perm_listed.map Prod.fst).nodup_iff.mpr (nodup_objectsWhere d L .item _),
          pairwise_listed, contents, shown, fun raw' keys => ?_⟩
        have run := @itemQuery_keys_run front L notes path raw' _ d keys.format storable
        rw [← keys.query route, ← get_of_not_syncRead (keys.no_sync lists), known] at run
        exact ⟨_, _, run, rfl, keys.query route ▸ perm_itemKeys⟩
  · cases answered

def formFrontend : Frontend :=
  ⟨plainLocale, ⟨FormUrlencoded.parse, fun pairs => some (FormUrlencoded.serialize pairs)⟩,
    plainConfig⟩

theorem formFrontend_serializes : formFrontend.urlencoded.RoundTrips :=
  fun pairs => ⟨_, rfl, FormUrlencoded.parse_serialize pairs⟩

theorem formFrontend_parse (pairs : Params) :
    formFrontend.urlencoded.parse (some (FormUrlencoded.serialize pairs)) = pairs :=
  congrArg (Option.getD · []) (FormUrlencoded.parse_serialize pairs)

/-- A library of a book and a note, a row a page. -/
theorem paging_enumerates_two : ∃ pages,
    (ItemsRoute.items.site formFrontend newLibrary true "/users/1/items" bookAndNoteDatabase).Walk
      (some (FormUrlencoded.serialize [("limit", "1")])) pages ∧
    (pages.flatMap ItemsResponse.items).length = 2 ∧
    ∀ page ∈ pages, page.totalResults = some 2 ∧ page.items.length ≤ 1 := by
  have parsed := formFrontend_parse [("limit", "1")]
  generalize some (FormUrlencoded.serialize [("limit", "1")]) = raw at parsed ⊢
  have lists : ItemsRoute.items.Lists (formFrontend.urlencoded.parse raw) := by
    rw [parsed]
    exact ⟨by simp [ItemsRoute.SyncRead, Params.get], by decide⟩
  have answered := @itemListing_run formFrontend newLibrary true "/users/1/items" raw
    (ItemsRoute.items.query [("limit", "1")]) bookAndNoteDatabase
  rw [if_pos (by decide), ← parsed, ← get_of_lists lists] at answered
  obtain ⟨pages, rows, walk, -, selected, -, -, whole, each, -⟩ := paging_enumerates formFrontend
    formFrontend_serializes .items newLibrary true "/users/1/items" raw
    (by unfold Database.Addressable; decide) answered rfl (by rw [parsed]; decide)
  rw [parsed] at selected each
  refine ⟨pages, walk, ?_, fun page mem => ?_⟩
  · rw [whole, List.length_map, selected.length_eq]
    rfl
  · obtain ⟨total, size⟩ := each page mem
    exact ⟨total, Int.ofNat_le.mp size⟩

end Xotero
