import Xotero.Handlers.Listings

/-!
The item listings: the sync reads of `/items` and `/items/top`, the plain list
of keys, and a page with the number of all matches and the link to the next.
-/

namespace Xotero

/-- Query strings as `serde_urlencoded` reads and writes them. -/
structure Urlencoded where
  fromStr : String → Option Params
  toString : Params → Option String

/-- `Params::parse` -/
def Urlencoded.parse (urlencoded : Urlencoded) (raw : Option String) : Params :=
  (raw.bind urlencoded.fromStr).getD []

/-- What the listings take from the database, its libraries and the configuration. -/
structure Frontend where
  locale : Locale
  urlencoded : Urlencoded
  config : Config

inductive Body where
  | json (value : Value)
  | text (s : String)

structure ItemsResponse where
  status : Nat
  version : Int
  totalResults : Option Nat
  link : Option String
  body : Option Body

def ItemsResponse.ofResponse (r : Response) : ItemsResponse :=
  ⟨r.status, r.version, none, none, r.body.map .json⟩

/-- Addition of `i64`, which wraps around in a release build. -/
def addI64 (a b : Int) : Int := (a + b).bmod (2 ^ 64)

/-- The page from `start` on, with the other parameters of the request. -/
def nextLink (front : Frontend) (path : String) (raw : Option String) (start : Int) : String :=
  let pairs := (front.urlencoded.parse raw).filter (fun p => p.1 ≠ "start") ++
    [("start", toString start)]
  "<" ++ front.config.publicUrl ++ path ++ "?" ++ (front.urlencoded.toString pairs).getD "" ++
    ">; rel=\"next\""

namespace Handlers
section
variable (front : Frontend) (L : LibraryId) (notes : Bool) (path : String) (raw : Option String)

def itemListing (q : ItemQuery) : Txn Db ItemsResponse := do
  let (items, total) ← queryItems front.locale L q notes
  let current ← currentVersion L
  return {
    status := 200
    version := current
    totalResults := some total
    link := if addI64 q.start q.limit < total then
      some (nextLink front path raw (addI64 q.start q.limit)) else none
    body := some (.json (.array items)) }

/-- `format=keys`: all keys, one a line. -/
def itemKeysResponse (params : Params) (q : ItemQuery) : Txn Db (Option ItemsResponse) := do
  if params.get "format" ≠ some "keys" then
    return none
  else
    let keys ← itemKeys front.locale L q notes
    let current ← currentVersion L
    return some ⟨200, current, none, none, some (.text ("\n".intercalate keys))⟩

/-- The query part of every listing. -/
def itemQuery (q : ItemQuery) : Txn Db ItemsResponse := do
  match ← itemKeysResponse front L notes (front.urlencoded.parse raw) q with
  | some response => return response
  | none => itemListing front L notes path raw q

/-- The sync reads come first. -/
def itemsWith (top : Bool) : Txn Db ItemsResponse := do
  let params := front.urlencoded.parse raw
  match ← itemSyncRead L params top notes with
  | some response => return .ofResponse response
  | none => itemQuery front L notes path raw { ItemQuery.fromParams params with top := top }

def itemsGet : Txn Db ItemsResponse := itemsWith front L notes path raw false

def itemsTop : Txn Db ItemsResponse := itemsWith front L notes path raw true

def itemsTrash : Txn Db ItemsResponse :=
  itemQuery front L notes path raw
    { ItemQuery.fromParams (front.urlencoded.parse raw) with onlyTrashed := true }

def collectionItems (key : String) : Txn Db ItemsResponse :=
  itemQuery front L notes path raw
    { ItemQuery.fromParams (front.urlencoded.parse raw) with collection := some key }

def collectionItemsTop (key : String) : Txn Db ItemsResponse :=
  itemQuery front L notes path raw
    { ItemQuery.fromParams (front.urlencoded.parse raw) with collection := some key, top := true }

end
end Handlers

/-- The routes that list items. -/
inductive ItemsRoute where
  | items
  | top
  | trash
  | collection (key : String)
  | collectionTop (key : String)

def ItemsRoute.get (front : Frontend) (L : LibraryId) (notes : Bool) (path : String)
    (raw : Option String) : ItemsRoute → Txn Db ItemsResponse
  | .items => Handlers.itemsGet front L notes path raw
  | .top => Handlers.itemsTop front L notes path raw
  | .trash => Handlers.itemsTrash front L notes path raw
  | .collection key => Handlers.collectionItems front L notes path raw key
  | .collectionTop key => Handlers.collectionItemsTop front L notes path raw key

end Xotero
