import Xotero.Http.Middleware

/-!
The routes of the server. The framework matches them on the raw path, segment by
segment; a parameter takes any segment that is not empty.
-/

namespace Xotero

inductive Part where
  | lit (text : String)
  | param
  deriving DecidableEq

def Part.takes : Part → String → Bool
  | .lit text, s => s = text
  | .param, s => s ≠ ""

def takes : List Part → List String → Bool
  | [], [] => true
  | part :: parts, s :: rest => part.takes s && takes parts rest
  | _, _ => false

inductive Handler where
  | keyCurrent
  | createSession
  | checkSession
  | cancelSession
  | loginPage
  | loginAuthorize
  | groups
  | groupGet
  | settingsRead
  | settingsWrite
  | settingsDelete
  | read (kind : ObjectKind)
  | write (kind : ObjectKind)
  | delete (kind : ObjectKind)
  | collectionItems
  | collectionItemsTop
  | itemsGet
  | itemsTop
  | itemsTrash
  | tagsGet
  | tagsDelete
  | fulltextVersions
  | fulltextWrite
  | fulltextItem
  | fileGet
  | filePost
  | deleted
  | uploadPut
  deriving DecidableEq

/-- The handlers that ask for the library of the request. -/
def Handler.usesLibrary : Handler → Bool
  | .keyCurrent | .createSession | .checkSession | .cancelSession | .loginPage | .loginAuthorize
  | .groups | .groupGet | .uploadPut => false
  | _ => true

abbrev Methods := List (Method × Handler)

structure Route where
  parts : List Part
  methods : Methods

def Router.objects (kind : ObjectKind) : Methods :=
  [(.get, .read kind), (.post, .write kind), (.patch, .write kind), (.delete, .delete kind)]

/-- What is below the id of a user or a group. -/
def libraryTails : List (List Part × Methods) := [
  ([.lit "settings"],
    [(.get, .settingsRead), (.post, .settingsWrite), (.delete, .settingsDelete)]),
  ([.lit "collections"], Router.objects .collection),
  ([.lit "collections", .param, .lit "items"], [(.get, .collectionItems)]),
  ([.lit "collections", .param, .lit "items", .lit "top"], [(.get, .collectionItemsTop)]),
  ([.lit "searches"], Router.objects .search),
  ([.lit "items"],
    [(.get, .itemsGet), (.post, .write .item), (.patch, .write .item), (.delete, .delete .item)]),
  ([.lit "items", .lit "top"], [(.get, .itemsTop)]),
  ([.lit "items", .lit "trash"], [(.get, .itemsTrash)]),
  ([.lit "tags"], [(.get, .tagsGet), (.delete, .tagsDelete)]),
  ([.lit "fulltext"], [(.get, .fulltextVersions), (.post, .fulltextWrite)]),
  ([.lit "items", .param, .lit "fulltext"], [(.get, .fulltextItem)]),
  ([.lit "items", .param, .lit "file"], [(.get, .fileGet), (.post, .filePost)]),
  ([.lit "deleted"], [(.get, .deleted)])]

/-- The source lists these routes twice, once for each scope. -/
def libraryRoutes (scope : String) : List Route :=
  libraryTails.map fun tail => ⟨.lit "" :: .lit scope :: .param :: tail.1, tail.2⟩

def otherRoutes : List Route := [
  ⟨[.lit "", .lit "keys", .lit "current"], [(.get, .keyCurrent)]⟩,
  ⟨[.lit "", .lit "keys", .lit "sessions"], [(.post, .createSession)]⟩,
  ⟨[.lit "", .lit "keys", .lit "sessions", .param],
    [(.get, .checkSession), (.delete, .cancelSession)]⟩,
  ⟨[.lit "", .lit "login"], [(.get, .loginPage), (.post, .loginAuthorize)]⟩,
  ⟨[.lit "", .lit "users", .param, .lit "groups"], [(.get, .groups)]⟩,
  ⟨[.lit "", .lit "groups", .param], [(.get, .groupGet), (.head, .groupGet)]⟩,
  ⟨[.lit "", .lit "uploads", .param], [(.post, .uploadPut)]⟩]

def router : List Route := otherRoutes ++ libraryRoutes "groups" ++ libraryRoutes "users"

/-- A `HEAD` without a handler of its own falls back to `GET`. -/
def Route.handler (route : Route) (method : Method) : Option Handler :=
  ((route.methods.find? fun m => m.1 = method).or
    (if method = .head then route.methods.find? fun m => m.1 = .get else none)).map fun m => m.2

inductive Dispatch where
  | handler (h : Handler)
  | notFound
  | methodNotAllowed
  deriving DecidableEq

def dispatch (req : RequestHead) : Dispatch :=
  match router.find? fun route => takes route.parts (segments req.path) with
  | none => .notFound
  | some route =>
      match route.handler req.method with
      | some h => .handler h
      | none => .methodNotAllowed

/-! ### No two routes take the same path -/

/-- Some path is taken by both, as far as the texts tell. -/
def overlap : List Part → List Part → Bool
  | [], [] => true
  | .lit s :: parts, .lit t :: parts' => s = t && overlap parts parts'
  | _ :: parts, _ :: parts' => overlap parts parts'
  | _, _ => false

theorem overlap_of_takes {parts parts' : List Part} {names : List String}
    (h : takes parts names = true) (h' : takes parts' names = true) :
    overlap parts parts' = true := by
  induction parts generalizing parts' names with
  | nil =>
      cases names with
      | nil =>
          cases parts' with
          | nil => rfl
          | cons part' rest' => simp [takes] at h'
      | cons s rest => simp [takes] at h
  | cons part rest ih =>
      cases names with
      | nil => simp [takes] at h
      | cons s names =>
          cases parts' with
          | nil => simp [takes] at h'
          | cons part' rest' =>
              simp only [takes, Bool.and_eq_true] at h h'
              have below := ih h.2 h'.2
              cases part <;> cases part' <;> simp_all [overlap, Part.takes]

theorem router_disjoint :
    router.Pairwise fun route route' => overlap route.parts route'.parts = false := by
  decide

theorem route_unique {route route' : Route} {names : List String} (h : route ∈ router)
    (h' : route' ∈ router) (taken : takes route.parts names = true)
    (taken' : takes route'.parts names = true) : route = route' := by
  have apart : router.Pairwise fun r r' => takes r.parts names = true →
      takes r'.parts names = true → r = r' :=
    router_disjoint.imp fun clear one other => by
      rw [overlap_of_takes one other] at clear
      cases clear
  exact apart.forall_of_forall_of_flip (fun _ _ _ _ => rfl)
    (apart.imp fun same one other => (same other one).symm) h h' taken taken'

/-- The order of the routes is immaterial. -/
theorem dispatch_eq_handler {req : RequestHead} {h : Handler} : dispatch req = .handler h ↔
    ∃ route ∈ router, takes route.parts (segments req.path) = true ∧
      route.handler req.method = some h := by
  unfold dispatch
  constructor
  · intro found
    split at found
    · cases found
    · rename_i route first
      split at found
      · rename_i h' handled
        cases found
        exact ⟨route, List.mem_of_find?_eq_some first,
          by simpa using List.find?_some first, handled⟩
      · cases found
  · rintro ⟨route, listed, taken, handled⟩
    cases first : router.find? fun route => takes route.parts (segments req.path) with
    | none =>
        have := List.find?_eq_none.mp first route listed
        simp [taken] at this
    | some route' =>
        obtain rfl := route_unique (List.mem_of_find?_eq_some first) listed
          (by simpa using List.find?_some first) taken
        simp [handled]

/-! ### The routes of a library -/

theorem takes_cons {part : Part} {parts : List Part} {names : List String}
    (h : takes (part :: parts) names = true) :
    ∃ s rest, names = s :: rest ∧ part.takes s = true ∧ takes parts rest = true := by
  cases names with
  | nil => simp [takes] at h
  | cons s rest => exact ⟨s, rest, rfl, by simpa [takes] using h⟩

theorem takes_lit {text : String} {parts : List Part} {names : List String}
    (h : takes (.lit text :: parts) names = true) :
    ∃ rest, names = text :: rest ∧ takes parts rest = true := by
  obtain ⟨s, rest, rfl, first, below⟩ := takes_cons h
  exact ⟨rest, by simpa [Part.takes] using first, below⟩

theorem named_of_takes {parts : List Part} {names : List String}
    (h : takes parts names = true) (texts : ∀ part ∈ parts, part ≠ .lit "") :
    ∀ name ∈ names, name ≠ "" := by
  induction parts generalizing names with
  | nil =>
      cases names with
      | nil => simp
      | cons s rest => simp [takes] at h
  | cons part parts ih =>
      obtain ⟨s, rest, rfl, first, below⟩ := takes_cons h
      intro name mem
      rcases List.mem_cons.mp mem with rfl | mem
      · cases part with
        | lit text =>
            obtain rfl : name = text := by simpa [Part.takes] using first
            exact fun empty => texts (.lit name) (by simp) (by rw [empty])
        | param => simpa [Part.takes] using first
      · exact ih below (fun p hp => texts p (by simp [hp])) name mem

theorem otherRoutes_handlers :
    ∀ route ∈ otherRoutes, ∀ m ∈ route.methods, m.2.usesLibrary = false := by
  decide

/-- A tail starts with a text, which is not that of the list of groups. -/
theorem libraryTails_text : ∀ tail ∈ libraryTails, (∀ part ∈ tail.1, part ≠ .lit "") ∧
    ∃ text ∈ tail.1.head?, text ≠ .lit "groups" ∧ text ≠ .param := by
  decide

theorem libraryTails_file : ∀ tail ∈ libraryTails, ∀ m ∈ tail.2,
    m.2 = .fileGet ∨ m.2 = .filePost → tail.1 = [.lit "items", .param, .lit "file"] := by
  decide

theorem Route.mem_of_handler {route : Route} {method : Method} {handler : Handler}
    (h : route.handler method = some handler) : ∃ m ∈ route.methods, m.2 = handler := by
  obtain ⟨m, found, rfl⟩ := Option.map_eq_some_iff.mp h
  refine ⟨m, ?_, rfl⟩
  rcases Option.or_eq_some_iff.mp found with own | ⟨-, fallback⟩
  · exact List.mem_of_find?_eq_some own
  · split at fallback
    · exact List.mem_of_find?_eq_some fallback
    · cases fallback

/-- A handler that asks for the library is reached on the path of some data only. -/
theorem dataPath_of_dispatch {req : RequestHead} {handler : Handler}
    (h : dispatch req = .handler handler) (uses : handler.usesLibrary = true) :
    ∃ scope rawId rest, DataPath req.path scope rawId rest ∧
      (handler = .fileGet ∨ handler = .filePost → ∃ key, rest = ["items", key, "file"]) := by
  obtain ⟨route, listed, taken, handled⟩ := dispatch_eq_handler.mp h
  obtain ⟨m, member, rfl⟩ := route.mem_of_handler handled
  have library : ∃ scope, (scope = "users" ∨ scope = "groups") ∧ route ∈ libraryRoutes scope := by
    simp only [router, List.mem_append] at listed
    rcases listed with (other | groups) | users
    · rw [otherRoutes_handlers route other m member] at uses
      cases uses
    · exact ⟨_, .inr rfl, groups⟩
    · exact ⟨_, .inl rfl, users⟩
  obtain ⟨scope, hs, listed⟩ := library
  obtain ⟨⟨parts, methods⟩, tail, rfl⟩ := List.mem_map.mp listed
  obtain ⟨texts, first, head, other, text⟩ := libraryTails_text _ tail
  obtain ⟨_, path, fromScope⟩ := takes_lit taken
  obtain ⟨_, rfl, fromId⟩ := takes_lit fromScope
  obtain ⟨rawId, rest, rfl, id, below⟩ := takes_cons fromId
  refine ⟨scope, rawId, rest, ⟨path, hs, ?_, ?_⟩, fun file => ?_⟩
  · simpa using ⟨by simpa [Part.takes] using id, named_of_takes below texts⟩
  · obtain ⟨more, rfl⟩ := List.head?_eq_some_iff.mp head
    cases first with
    | param => exact absurd rfl text
    | lit name =>
        obtain ⟨others, rfl, -⟩ := takes_lit below
        exact ⟨name, others, rfl, fun same => other (by rw [same])⟩
  · obtain rfl : parts = [.lit "items", .param, .lit "file"] :=
      libraryTails_file _ tail m member file
    obtain ⟨_, rfl, keyed⟩ := takes_lit below
    obtain ⟨key, _, rfl, -, last⟩ := takes_cons keyed
    obtain ⟨more, rfl, nothing⟩ := takes_lit last
    cases more with
    | nil => exact ⟨key, rfl⟩
    | cons => simp [takes] at nothing

end Xotero
