import Xotero.Guarantees.Paging

/-!
The arithmetic of a page. The start of a query is any `i64` that is not negative,
and the sum of it and the limit wraps around close to the greatest one: the end
test then takes a page far past the end for one with rows to come, and its link
leads backwards.
-/

namespace Xotero

/-- The limit that the parameters name. -/
def Params.pageLimit (params : Params) : Int :=
  match (params.get "limit").bind parseI64 with
  | some n => if 1 ≤ n then min n maxLimit else defaultLimit
  | none => defaultLimit

/-- A start parameter, if there is one that is a number, has room for a page after it. -/
def Params.StartFits (params : Params) : Prop :=
  ∀ start, (params.get "start").bind parseI64 = some start → start ≤ 2 ^ 63 - 1 - params.pageLimit

/-- If `item_listing` answers the request, the sum of start and limit that it computes is
an `i64`; and a link asks for a later start. -/
structure ItemsRoute.Advances (front : Frontend) (L : LibraryId) (notes : Bool) (path : String)
    (raw : Option String) (route : ItemsRoute) : Prop where
  sum : route.Lists (front.urlencoded.parse raw) →
    (inI64 ((route.query (front.urlencoded.parse raw)).start +
      (route.query (front.urlencoded.parse raw)).limit)).isSome
  later : ∀ d d' response link, (route.get front L notes path raw).run d = some (d', response) →
    response.link = some link → ∃ next raw', link = nextLink front path raw next ∧
      (route.query (front.urlencoded.parse raw)).start < next ∧
      (route.site front L notes path d).follow link = some raw' ∧
      (route.query (front.urlencoded.parse raw')).start = next

theorem inI64_eq_some {n m : Int} (h : inI64 n = some m) : n = m ∧ n < 2 ^ 63 := by
  unfold inI64 at h
  split at h
  · rename_i inside
    exact ⟨Option.some.inj h, inside.2⟩
  · cases h

theorem lt_of_parseI64 {s : String} {n : Int} (parsed : parseI64 s = some n) : n < 2 ^ 63 := by
  have bound {m : Option Nat} {f : Nat → Int} (read : (m.bind fun k => inI64 (f k)) = some n) :
      n < 2 ^ 63 := by
    obtain ⟨k, -, inside⟩ := Option.bind_eq_some_iff.mp read
    obtain ⟨rfl, small⟩ := inI64_eq_some inside
    exact small
  unfold parseI64 at parsed
  split at parsed <;> exact bound parsed

/-- The sum of two `i64` that is past the greatest one is negative. -/
theorem addI64_neg {a b : Int} (wraps : 2 ^ 63 ≤ a + b) (small : a + b < 2 ^ 64) :
    addI64 a b < 0 := by
  rw [addI64, Int.bmod_def]
  split <;> omega

namespace Params

theorem limit_fromParams (params : Params) : (ItemQuery.fromParams params).limit =
    params.pageLimit := by
  simp only [ItemQuery.fromParams, pageLimit]
  rcases (params.get "limit").bind parseI64 with _ | n
  · rfl
  · by_cases positive : 1 ≤ n <;> simp [Option.filter, positive]

theorem start_fromParams {params : Params} {start : Int}
    (parsed : (params.get "start").bind parseI64 = some start) :
    (ItemQuery.fromParams params).start = if 0 ≤ start then start else 0 := by
  by_cases nonneg : 0 ≤ start <;> simp [ItemQuery.fromParams, parsed, Option.filter, nonneg]

theorem start_fromParams_of_none {params : Params}
    (missing : (params.get "start").bind parseI64 = none) :
    (ItemQuery.fromParams params).start = 0 := by
  simp [ItemQuery.fromParams, missing]

theorem start_fromParams_lt (params : Params) : (ItemQuery.fromParams params).start < 2 ^ 63 := by
  rcases parsed : (params.get "start").bind parseI64 with _ | start
  · rw [start_fromParams_of_none parsed]
    decide
  · obtain ⟨s, -, read⟩ := Option.bind_eq_some_iff.mp parsed
    have small := lt_of_parseI64 read
    rw [start_fromParams parsed]
    split <;> omega

/-- Only a start without room for a page takes the sum out of range. -/
theorem startFits_iff (params : Params) : params.StartFits ↔
    (ItemQuery.fromParams params).start + (ItemQuery.fromParams params).limit < 2 ^ 63 := by
  have window := ItemQuery.window_fromParams params
  rw [maxLimit, limit_fromParams] at window
  obtain ⟨positive, most, -⟩ := window
  rw [limit_fromParams]
  constructor
  · intro fits
    rcases parsed : (params.get "start").bind parseI64 with _ | start
    · rw [start_fromParams_of_none parsed]
      omega
    · have room := fits start parsed
      rw [start_fromParams parsed]
      split <;> omega
  · intro small start parsed
    rw [start_fromParams parsed] at small
    split at small <;> omega

end Params

section Links
variable {front : Frontend} {L : LibraryId} {notes : Bool} {path : String} {raw : Option String}

/-- Only a page has a link. -/
theorem ends_get_link (route : ItemsRoute) :
    (route.get front L notes path raw).Ends fun r => r.link.isSome → r.totalResults.isSome := by
  have queried (q : ItemQuery) : (Handlers.itemQuery front L notes path raw q).Ends fun r =>
      r.link.isSome → r.totalResults.isSome := by
    have keys : (Handlers.itemKeysResponse front L notes (front.urlencoded.parse raw) q).Ends
        fun r => ∀ response, r = some response → response.link = none := by
      unfold Handlers.itemKeysResponse
      split
      · exact fun _ same => nomatch same
      · refine Txn.ends_bind (Txn.ends_true _) fun _ _ => ?_
        refine Txn.ends_bind (Txn.ends_true _) fun _ _ response same => ?_
        obtain rfl := Option.some.inj same
        rfl
    refine Txn.ends_bind keys fun r ends => ?_
    cases r with
    | none =>
        exact Txn.ends_bind (Txn.ends_true _) fun _ _ =>
          Txn.ends_bind (Txn.ends_true _) fun _ _ _ => rfl
    | some response =>
        intro link
        rw [ends response rfl] at link
        cases link
  have searched (top : Bool) : (Handlers.itemsWith front L notes path raw top).Ends fun r =>
      r.link.isSome → r.totalResults.isSome := by
    refine Txn.ends_bind (Txn.ends_true _) fun r _ => ?_
    cases r with
    | none => exact queried _
    | some response => exact fun link => nomatch link
  cases route with
  | items => exact searched false
  | top => exact searched true
  | trash | collection | collectionTop => exact queried _

/-- A link is to the wrapped sum, of a page that this sum places before the end. -/
theorem link_of_run {route : ItemsRoute} {d d' : Database} {response : ItemsResponse}
    {link : String} (answered : (route.get front L notes path raw).run d = some (d', response))
    (linked : response.link = some link) :
    link = nextLink front path raw (addI64 (route.query (front.urlencoded.parse raw)).start
      (route.query (front.urlencoded.parse raw)).limit) := by
  have total := Txn.ends_of_run (ends_get_link route) answered (by rw [linked]; rfl)
  have lists := Txn.ends_of_run (ends_get route) answered total
  rw [get_of_lists lists, itemListing_run] at answered
  split at answered
  · obtain ⟨row, -, same⟩ := Option.map_eq_some_iff.mp answered
    obtain rfl := (Prod.mk.inj same).2
    simp only [Database.page] at linked
    split at linked
    · exact (Option.some.inj linked).symm
    · cases linked
  · cases answered

/-- Every page behind the last start that fits has a link to the first page. -/
theorem link_of_not_fits {route : ItemsRoute} {d d' : Database} {response : ItemsResponse}
    (answered : (route.get front L notes path raw).run d = some (d', response))
    (page : response.totalResults.isSome)
    (wraps : ¬ (front.urlencoded.parse raw).StartFits) :
    ∃ next, response.link = some (nextLink front path raw next) ∧ next < 0 := by
  have lists := Txn.ends_of_run (ends_get route) answered page
  rw [Params.startFits_iff, ← route.start_query, ← route.limit_query] at wraps
  have window := ItemQuery.window_fromParams (front.urlencoded.parse raw)
  rw [← route.limit_query, maxLimit] at window
  obtain ⟨-, most, -⟩ := window
  rw [get_of_lists lists, itemListing_run] at answered
  split at answered
  · obtain ⟨row, -, same⟩ := Option.map_eq_some_iff.mp answered
    obtain rfl := (Prod.mk.inj same).2
    have before_end : addI64 (route.query (front.urlencoded.parse raw)).start
        (route.query (front.urlencoded.parse raw)).limit < 0 := by
      have small := Params.start_fromParams_lt (front.urlencoded.parse raw)
      rw [← route.start_query] at small
      exact addI64_neg (by omega) (by omega)
    refine ⟨_, if_pos (before_end.trans_le ?_), before_end⟩
    exact Int.natCast_nonneg _
  · cases answered

end Links

/-- The sum fits and the links lead on, for the queries whose start has room for a
page after it, for those that never come to a page, and for no others. -/
theorem advances_iff (front : Frontend) (roundTrips : front.urlencoded.RoundTrips)
    (route : ItemsRoute) (L : LibraryId) (notes : Bool) (path : String) (raw : Option String) :
    route.Advances front L notes path raw ↔
      (route.Lists (front.urlencoded.parse raw) → (front.urlencoded.parse raw).StartFits) := by
  have window := ItemQuery.window_fromParams (front.urlencoded.parse raw)
  rw [maxLimit] at window
  obtain ⟨positive, -, nonneg⟩ := window
  rw [Params.startFits_iff]
  rw [← route.start_query] at nonneg ⊢
  rw [← route.limit_query] at positive ⊢
  constructor
  · intro advances lists
    obtain ⟨n, inside⟩ := Option.isSome_iff_exists.mp (advances.sum lists)
    exact (inI64_eq_some inside).2
  · intro fits
    refine ⟨fun lists => Option.isSome_iff_exists.mpr ⟨_, if_pos ⟨by omega, fits lists⟩⟩, ?_⟩
    intro d d' response link answered linked
    have target := link_of_run answered linked
    have total := Txn.ends_of_run (ends_get_link route) answered (by rw [linked]; rfl)
    have lists := Txn.ends_of_run (ends_get route) answered total
    have small := fits lists
    obtain ⟨offset, begins⟩ := Int.eq_ofNat_of_zero_le nonneg
    obtain ⟨size, most⟩ := Int.eq_ofNat_of_zero_le (Int.le_trans Int.one_nonneg positive)
    rw [begins, most] at small
    have asks : route.Asks front (front.urlencoded.parse raw) (offset + size) offset raw :=
      ⟨lists, by rw [← begins], by omega⟩
    obtain ⟨raw', followed, asks'⟩ :=
      asks_next L notes path d roundTrips asks (le_refl (offset + size)) (by omega)
    rw [begins, most, addI64_eq (by omega) small] at target
    refine ⟨(offset + size : Nat), raw', target, by omega, ?_, by rw [asks'.query]⟩
    rw [target]
    exact followed

/-- The last page there is room for. -/
theorem advances_iff_last : ∃ raw,
    formFrontend.urlencoded.parse raw = [("start", "9223372036854775797"), ("limit", "10")] ∧
    ItemsRoute.items.Lists (formFrontend.urlencoded.parse raw) ∧
    ItemsRoute.items.Advances formFrontend newLibrary true "/users/1/items" raw := by
  have parsed := formFrontend_parse [("start", "9223372036854775797"), ("limit", "10")]
  generalize some (FormUrlencoded.serialize
    [("start", "9223372036854775797"), ("limit", "10")]) = raw at parsed
  refine ⟨raw, parsed, ?_, (advances_iff formFrontend formFrontend_serializes .items newLibrary
    true "/users/1/items" raw).mpr fun _ => ?_⟩
  · rw [parsed]
    exact ⟨by simp [ItemsRoute.SyncRead, Params.get], by decide⟩
  · rw [parsed, Params.startFits_iff]
    decide

/-- The greatest start there is: an empty page links to the start -2^63 + 24. -/
theorem last_start_links_back : ∃ raw d' response,
    formFrontend.urlencoded.parse raw = [("start", "9223372036854775807")] ∧
    (ItemsRoute.items.get formFrontend newLibrary true "/users/1/items" raw).run bookDatabase =
      some (d', response) ∧
    response.link =
      some (nextLink formFrontend "/users/1/items" raw (-9223372036854775784)) ∧
    ¬ ItemsRoute.items.Advances formFrontend newLibrary true "/users/1/items" raw := by
  have parsed := formFrontend_parse [("start", "9223372036854775807")]
  generalize some (FormUrlencoded.serialize [("start", "9223372036854775807")]) = raw at parsed
  have lists : ItemsRoute.items.Lists (formFrontend.urlencoded.parse raw) := by
    rw [parsed]
    exact ⟨by simp [ItemsRoute.SyncRead, Params.get], by decide⟩
  have answered := @itemListing_run formFrontend newLibrary true "/users/1/items" raw
    (ItemsRoute.items.query [("start", "9223372036854775807")]) bookDatabase
  rw [if_pos (by decide), ← parsed, ← get_of_lists lists] at answered
  refine ⟨raw, _, _, parsed, answered, ?_, fun advances => ?_⟩
  · rw [parsed]
    rfl
  · have inside := advances.sum lists
    rw [parsed] at inside
    exact absurd inside (by decide)

end Xotero
