import Xotero.Domain

/-!
The item query of a listing, as the query string gives it.
-/

namespace Xotero

/-- The non-empty alternatives of a `||` list. -/
def alternatives (value : String) : List String :=
  ((splitBars value.toList).map fun part => trim (String.ofList part)).filter (· ≠ "")

/-- An item matches when its type is among `include`, if there are any, and not
among `exclude`. -/
structure TypeFilter where
  included : List String
  excluded : List String
  deriving DecidableEq

def TypeFilter.add (filter : TypeFilter) (token : String) : TypeFilter :=
  match token.toList with
  | '-' :: neg => { filter with excluded := filter.excluded ++ [trim (String.ofList neg)] }
  | _ => { filter with included := filter.included ++ [token] }

def TypeFilter.parse (value : Option String) : TypeFilter :=
  match value with
  | none => ⟨[], []⟩
  | some value => (alternatives value).foldl TypeFilter.add ⟨[], []⟩

inductive QMode where
  | titleCreatorYear
  | everything
  deriving DecidableEq

def QMode.parse : Option String → QMode
  | some "everything" => .everything
  | _ => .titleCreatorYear

inductive SortKey where
  | dateModified
  | dateAdded
  | title
  | creator
  | date
  | itemType
  deriving DecidableEq

def SortKey.parse : Option String → SortKey
  | some "dateAdded" => .dateAdded
  | some "title" => .title
  | some "creator" => .creator
  | some "date" => .date
  | some "itemType" => .itemType
  | _ => .dateModified

inductive Direction where
  | asc
  | desc
  deriving DecidableEq

def Direction.parse : Option String → Direction
  | some "asc" => .asc
  | _ => .desc

def defaultLimit : Int := 25

def maxLimit : Int := 100

structure ItemQuery where
  q : Option String
  qmode : QMode
  itemType : TypeFilter
  tags : List (List String)
  sort : SortKey
  direction : Direction
  limit : Int
  start : Int
  includeTrashed : Bool
  top : Bool
  onlyTrashed : Bool
  collection : Option String
  deriving DecidableEq

/-- A limit below 1 falls back to the default, and a start below 0 to 0. -/
def ItemQuery.fromParams (params : Params) : ItemQuery where
  q := ((params.get "q").map trim).filter (· ≠ "")
  qmode := .parse (params.get "qmode")
  itemType := .parse (params.get "itemType")
  tags := ((params.all "tag").map alternatives).filter (· ≠ [])
  sort := .parse (params.get "sort")
  direction := .parse (params.get "direction")
  limit := ((((params.get "limit").bind parseI64).filter (1 ≤ ·)).map (min · maxLimit)).getD
    defaultLimit
  start := (((params.get "start").bind parseI64).filter (0 ≤ ·)).getD 0
  includeTrashed := params.get "includeTrashed" = some "1" ||
    params.get "includeTrashed" = some "true"
  top := false
  onlyTrashed := false
  collection := none

/-- The page window is never empty and holds at most 100 rows. -/
theorem ItemQuery.window_fromParams (params : Params) :
    1 ≤ (fromParams params).limit ∧ (fromParams params).limit ≤ maxLimit ∧
      0 ≤ (fromParams params).start := by
  simp only [fromParams, maxLimit, defaultLimit]
  refine ⟨?_, ?_, ?_⟩
  all_goals
    cases h : Option.filter _ _ with
    | none => simp
    | some n =>
        have positive := (Option.filter_eq_some_iff.mp h).2
        simp only [Option.map_some, Option.getD_some, decide_eq_true_eq] at positive ⊢
        omega

/-! ### From another start -/

theorem parseDigits_repr (n : Nat) : parseDigits (Nat.repr n).toList = some n := by
  have digits : ∀ c ∈ Nat.toDigits 10 n, c.isDigit = true := fun c mem =>
    Nat.isDigit_of_mem_toDigits (by decide) (by decide) mem
  rw [Nat.toList_repr, parseDigits,
    if_pos ⟨Nat.toDigits_ne_nil, List.all_eq_true.mpr digits⟩]
  exact congrArg some (Nat.ofDigitChars_toDigits (by decide) (by decide))

theorem parseI64_toString {n : Nat} (small : n < 2 ^ 63) :
    parseI64 (toString (n : Int)) = some (n : Int) := by
  have unsigned : parseI64 (Nat.repr n) =
      (parseDigits (Nat.repr n).toList).bind fun n => inI64 n := by
    have digit : ∀ c ∈ (Nat.repr n).toList, c.isDigit = true := by
      rw [Nat.toList_repr]
      exact fun c mem => Nat.isDigit_of_mem_toDigits (by decide) (by decide) mem
    unfold parseI64
    split
    · rename_i minus
      exact absurd (digit '-' (by simp [minus])) (by decide)
    · rename_i plus
      exact absurd (digit '+' (by simp [plus])) (by decide)
    · rfl
  have written : toString (n : Int) = Nat.repr n := rfl
  rw [written, unsigned, parseDigits_repr, Option.bind_some, inI64]
  exact if_pos ⟨by omega, by omega⟩

/-- The parameters of a request for the same from `start` on. -/
def Params.restart (params : Params) (start : String) : Params :=
  params.filter (fun p => p.1 ≠ "start") ++ [("start", start)]

theorem Params.get_restart_start (params : Params) (start : String) :
    (params.restart start).get "start" = some start := by
  have absent : (params.filter fun p => p.1 ≠ "start").find? (fun p => p.1 = "start") = none := by
    simp
  rw [get, restart, List.find?_append, absent]
  rfl

theorem Params.get_restart (params : Params) (start : String) {name : String}
    (other : name ≠ "start") : (params.restart start).get name = params.get name := by
  have kept : (params.filter fun p => p.1 ≠ "start").find? (fun p => p.1 = name) =
      params.find? fun p => p.1 = name := by
    rw [List.find?_filter]
    congr 1
    funext p
    by_cases same : p.1 = name <;> simp [same, other]
  rw [get, restart, List.find?_append, kept, List.find?_cons_of_neg (by simpa using other.symm),
    List.find?_nil, Option.or_none, get]

theorem Params.all_restart (params : Params) (start : String) {name : String}
    (other : name ≠ "start") : (params.restart start).all name = params.all name := by
  have kept : (params.filter fun p => p.1 ≠ "start").filter (fun p => p.1 = name) =
      params.filter fun p => p.1 = name := by
    rw [List.filter_filter]
    refine List.filter_congr fun p _ => ?_
    by_cases same : p.1 = name <;> simp [same, other]
  rw [all, restart, List.filter_append, kept, List.filter_cons_of_neg (by simpa using other.symm),
    List.filter_nil, List.append_nil, all]

/-- The query from another start, otherwise the same. -/
theorem ItemQuery.fromParams_restart (params : Params) {start : Nat} (small : start < 2 ^ 63) :
    fromParams (params.restart (toString (start : Int))) =
      { fromParams params with start := start } := by
  have window : (some (start : Int)).filter (0 ≤ ·) = some (start : Int) :=
    Option.filter_some_pos (by simp)
  simp (disch := decide) only [fromParams, Params.get_restart, Params.all_restart,
    Params.get_restart_start, Option.bind_some, parseI64_toString small, window,
    Option.getD_some]

end Xotero
