import Mathlib.Algebra.Group.Int.Defs
import Mathlib.Data.List.Basic
import Mathlib.Tactic.Tauto

/-!
JSON values as serde_json holds them with `preserve_order`: an object keeps its
members in insertion order, and `insert` replaces a member in place or appends
it. A lookup finds the first member of a name; the parser never builds two.
-/

namespace Xotero

/-- An integer, or any other number by the decimal text PostgreSQL gives it. -/
inductive Number where
  | int (n : Int)
  | float (text : String)
  deriving DecidableEq, Repr

inductive Value where
  | null
  | bool (b : Bool)
  | number (n : Number)
  | string (s : String)
  | array (values : List Value)
  | object (members : List (String × Value))
  deriving Repr

/-- serde_json's `Map`. -/
abbrev Members := List (String × Value)

namespace Members

def get : Members → String → Option Value
  | [], _ => none
  | (n, v) :: ms, name => if n = name then some v else get ms name

def insert (name : String) (value : Value) : Members → Members
  | [] => [(name, value)]
  | (n, v) :: ms =>
      if n = name then (name, value) :: ms else (n, v) :: insert name value ms

theorem get_insert (name : String) (value : Value) (ms : Members) (n : String) :
    (ms.insert name value).get n = if name = n then some value else ms.get n := by
  induction ms with
  | nil => rfl
  | cons m ms ih =>
      obtain ⟨m, v⟩ := m
      by_cases hm : m = name
      · subst hm
        by_cases hn : m = n <;> simp [insert, get, hn]
      · by_cases hn : m = n
        · subst hn
          simp [insert, get, hm, Ne.symm hm]
        · simp [insert, get, hm, hn, ih]

theorem get_append (ms ms' : Members) (n : String) :
    get (ms ++ ms') n = (ms.get n).or (ms'.get n) := by
  induction ms with
  | nil => rfl
  | cons m ms ih =>
      by_cases h : m.1 = n
      · simp [get, h]
      · simp [get, h, ih]

theorem get_filter (p : String → Bool) (ms : Members) (n : String) :
    get (ms.filter fun m => p m.1) n = if p n then ms.get n else none := by
  induction ms with
  | nil => cases p n <;> rfl
  | cons m ms ih =>
      obtain ⟨m, v⟩ := m
      by_cases hm : m = n
      · subst hm
        cases hp : p m with
        | true => simp [hp, get]
        | false => simpa [hp, get] using ih
      · cases hp : p m with
        | true => simpa [hp, get, hm] using ih
        | false => simpa [hp, get, hm] using ih

end Members

theorem insert_of_absent {name : String} {value : Value} {ms : Members}
    (absent : name ∉ ms.map Prod.fst) : ms.insert name value = ms ++ [(name, value)] := by
  induction ms with
  | nil => rfl
  | cons m ms ih =>
      obtain ⟨n, v⟩ := m
      simp only [List.map_cons, List.mem_cons, not_or] at absent
      rw [Members.insert, if_neg (Ne.symm absent.1), ih absent.2, List.cons_append]

theorem names_insert (name : String) (v : Value) (ms : Members) (n : String) :
    n ∈ (Members.insert name v ms).map Prod.fst ↔ n = name ∨ n ∈ ms.map Prod.fst := by
  induction ms with
  | nil => simp [Members.insert]
  | cons m ms ih =>
      obtain ⟨m, w⟩ := m
      by_cases hm : m = name
      · subst hm
        simp [Members.insert]
      · simp only [Members.insert, if_neg hm, List.map_cons, List.mem_cons, ih]
        tauto

theorem mem_of_get {ms : Members} {name : String} {v : Value} (h : ms.get name = some v) :
    (name, v) ∈ ms := by
  induction ms with
  | nil => cases h
  | cons m ms ih =>
      obtain ⟨n, w⟩ := m
      rw [Members.get] at h
      split at h
      · rename_i same
        obtain rfl := Option.some.inj h
        exact same ▸ List.mem_cons_self
      · exact List.mem_cons_of_mem _ (ih h)

theorem mem_names_of_get {ms : Members} {name : String} (has : (Members.get ms name).isSome) :
    name ∈ ms.map Prod.fst := by
  obtain ⟨v, got⟩ := Option.isSome_iff_exists.mp has
  exact List.mem_map_of_mem (mem_of_get got)

/-- Each name once. -/
def Members.Once (ms : Members) : Prop := (ms.map Prod.fst).Nodup

instance (ms : Members) : Decidable ms.Once := inferInstanceAs (Decidable (List.Nodup _))

theorem Members.Once.get_eq_some {ms : Members} (once : ms.Once) {name : String} {v : Value} :
    ms.get name = some v ↔ (name, v) ∈ ms := by
  refine ⟨mem_of_get, fun mem => ?_⟩
  induction ms with
  | nil => cases mem
  | cons m ms ih =>
      obtain ⟨absent, once⟩ := List.nodup_cons.mp once
      rcases List.mem_cons.mp mem with rfl | later
      · simp [get]
      · have ne : m.1 ≠ name := fun same => absent (same ▸ List.mem_map_of_mem later)
        rw [get, if_neg ne, ih once later]

theorem Members.Once.insert {ms : Members} (once : ms.Once) (name : String) (v : Value) :
    Members.Once (ms.insert name v) := by
  induction ms with
  | nil => exact List.pairwise_singleton _ _
  | cons m ms ih =>
      obtain ⟨n, w⟩ := m
      obtain ⟨absent, rest⟩ := List.nodup_cons.mp once
      rw [Members.insert]
      split
      · rename_i same
        exact List.nodup_cons.mpr ⟨same ▸ absent, rest⟩
      · rename_i other
        refine List.nodup_cons.mpr ⟨fun mem => ?_, ih rest⟩
        rcases (names_insert name v ms n).mp mem with same | old
        · exact other same
        · exact absent old

theorem Members.Once.insertAll {ms : Members} (once : ms.Once) (fields : Members) :
    Members.Once (fields.foldl (fun base field => Members.insert field.1 field.2 base) ms) := by
  induction fields generalizing ms with
  | nil => exact once
  | cons field fields ih => exact ih (once.insert field.1 field.2)

namespace Value

def ofInt (n : Int) : Value := .number (.int n)

def get : Value → String → Option Value
  | .object ms, name => Members.get ms name
  | _, _ => none

def asStr : Value → Option String
  | .string s => some s
  | _ => none

def asObject : Value → Option Members
  | .object ms => some ms
  | _ => none

/-- `as_i64` -/
def asInt : Value → Option Int
  | .number (.int n) => if -2 ^ 63 ≤ n ∧ n < 2 ^ 63 then some n else none
  | _ => none

@[simp] theorem get_object (ms : Members) (name : String) :
    (Value.object ms).get name = ms.get name := rfl

@[simp] theorem asStr_string (s : String) : (Value.string s).asStr = some s := rfl

@[simp] theorem asStr_eq_some {v : Value} {s : String} : v.asStr = some s ↔ v = .string s := by
  cases v <;> simp [asStr]

def strings : Value → List String
  | .array vs => vs.filterMap asStr
  | _ => []

theorem strings_array (names : List String) :
    (Value.array (names.map .string)).strings = names := by
  simp only [strings]
  induction names with
  | nil => rfl
  | cons n names ih => simpa using ih

end Value

def isStoredFileAttachment (value : Value) : Bool :=
  (value.get "itemType").bind Value.asStr = some "attachment" &&
    ((value.get "linkMode").bind Value.asStr = some "imported_file" ||
      (value.get "linkMode").bind Value.asStr = some "imported_url")

end Xotero
