import Xotero.Store.Library

/-!
The listings a sync reads: versions above a cursor, and the deletion log.
-/

namespace Xotero

def versionMap (rows : List (String × Int)) : Value :=
  .object (rows.foldl (fun map row => Members.insert row.1 (.ofInt row.2) map) [])

def versions (L : LibraryId) (kind : ObjectKind) (since : Int) (includeNotes : Bool) :
    Txn Db Value := do
  return versionMap (← execute (.versions L kind since includeNotes))

def topVersions (L : LibraryId) (since : Int) (includeNotes : Bool) : Txn Db Value := do
  return versionMap (← execute (.topVersions L since includeNotes))

def fulltextVersions (L : LibraryId) (since : Int) : Txn Db Value := do
  return versionMap (← execute (.fulltextVersions L since))

def ofKind (kind : DeletionKind) (rows : List (DeletionKind × String)) : List String :=
  (rows.filter fun row => row.1 = kind).map fun row => row.2

/-- The type of a deleted tag is not known any more, so it is reported as 0. -/
def deletedTag (tag : String) : Value := .object [("tag", .string tag), ("type", .ofInt 0)]

def deleted (L : LibraryId) (since : Int) : Txn Db Value := do
  let rows ← execute (.deletedSince L since)
  return .object [
    ("collections", .array ((ofKind (.object .collection) rows).map .string)),
    ("searches", .array ((ofKind (.object .search) rows).map .string)),
    ("items", .array ((ofKind (.object .item) rows).map .string)),
    ("settings", .array ((ofKind .setting rows).map .string)),
    ("tags", .array ((ofKind .tag rows).map deletedTag))]

/-! What a map of versions holds -/

/-- Folding rows into a map by name; a later row of a name replaces an earlier. -/
theorem get_foldl_insert {ρ : Type} (value : ρ → Value) (rows : List (String × ρ))
    (map : Members) (name : String)
    (functional : ∀ r r', (name, r) ∈ rows → (name, r') ∈ rows → r = r') :
    Members.get (rows.foldl (fun map row => Members.insert row.1 (value row.2) map) map) name =
      ((rows.find? fun row => row.1 = name).map fun row => value row.2).or (map.get name) := by
  induction rows generalizing map with
  | nil => rfl
  | cons row rows ih =>
      obtain ⟨n, r⟩ := row
      rw [List.foldl_cons, ih _ fun r r' h h' =>
        functional r r' (List.mem_cons_of_mem _ h) (List.mem_cons_of_mem _ h')]
      rw [Members.get_insert]
      by_cases hn : n = name
      · subst hn
        cases hf : rows.find? fun row => row.1 = n with
        | none => simp
        | some row' =>
            have same : row'.1 = n := by simpa using List.find?_some hf
            have : r = row'.2 := functional r row'.2 (by simp)
              (List.mem_cons_of_mem _ (same ▸ List.mem_of_find?_eq_some hf))
            simp [this]
      · simp [hn]

/-- The entries of a map made of rows, when no name has two rows. -/
theorem get_foldl_insert_nil {ρ : Type} (value : ρ → Value) (rows : List (String × ρ))
    (name : String) (functional : ∀ r r', (name, r) ∈ rows → (name, r') ∈ rows → r = r')
    (v : Value) :
    Members.get (rows.foldl (fun map row => Members.insert row.1 (value row.2) map) []) name
      = some v ↔ ∃ r, (name, r) ∈ rows ∧ v = value r := by
  rw [get_foldl_insert value rows [] name functional]
  constructor
  · intro h
    cases hf : rows.find? fun row => row.1 = name with
    | none => simp [hf, Members.get] at h
    | some row =>
        have same : row.1 = name := by simpa using List.find?_some hf
        refine ⟨row.2, same ▸ List.mem_of_find?_eq_some hf, ?_⟩
        simp only [hf, Option.map_some, Option.some_or] at h
        exact (Option.some.inj h).symm
  · rintro ⟨r, hr, rfl⟩
    cases hf : rows.find? fun row => row.1 = name with
    | none => simpa using List.find?_eq_none.mp hf _ hr
    | some row =>
        have same : row.1 = name := by simpa using List.find?_some hf
        have : row.2 = r := functional _ _ (same ▸ List.mem_of_find?_eq_some hf) hr
        simp [this]

theorem versionMap_get {rows : List (String × Int)} {name : String}
    (functional : ∀ n n', (name, n) ∈ rows → (name, n') ∈ rows → n = n') (v : Value) :
    (versionMap rows).get name = some v ↔ ∃ n, (name, n) ∈ rows ∧ v = .ofInt n :=
  get_foldl_insert_nil .ofInt rows name functional v

end Xotero
