import Mathlib.Data.List.AList
import Mathlib.Data.List.Sort

/-!
Tables with a primary key, over Mathlib's association lists: at most one row
per key is a property of the type. A query returns the rows in storage order,
which no result here depends on. `part` is the fragment of a table that a
predicate on keys selects; it is what a lock on a parent row protects.
-/

abbrev Table (κ ρ : Type) := AList fun _ : κ => ρ

namespace Table
variable {κ ρ : Type} [DecidableEq κ]

def find? (t : Table κ ρ) (k : κ) : Option ρ := t.lookup k

def put (t : Table κ ρ) (k : κ) (r : ρ) : Table κ ρ := t.insert k r

def erase (t : Table κ ρ) (k : κ) : Table κ ρ := AList.erase k t

def rows (t : Table κ ρ) : List (κ × ρ) := t.entries.map fun e => (e.1, e.2)

/-- `select … where p` -/
def select (t : Table κ ρ) (p : κ → ρ → Bool) : List (κ × ρ) :=
  t.rows.filter fun e => p e.1 e.2

@[simp] theorem find?_empty (k : κ) : find? (∅ : Table κ ρ) k = none :=
  AList.lookup_empty k

@[simp] theorem find?_put_self (t : Table κ ρ) (k : κ) (r : ρ) :
    (t.put k r).find? k = some r :=
  AList.lookup_insert t

theorem find?_put_ne (t : Table κ ρ) {k k' : κ} (r : ρ) (h : k' ≠ k) :
    (t.put k r).find? k' = t.find? k' :=
  AList.lookup_insert_ne h

theorem find?_put (t : Table κ ρ) (k k' : κ) (r : ρ) :
    (t.put k r).find? k' = if k' = k then some r else t.find? k' := by
  by_cases h : k' = k
  · simp [h]
  · simp [h, find?_put_ne t r h]

@[simp] theorem find?_erase_self (t : Table κ ρ) (k : κ) : (t.erase k).find? k = none :=
  AList.lookup_erase k t

theorem find?_erase_ne (t : Table κ ρ) {k k' : κ} (h : k' ≠ k) :
    (t.erase k).find? k' = t.find? k' :=
  AList.lookup_erase_ne h

theorem find?_erase (t : Table κ ρ) (k k' : κ) :
    (t.erase k).find? k' = if k' = k then none else t.find? k' := by
  by_cases h : k' = k
  · simp [h]
  · simp [h, find?_erase_ne t h]

/-- Store a row, or remove the key when there is none. -/
def set (t : Table κ ρ) (k : κ) : Option ρ → Table κ ρ
  | some r => t.put k r
  | none => t.erase k

theorem find?_set (t : Table κ ρ) (k k' : κ) (r : Option ρ) :
    (t.set k r).find? k' = if k' = k then r else t.find? k' := by
  cases r with
  | some r => exact find?_put t k k' r
  | none => exact find?_erase t k k'

/-- The last row stored is the one that counts. -/
theorem set_put (t : Table κ ρ) (k : κ) (r : ρ) (r' : Option ρ) :
    (t.put k r).set k r' = t.set k r' := by
  cases r' with
  | some r' => exact AList.insert_insert t
  | none =>
      refine AList.ext ?_
      show List.kerase k (List.kinsert k r t.entries) = List.kerase k t.entries
      exact List.kerase_cons_eq rfl

/-- Removing what is not there. -/
theorem erase_of_absent {t : Table κ ρ} {k : κ} (absent : t.find? k = none) :
    t.erase k = t :=
  AList.ext (List.kerase_of_notMem_keys (AList.lookup_eq_none.mp absent))

theorem mem_rows {t : Table κ ρ} {k : κ} {r : ρ} :
    (k, r) ∈ t.rows ↔ t.find? k = some r := by
  rw [find?, ← Option.mem_def, AList.mem_lookup_iff]
  simp [rows]

theorem mem_select {t : Table κ ρ} {p : κ → ρ → Bool} {k : κ} {r : ρ} :
    (k, r) ∈ t.select p ↔ t.find? k = some r ∧ p k r = true := by
  simp [select, mem_rows]

theorem mem_keys_select {t : Table κ ρ} {p : κ → ρ → Bool} {k : κ} :
    k ∈ (t.select p).map Prod.fst ↔ ∃ r, t.find? k = some r ∧ p k r = true := by
  rw [List.mem_map]
  constructor
  · rintro ⟨e, picked, rfl⟩
    exact ⟨e.2, mem_select.mp picked⟩
  · rintro ⟨r, both⟩
    exact ⟨(k, r), mem_select.mpr both, rfl⟩

theorem rows_functional {t : Table κ ρ} {k : κ} {r r' : ρ} (h : (k, r) ∈ t.rows)
    (h' : (k, r') ∈ t.rows) : r = r' :=
  Option.some.inj ((mem_rows.mp h).symm.trans (mem_rows.mp h'))

/-- Many rows put one after the other, where no key gets two different rows. -/
theorem find?_foldl_put {α : Type} {key : α → κ} {row : α → ρ} {xs : List α}
    (h : ∀ x ∈ xs, ∀ y ∈ xs, key x = key y → row x = row y) (t : Table κ ρ) (k : κ) :
    (xs.foldl (fun t x => t.put (key x) (row x)) t).find? k =
      ((xs.find? fun x => key x = k).map row).or (t.find? k) := by
  induction xs generalizing t with
  | nil => rfl
  | cons x xs ih =>
      rw [List.foldl_cons, ih fun y hy z hz => h y (List.mem_cons_of_mem x hy) z
        (List.mem_cons_of_mem x hz), find?_put]
      by_cases hx : key x = k
      · rw [if_pos hx.symm, List.find?_cons_of_pos (by simpa using hx), Option.map_some,
          Option.some_or]
        cases hf : xs.find? fun x => key x = k with
        | none => rfl
        | some y =>
            have same : key y = k := by simpa using List.find?_some hf
            have := h y (List.mem_cons_of_mem x (List.mem_of_find?_eq_some hf)) x (by simp)
              (same.trans hx.symm)
            simp [this]
      · rw [if_neg (Ne.symm hx), List.find?_cons_of_neg (by simpa using hx)]

/-- Many rows removed one after the other. -/
theorem find?_foldl_erase {α : Type} (key : α → κ) (xs : List α) (t : Table κ ρ) (k : κ) :
    (xs.foldl (fun t x => t.erase (key x)) t).find? k =
      if k ∈ xs.map key then none else t.find? k := by
  induction xs generalizing t with
  | nil => simp
  | cons x xs ih =>
      rw [List.foldl_cons, ih, find?_erase]
      by_cases here : k = key x
      · simp [here]
      · simp [here]

/-- A table without rows. -/
theorem eq_empty {t : Table κ ρ} (absent : ∀ k, t.find? k = none) : t = ∅ := by
  refine AList.ext (List.eq_nil_iff_forall_not_mem.mpr fun e mem => ?_)
  have found : t.find? e.1 = some e.2 := AList.mem_lookup_iff.mpr mem
  rw [absent] at found
  cases found

/-! The part of a table under a predicate on keys -/

def part (t : Table κ ρ) (p : κ → Bool) : List (κ × ρ) := t.rows.filter fun e => p e.1

theorem rows_erase (t : Table κ ρ) (k : κ) :
    (t.erase k).rows = t.rows.filter fun e => e.1 ≠ k := by
  obtain ⟨es, nodup⟩ := t
  change (es.kerase k).map (fun e => (e.1, e.2)) =
    (es.map fun e => (e.1, e.2)).filter fun e => e.1 ≠ k
  induction es with
  | nil => rfl
  | cons e es ih =>
      have tail := List.nodupKeys_of_nodupKeys_cons nodup
      by_cases h : k = e.1
      · subst h
        have absent : ∀ x ∈ es, x.1 ≠ e.1 := fun x hx hxe =>
          (List.notMem_keys_of_nodupKeys_cons nodup) (hxe ▸ List.mem_keys_of_mem hx)
        rw [List.kerase_cons_eq rfl, List.map_cons, List.filter_cons_of_neg (by simp),
          List.filter_eq_self.mpr]
        intro x hx
        obtain ⟨y, hy, rfl⟩ := List.mem_map.mp hx
        simpa using absent y hy
      · rw [List.kerase_cons_ne h, List.map_cons, ih tail, List.map_cons,
          List.filter_cons_of_pos (by simpa using Ne.symm h)]

theorem rows_put (t : Table κ ρ) (k : κ) (r : ρ) :
    (t.put k r).rows = (k, r) :: t.rows.filter fun e => e.1 ≠ k := by
  rw [← rows_erase]
  rfl

theorem forall_put {t : Table κ ρ} {P : κ × ρ → Prop} {k : κ} {r : ρ} (h : ∀ e ∈ t.rows, P e)
    (new : P (k, r)) : ∀ e ∈ (t.put k r).rows, P e := by
  rw [rows_put, List.forall_mem_cons]
  exact ⟨new, fun e mem => h e (List.mem_of_mem_filter mem)⟩

theorem forall_erase {t : Table κ ρ} {P : κ × ρ → Prop} {k : κ} (h : ∀ e ∈ t.rows, P e) :
    ∀ e ∈ (t.erase k).rows, P e := by
  rw [rows_erase]
  exact fun e mem => h e (List.mem_of_mem_filter mem)

theorem part_put (t : Table κ ρ) (p : κ → Bool) (k : κ) (r : ρ) :
    (t.put k r).part p =
      if p k then (k, r) :: (t.part p).filter (fun e => e.1 ≠ k) else t.part p := by
  cases hk : p k with
  | true => simp [part, rows_put, hk, List.filter_filter, Bool.and_comm]
  | false =>
      simp only [part, rows_put, List.filter_cons, hk, List.filter_filter]
      refine List.filter_congr fun e _ => ?_
      by_cases he : e.1 = k <;> simp [he, hk]

theorem part_erase (t : Table κ ρ) (p : κ → Bool) (k : κ) :
    (t.erase k).part p = (t.part p).filter fun e => e.1 ≠ k := by
  simp [part, rows_erase, List.filter_filter, Bool.and_comm]

theorem part_put_of_not (t : Table κ ρ) {p : κ → Bool} {k : κ} (h : p k = false) (r : ρ) :
    (t.put k r).part p = t.part p := by
  simp [part_put, h]

theorem part_erase_of_not (t : Table κ ρ) {p : κ → Bool} {k : κ} (h : p k = false) :
    (t.erase k).part p = t.part p := by
  rw [part_erase, List.filter_eq_self]
  intro e he
  have : p e.1 = true := (List.mem_filter.mp he).2
  by_contra hk
  simp_all

theorem part_set_of_not (t : Table κ ρ) {p : κ → Bool} {k : κ} (h : p k = false)
    (r : Option ρ) : (t.set k r).part p = t.part p := by
  cases r with
  | some r => exact part_put_of_not t h r
  | none => exact part_erase_of_not t h

theorem part_foldl_put {α : Type} {p : κ → Bool} {key : α → κ} (row : α → ρ) (xs : List α)
    (h : ∀ x ∈ xs, p (key x) = false) (t : Table κ ρ) :
    (xs.foldl (fun t x => t.put (key x) (row x)) t).part p = t.part p := by
  induction xs generalizing t with
  | nil => rfl
  | cons x xs ih =>
      rw [List.foldl_cons, ih fun y hy => h y (List.mem_cons_of_mem x hy)]
      exact part_put_of_not t (h x (by simp)) (row x)

theorem part_put_congr {t u : Table κ ρ} {p : κ → Bool} (h : t.part p = u.part p)
    (k : κ) (r : ρ) : (t.put k r).part p = (u.put k r).part p := by
  rw [part_put, part_put, h]

theorem part_erase_congr {t u : Table κ ρ} {p : κ → Bool} (h : t.part p = u.part p)
    (k : κ) : (t.erase k).part p = (u.erase k).part p := by
  rw [part_erase, part_erase, h]

theorem part_set_congr {t u : Table κ ρ} {p : κ → Bool} (h : t.part p = u.part p)
    (k : κ) (r : Option ρ) : (t.set k r).part p = (u.set k r).part p := by
  cases r with
  | some r => exact part_put_congr h k r
  | none => exact part_erase_congr h k

/-- Rows inside the part are found alike in tables with the same part. -/
theorem find?_eq_of_part_eq {t u : Table κ ρ} {p : κ → Bool} (h : t.part p = u.part p)
    {k : κ} (hk : p k = true) : t.find? k = u.find? k := by
  have mem (s : Table κ ρ) (r : ρ) : s.find? k = some r ↔ (k, r) ∈ s.part p := by
    simp [part, mem_rows, hk]
  apply Option.ext
  intro r
  rw [mem, mem, h]

omit [DecidableEq κ] in
theorem select_eq_of_part_eq {t u : Table κ ρ} {p : κ → Bool} (h : t.part p = u.part p)
    {q : κ → ρ → Bool} (hq : ∀ k r, q k r = true → p k = true) :
    t.select q = u.select q := by
  have inside (s : Table κ ρ) : s.select q = (s.part p).filter fun e => q e.1 e.2 := by
    simp only [select, part, List.filter_filter]
    refine List.filter_congr fun e _ => ?_
    cases he : q e.1 e.2 with
    | true => simp [hq e.1 e.2 he]
    | false => rfl
  rw [inside, inside, h]

/-! Answers that do not depend on the storage order -/

omit [DecidableEq κ] in
theorem nodup_keys (t : Table κ ρ) : (t.rows.map Prod.fst).Nodup := by
  obtain ⟨es, nodup⟩ := t
  rw [rows, List.map_map]
  exact nodup

omit [DecidableEq κ] in
theorem nodup_select (t : Table κ ρ) (p : κ → ρ → Bool) :
    ((t.select p).map Prod.fst).Nodup :=
  t.nodup_keys.sublist (List.filter_sublist.map Prod.fst)

/-- One row at most has a given key. -/
theorem filter_key (t : Table κ ρ) (k : κ) :
    (t.rows.filter fun e => e.1 = k) = ((t.find? k).map fun r => (k, r)).toList := by
  cases found : t.find? k with
  | none =>
      rw [Option.map_none, Option.toList_none, List.filter_eq_nil_iff]
      rintro ⟨k', r⟩ mem same
      obtain rfl : k' = k := by simpa using same
      rw [mem_rows.mp mem] at found
      cases found
  | some r =>
      refine List.perm_singleton.mp
        ((List.perm_ext_iff_of_nodup ?_ (List.nodup_singleton _)).mpr ?_)
      · exact List.Nodup.filter _ t.nodup_keys.of_map
      · rintro ⟨k', r'⟩
        rw [List.mem_filter, mem_rows, decide_eq_true_eq, List.mem_singleton, Prod.mk.injEq]
        constructor
        · rintro ⟨found', rfl⟩
          exact ⟨rfl, Option.some.inj (found'.symm.trans found)⟩
        · rintro ⟨rfl, rfl⟩
          exact ⟨found, rfl⟩

/-- Of the selected rows one has a given key. -/
theorem filter_select {t : Table κ ρ} {p : κ → ρ → Bool} {k : κ} {r : ρ}
    (found : t.find? k = some r)
    (holds : p k r = true) : ((t.select p).filter fun e => e.1 = k) = [(k, r)] := by
  have one : (t.rows.filter fun e => e.1 = k) = [(k, r)] := by simp [filter_key, found]
  rw [select, List.filter_comm, one]
  simp [holds]

/-- `join … on` a whole key and a condition on the row. -/
theorem select_key (t : Table κ ρ) (k : κ) (p : ρ → Bool) :
    (t.select fun k' r => k' = k && p r) =
      (((t.find? k).filter p).map fun r => (k, r)).toList := by
  have first : (t.select fun k' r => k' = k && p r) =
      (t.rows.filter fun e => e.1 = k).filter fun e => p e.2 := by
    rw [select, List.filter_filter]
    exact List.filter_congr fun e _ => Bool.and_comm _ _
  rw [first, filter_key]
  cases t.find? k with
  | none => rfl
  | some r => cases holds : p r <;> simp [Option.filter, holds]

/-- `exists (select 1 … where …)` for a whole key and a condition on the row. -/
theorem any_key (t : Table κ ρ) (k : κ) (p : ρ → Bool) :
    (t.rows.any fun e => e.1 = k && p e.2) = (t.find? k).any p := by
  have first : (t.rows.any fun e => e.1 = k && p e.2) =
      (t.rows.filter fun e => e.1 = k).any fun e => p e.2 := List.any_filter.symm
  rw [first, filter_key]
  cases t.find? k <;> simp

/-- Rows that say which row they were joined from are those of that one row. -/
theorem filter_flatMap {α : Type} {f : κ × ρ → List α} {key : α → κ}
    (from_row : ∀ e, ∀ a ∈ f e, key a = e.1) (t : Table κ ρ) (k : κ) :
    ((t.rows.flatMap f).filter fun a => key a = k) =
      ((t.find? k).map fun r => f (k, r)).getD [] := by
  have split (rows : List (κ × ρ)) : ((rows.flatMap f).filter fun a => key a = k) =
      (rows.filter fun e => e.1 = k).flatMap f := by
    induction rows with
    | nil => rfl
    | cons e rows ih =>
        rw [List.flatMap_cons, List.filter_append, ih]
        by_cases same : e.1 = k
        · rw [List.filter_cons_of_pos (by simpa using same), List.flatMap_cons,
            List.filter_eq_self.mpr fun a mem => by simpa [from_row e a mem] using same]
        · rw [List.filter_cons_of_neg (by simpa using same),
            List.filter_eq_nil_iff.mpr fun a mem => by simpa [from_row e a mem] using same,
            List.nil_append]
  rw [split, filter_key]
  cases t.find? k <;> simp

/-- Tables that find the same selected rows select the same rows. -/
theorem select_perm {t u : Table κ ρ} {p q : κ → ρ → Bool}
    (h : ∀ k r, t.find? k = some r ∧ p k r = true ↔ u.find? k = some r ∧ q k r = true) :
    (t.select p).Perm (u.select q) := by
  refine (List.perm_ext_iff_of_nodup (t.nodup_select p).of_map (u.nodup_select q).of_map).mpr ?_
  rintro ⟨k, r⟩
  rw [mem_select, mem_select]
  exact h k r

/-! Tables with other rows, or under other keys -/

section Convert
variable {κ' ρ' : Type} [DecidableEq κ']

/-- `alter table … add column …`, with a value for each row -/
def mapRows (g : κ → ρ → ρ') (t : Table κ ρ) : Table κ ρ' :=
  ⟨t.entries.map (.map id g), t.nodupKeys.map₂ g⟩

omit [DecidableEq κ] in
theorem rows_mapRows (g : κ → ρ → ρ') (t : Table κ ρ) :
    (t.mapRows g).rows = t.rows.map fun e => (e.1, g e.1 e.2) := by
  simp only [rows, mapRows, List.map_map]
  rfl

@[simp] theorem find?_mapRows (g : κ → ρ → ρ') (t : Table κ ρ) (k : κ) :
    (t.mapRows g).find? k = (t.find? k).map (g k) := by
  apply Option.ext
  intro r
  rw [← mem_rows, rows_mapRows, List.mem_map, Option.map_eq_some_iff]
  constructor
  · intro mem
    obtain ⟨e, mem, same⟩ := mem
    cases same
    exact ⟨e.2, mem_rows.mp mem, rfl⟩
  · intro mem
    obtain ⟨r', found, same⟩ := mem
    exact ⟨(k, r'), mem_rows.mpr found, same ▸ rfl⟩

/-- The rows whose keys have a new form, under it. -/
def rekey (f : κ → Option κ') (apart : ∀ k k' j, f k = some j → f k' = some j → k = k')
    (t : Table κ ρ) : Table κ' ρ where
  entries := t.entries.filterMap fun e => (f e.1).map fun j => ⟨j, e.2⟩
  nodupKeys := by
    rw [List.nodupKeys_iff_pairwise, List.pairwise_filterMap]
    refine (List.nodupKeys_iff_pairwise.mp t.nodupKeys).imp fun {e e'} other b hb b' hb' same => ?_
    obtain ⟨j, hj, rfl⟩ := Option.map_eq_some_iff.mp hb
    obtain ⟨j', hj', rfl⟩ := Option.map_eq_some_iff.mp hb'
    cases same
    exact other (apart _ _ _ hj hj')

section
variable {f : κ → Option κ'} {apart : ∀ k k' j, f k = some j → f k' = some j → k = k'}
  {t : Table κ ρ}

omit [DecidableEq κ] [DecidableEq κ'] in
theorem mem_rows_rekey {j : κ'} {r : ρ} :
    (j, r) ∈ (t.rekey f apart).rows ↔ ∃ k, f k = some j ∧ (k, r) ∈ t.rows := by
  simp only [rows, rekey, List.mem_map, List.mem_filterMap, Option.map_eq_some_iff, Prod.mk.injEq]
  constructor
  · intro mem
    obtain ⟨_, ⟨e, mem, j', form, rfl⟩, rfl, rfl⟩ := mem
    exact ⟨e.1, form, e, mem, rfl, rfl⟩
  · intro mem
    obtain ⟨k, form, e, mem, rfl, rfl⟩ := mem
    exact ⟨_, ⟨e, mem, j, form, rfl⟩, rfl, rfl⟩

theorem find?_rekey {k : κ} {j : κ'} (form : f k = some j) :
    (t.rekey f apart).find? j = t.find? k := by
  apply Option.ext
  intro r
  rw [← mem_rows, ← mem_rows, mem_rows_rekey]
  constructor
  · intro mem
    obtain ⟨k', form', mem⟩ := mem
    exact apart k' k j form' form ▸ mem
  · exact fun mem => ⟨k, form, mem⟩

end

end Convert

end Table

theorem pairwise_insertionSort_isLE {α : Type} {cmp : α → α → Ordering} [Std.TransCmp cmp]
    (xs : List α) :
    (xs.insertionSort fun x y => (cmp x y).isLE).Pairwise fun x y => (cmp x y).isLE := by
  have total : Std.Total fun x y : α => (cmp x y).isLE = true :=
    ⟨fun x y => by
      rw [@Std.OrientedCmp.eq_swap α cmp _ y x]
      cases cmp x y <;> simp⟩
  have trans : IsTrans α fun x y => (cmp x y).isLE = true :=
    ⟨fun _ _ _ => Std.TransCmp.isLE_trans⟩
  exact List.pairwise_insertionSort (fun x y => (cmp x y).isLE = true) xs

/-- Sorting by an order that tells the rows apart forgets how they were stored. -/
theorem insertionSort_eq_of_perm {α : Type} {cmp : α → α → Ordering} [Std.TransCmp cmp]
    {xs ys : List α} (h : xs.Perm ys) (apart : ∀ x ∈ xs, ∀ y ∈ ys, cmp x y = .eq → x = y) :
    xs.insertionSort (fun x y => (cmp x y).isLE) =
      ys.insertionSort fun x y => (cmp x y).isLE := by
  have sorted (zs : List α) := @pairwise_insertionSort_isLE α cmp _ zs
  refine List.Perm.eq_of_pairwise ?_ (sorted xs) (sorted ys) ?_
  · intro x y hx hy le ge
    refine apart x (by simpa using hx) y (by simpa using hy) ?_
    rw [@Std.OrientedCmp.eq_swap α cmp _ y x] at ge
    revert le ge
    cases cmp x y <;> simp
  · exact (List.perm_insertionSort _ _).trans (h.trans (List.perm_insertionSort _ _).symm)
