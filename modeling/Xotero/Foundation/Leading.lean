import Mathlib.Data.List.Basic
import Mathlib.Data.List.Perm.Basic

/-!
Putting the elements with certain keys first: key by key in the listed order,
and the others after them as they were. A list that is already led so is left
alone.
-/

namespace Leading

variable {α κ : Type} [DecidableEq κ] (key : α → κ)

/-- The elements with the first key, with the second and so on, then the others. -/
def lead : List κ → List α → List α
  | [], xs => xs
  | k :: ks, xs => xs.filter (fun x => key x = k) ++ lead ks (xs.filter fun x => key x ≠ k)

/-- No element comes before one whose key is listed earlier. -/
def Led (ks : List κ) (xs : List α) : Prop :=
  xs.Pairwise fun x y => ks.idxOf (key x) ≤ ks.idxOf (key y)

/-- The elements whose keys are not listed. -/
def unlisted (ks : List κ) (xs : List α) : List α := xs.filter fun x => key x ∉ ks

theorem lead_perm (ks : List κ) (xs : List α) : (lead key ks xs).Perm xs := by
  induction ks generalizing xs with
  | nil => exact .refl xs
  | cons k ks ih =>
      have parts := List.filter_append_perm (fun x => decide (key x = k)) xs
      have rest := ih (xs.filter fun x => key x ≠ k)
      simp only [← decide_not] at parts
      exact (rest.append_left _).trans parts

theorem mem_lead {ks : List κ} {xs : List α} {x : α} : x ∈ lead key ks xs ↔ x ∈ xs :=
  (lead_perm key ks xs).mem_iff

variable {key}

theorem idxOf_later {k : κ} {ks : List κ} {x : α} (other : key x ≠ k) :
    (k :: ks).idxOf (key x) = ks.idxOf (key x) + 1 :=
  List.idxOf_cons_ne ks other.symm

/-- Among elements without the first key only the later keys matter. -/
theorem led_cons_iff {k : κ} {ks : List κ} {xs : List α} (others : ∀ x ∈ xs, key x ≠ k) :
    Led key (k :: ks) xs ↔ Led key ks xs := by
  refine List.Pairwise.iff_of_mem fun {x y} hx hy => ?_
  rw [idxOf_later (others x hx), idxOf_later (others y hy)]
  exact Nat.succ_le_succ_iff

variable (key)

theorem led_lead (ks : List κ) (xs : List α) : Led key ks (lead key ks xs) := by
  induction ks generalizing xs with
  | nil => exact List.pairwise_of_forall fun _ _ => Nat.le_refl 0
  | cons k ks ih =>
      have first (x : α) (hx : x ∈ xs.filter fun x => key x = k) :
          (k :: ks).idxOf (key x) = 0 :=
        List.idxOf_cons_eq ks (of_decide_eq_true (List.mem_filter.mp hx).2).symm
      refine List.pairwise_append.mpr ⟨?_, (led_cons_iff fun x hx => ?_).mpr (ih _),
        fun x hx y _ => ?_⟩
      · exact List.pairwise_of_forall_mem_list fun x hx y _ => by
          rw [first x hx]
          exact Nat.zero_le _
      · exact of_decide_eq_true (List.mem_filter.mp ((mem_lead key).mp hx)).2
      · rw [first x hx]
        exact Nat.zero_le _

/-- The elements that are not listed keep their order. -/
theorem unlisted_lead (ks : List κ) (xs : List α) :
    unlisted key ks (lead key ks xs) = unlisted key ks xs := by
  induction ks generalizing xs with
  | nil => rfl
  | cons k ks ih =>
      have listed : unlisted key (k :: ks) (xs.filter fun x => key x = k) = [] :=
        List.filter_eq_nil_iff.mpr fun x hx => by
          simp [of_decide_eq_true (List.mem_filter.mp hx).2]
      have others : unlisted key (k :: ks) (lead key ks (xs.filter fun x => key x ≠ k)) =
          unlisted key ks (lead key ks (xs.filter fun x => key x ≠ k)) :=
        List.filter_congr fun x hx => by
          simp [of_decide_eq_true (List.mem_filter.mp ((mem_lead key).mp hx)).2]
      have split : unlisted key (k :: ks) xs = unlisted key ks (xs.filter fun x => key x ≠ k) := by
        rw [unlisted, unlisted, List.filter_filter]
        exact List.filter_congr fun x _ => by simp [not_or, Bool.and_comm]
      rw [lead, unlisted, List.filter_append]
      exact (congrArg₂ (· ++ ·) listed (others.trans (ih _))).trans split.symm

variable {key}

/-- A led list is its elements with the first key, then the others. -/
theorem split_of_led {k : κ} {ks : List κ} {xs : List α} (h : Led key (k :: ks) xs) :
    (xs.filter fun x => key x = k) ++ (xs.filter fun x => key x ≠ k) = xs := by
  induction xs with
  | nil => rfl
  | cons x xs ih =>
      obtain ⟨before, rest⟩ := List.pairwise_cons.mp h
      by_cases first : key x = k
      · rw [List.filter_cons_of_pos (by simpa using first),
          List.filter_cons_of_neg (by simpa using first), List.cons_append, ih rest]
      · have later (y : α) (hy : y ∈ xs) : key y ≠ k := by
          intro same
          have least := before y hy
          rw [List.idxOf_cons_eq ks same.symm, idxOf_later first] at least
          exact Nat.not_succ_le_zero _ least
        have none : (x :: xs).filter (fun x => key x = k) = [] :=
          List.filter_eq_nil_iff.mpr (by simpa using ⟨first, later⟩)
        have all : (x :: xs).filter (fun x => key x ≠ k) = x :: xs :=
          List.filter_eq_self.mpr (by simpa using ⟨first, later⟩)
        rw [none, all, List.nil_append]

theorem lead_of_led {ks : List κ} {xs : List α} (h : Led key ks xs) : lead key ks xs = xs := by
  induction ks generalizing xs with
  | nil => rfl
  | cons k ks ih =>
      have others : Led key (k :: ks) (xs.filter fun x => key x ≠ k) := List.Pairwise.filter _ h
      have rest := (led_cons_iff fun x hx =>
        of_decide_eq_true (List.mem_filter.mp hx).2).mp others
      rw [lead, ih rest]
      exact split_of_led h

theorem lead_lead (ks : List κ) (xs : List α) : lead key ks (lead key ks xs) = lead key ks xs :=
  lead_of_led (led_lead key ks xs)

end Leading
