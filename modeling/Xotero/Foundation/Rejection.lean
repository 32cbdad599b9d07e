import Mathlib.Data.List.Basic

/-!
Drawing the first `k` accepted elements of a stream that comes in blocks. A loop
that leaves a block as soon as it has enough takes what the blocks, put end to
end, would give it.
-/

namespace Draws

section Stream
variable {α : Type} (accept : α → Bool) (block : Nat → List α)

/-- The first `n` blocks end to end. -/
def stream (n : Nat) : List α := (List.range n).flatMap block

theorem stream_succ (n : Nat) : stream block (n + 1) = stream block n ++ block n := by
  rw [stream, List.range_succ, List.flatMap_append, List.flatMap_singleton]
  rfl

theorem stream_mono {n m : Nat} (le : n ≤ m) : stream block n <+: stream block m := by
  induction le with
  | refl => exact List.prefix_rfl
  | step _ ih =>
      rw [stream_succ]
      exact ih.trans (List.prefix_append _ _)

/-- What is accepted of the first `n` blocks. -/
def accepted (n : Nat) : List α := (stream block n).filter accept

theorem accepted_succ (n : Nat) :
    accepted accept block (n + 1) = accepted accept block n ++ (block n).filter accept := by
  rw [accepted, stream_succ, List.filter_append]
  rfl

theorem length_accepted_mono {n m : Nat} (le : n ≤ m) :
    (accepted accept block n).length ≤ (accepted accept block m).length :=
  ((stream_mono block le).filter accept).length_le

/-- Once there is enough, later blocks do not count. -/
theorem take_accepted {k n m : Nat} (le : n ≤ m) (enough : k ≤ (accepted accept block n).length) :
    (accepted accept block m).take k = (accepted accept block n).take k := by
  obtain ⟨later, same⟩ := (stream_mono block le).filter accept
  rw [accepted, ← same]
  exact List.take_append_of_le_length enough

end Stream

section Draw
variable {α β : Type} (accept : α → Bool) (letter : α → β) (k : Nat)

/-- The elements of one block, taken until there are `k`. -/
def draw (taken : List β) : List α → List β
  | [] => taken
  | x :: xs =>
      if accept x then
        if (taken ++ [letter x]).length = k then taken ++ [letter x]
        else draw (taken ++ [letter x]) xs
      else draw taken xs

theorem draw_eq {taken : List β} (short : taken.length < k) (xs : List α) :
    draw accept letter k taken xs = (taken ++ (xs.filter accept).map letter).take k := by
  induction xs generalizing taken with
  | nil =>
      rw [List.filter_nil, List.map_nil, List.append_nil, List.take_of_length_le (by omega)]
      rfl
  | cons x xs ih =>
      rw [draw]
      split
      · rename_i good
        rw [List.filter_cons_of_pos good, List.map_cons,
          List.append_cons taken (letter x) ((xs.filter accept).map letter)]
        split
        · rename_i full
          rw [List.take_append_of_le_length (by omega), List.take_of_length_le (by omega)]
        · rename_i more
          refine ih ?_
          rw [List.length_append, List.length_singleton] at more ⊢
          omega
      · rename_i bad
        rw [List.filter_cons_of_neg bad]
        exact ih short

/-- One block more, for a loop that still needs it. -/
theorem draw_block {block : Nat → List α} {n : Nat}
    (short : (accepted accept block n).length < k) :
    draw accept letter k ((accepted accept block n).map letter) (block n) =
      ((accepted accept block (n + 1)).take k).map letter := by
  rw [draw_eq accept letter k (by rwa [List.length_map]), accepted_succ, List.map_take,
    List.map_append]

end Draw

end Draws
