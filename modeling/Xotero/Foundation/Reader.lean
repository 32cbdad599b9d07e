import Mathlib.Data.List.Basic

/-!
Readers, over any letters. A reader hands out a fixed word piece by piece, in pieces
it chooses itself, and then ends or fails. A reader may be cut off after a number of
letters, and it may be read to its end; the sizes of the pieces make no difference.
-/

/-- `read state size` is a piece of at most `size` letters, or a failure; the empty
piece is the end. What is still to come is determined by the state. -/
structure Reader (α : Type) where
  State : Type
  start : State
  read : State → Nat → Option (List α) × State
  left : State → List α
  sound : State → Bool
  piece : ∀ {s : State} {n : Nat} {xs : List α} {s' : State}, 0 < n → read s n = (some xs, s') →
    xs.length ≤ n ∧ left s = xs ++ left s' ∧ sound s' = sound s ∧
      (xs = [] → left s = [] ∧ sound s = true)
  failure : ∀ {s : State} {n : Nat} {s' : State}, 0 < n → read s n = (none, s') →
    left s = [] ∧ sound s = false

namespace Reader
variable {α : Type}

/-- The word that the reader hands out before it ends or fails. -/
def word (r : Reader α) : List α := r.left r.start

/-- After its word it ends, and does not fail. -/
def ends (r : Reader α) : Bool := r.sound r.start

/-- `Read::take` -/
def take (r : Reader α) (k : Nat) : Reader α where
  State := r.State × Nat
  start := (r.start, k)
  read s n :=
    if s.2 = 0 then (some [], s)
    else
      match r.read s.1 (min n s.2) with
      | (some xs, s') => (some xs, s', s.2 - xs.length)
      | (none, s') => (none, s', s.2)
  left s := (r.left s.1).take s.2
  sound s := decide (s.2 ≤ (r.left s.1).length) || r.sound s.1
  piece := by
    rintro ⟨s, k⟩ n xs t positive h
    dsimp only at h ⊢
    split at h
    · rename_i full
      obtain ⟨same, rfl⟩ := Prod.mk.inj h
      obtain rfl := Option.some.inj same
      simp [full]
    · rename_i room
      split at h
      · rename_i ys s' here
        obtain ⟨same, rfl⟩ := Prod.mk.inj h
        obtain rfl := Option.some.inj same
        obtain ⟨short, word, sound, last⟩ := r.piece (by omega) here
        refine ⟨by omega, ?_, ?_, fun empty => ?_⟩
        · rw [word, List.take_append, List.take_of_length_le (by omega)]
        · have length := congrArg List.length word
          rw [List.length_append] at length
          dsimp only
          rw [sound, length]
          congr 1
          exact decide_eq_decide.mpr (by omega)
        · obtain ⟨finished, ended⟩ := last empty
          rw [finished, ended, Bool.or_true]
          exact ⟨List.take_nil, rfl⟩
      · cases (Prod.mk.inj h).1
  failure := by
    rintro ⟨s, k⟩ n t positive h
    dsimp only at h ⊢
    split at h
    · cases (Prod.mk.inj h).1
    · rename_i room
      split at h
      · cases (Prod.mk.inj h).1
      · rename_i s' here
        obtain ⟨finished, failed⟩ := r.failure (by omega) here
        rw [finished, failed, Bool.or_false]
        exact ⟨List.take_nil, decide_eq_false (by simpa using room)⟩

/-- `Read::read_to_end`: `size` is the room in the buffer, less one, after what has
been read. -/
def readToEnd (r : Reader α) (size : List α → Nat) (s : r.State) (out : List α) :
    Option (List α) :=
  match _piece : r.read s (size out + 1) with
  | (none, _) => none
  | (some [], _) => some out
  | (some (x :: xs), s') => r.readToEnd size s' (out ++ x :: xs)
termination_by (r.left s).length
decreasing_by
  rw [(r.piece (Nat.succ_pos _) _piece).2.1, List.length_append, List.length_cons]
  omega

/-- However the word is cut into pieces, all of it is read. -/
theorem readToEnd_eq (r : Reader α) (size : List α → Nat) (s : r.State) (out : List α) :
    r.readToEnd size s out = if r.sound s then some (out ++ r.left s) else none := by
  fun_induction readToEnd r size s out with
  | case1 s out s' h =>
      obtain ⟨-, failed⟩ := r.failure (Nat.succ_pos _) h
      rw [failed, if_neg Bool.false_ne_true]
  | case2 s out s' h =>
      obtain ⟨finished, ended⟩ := (r.piece (Nat.succ_pos _) h).2.2.2 rfl
      rw [ended, finished, if_pos rfl, List.append_nil]
  | case3 s out x xs s' h ih =>
      obtain ⟨-, word, sound, -⟩ := r.piece (Nat.succ_pos _) h
      rw [ih, sound, word, List.append_assoc]

/-- What is left of a word after a number of letters is cut off. -/
theorem take_readToEnd (r : Reader α) (k : Nat) (size : List α → Nat) :
    (r.take k).readToEnd size (r.take k).start [] =
      if k ≤ r.word.length || r.ends then some (r.word.take k) else none :=
  readToEnd_eq (r.take k) size (r.start, k) []

/-- A word in memory, after which there is a failure or none. -/
def ofList (word : List α) (ends : Bool) : Reader α where
  State := List α
  start := word
  read s n :=
    match s with
    | [] => (if ends then some [] else none, [])
    | x :: xs => (some ((x :: xs).take n), (x :: xs).drop n)
  left s := s
  sound _ := ends
  piece := by
    intro s n xs s' positive h
    cases s with
    | nil =>
        obtain ⟨same, rfl⟩ := Prod.mk.inj h
        split at same
        · rename_i sound
          obtain rfl := Option.some.inj same
          exact ⟨Nat.zero_le n, rfl, rfl, fun _ => ⟨rfl, sound⟩⟩
        · cases same
    | cons y ys =>
        obtain ⟨same, rfl⟩ := Prod.mk.inj h
        obtain rfl := Option.some.inj same
        refine ⟨List.length_take_le n _, (List.take_append_drop n _).symm, rfl, fun none => ?_⟩
        rcases List.take_eq_nil_iff.mp none with zero | empty
        · omega
        · cases empty
  failure := by
    intro s n s' positive h
    cases s with
    | nil =>
        have same := (Prod.mk.inj h).1
        split at same
        · cases same
        · rename_i failed
          exact ⟨rfl, by simpa using failed⟩
    | cons y ys => cases (Prod.mk.inj h).1

end Reader
