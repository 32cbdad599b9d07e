import Mathlib.Algebra.BigOperators.Fin
import Mathlib.Data.Int.CardIntervalMod
import Mathlib.SetTheory.Cardinal.Finite
import Mathlib.Tactic.Ring

/-!
How many arguments a map takes to each value. A number drawn below `n` and
reduced modulo the length of an alphabet reaches the first `n % length` letters
once more than the others; a word of such letters has as many sources as its
letters have together.
-/

namespace Fibers

variable {α α' β γ : Type}

/-- How many arguments `f` takes to `b`. -/
noncomputable def fiberCard (f : α → β) (b : β) : Nat := Nat.card {a // f a = b}

theorem fiberCard_equiv (e : α ≃ α') (f : α' → β) (b : β) :
    fiberCard (fun a => f (e a)) b = fiberCard f b :=
  Nat.card_congr (e.subtypeEquiv fun _ => Iff.rfl)

theorem fiberCard_injective {g : β → γ} (injective : Function.Injective g) (f : α → β) (b : β) :
    fiberCard (fun a => g (f a)) (g b) = fiberCard f b :=
  Nat.card_congr (Equiv.subtypeEquivRight fun _ => injective.eq_iff)

/-- What is reached in every place is reached independently. -/
theorem fiberCard_pi {m : Nat} (f : α → β) (word : Fin m → β) :
    fiberCard (fun (w : Fin m → α) i => f (w i)) word = ∏ i, fiberCard f (word i) := by
  have places : {w : Fin m → α // (fun i => f (w i)) = word} ≃ ∀ i, {a // f a = word i} :=
    (Equiv.subtypeEquivRight fun w => funext_iff).trans
      (Equiv.subtypePiEquivPi (p := fun i a => f a = word i))
  rw [fiberCard, Nat.card_congr places, Nat.card_pi]
  rfl

theorem fiberCard_word {m : Nat} (f : α → β) {word : List β} (length : word.length = m) :
    fiberCard (fun w : Fin m → α => (List.ofFn w).map f) word =
      (word.map (fiberCard f)).prod := by
  subst length
  have same := fiberCard_injective List.ofFn_injective
    (fun (w : Fin word.length → α) i => f (w i)) word.get
  rw [List.ofFn_get, fiberCard_pi] at same
  have map (w : Fin word.length → α) : (List.ofFn w).map f = List.ofFn fun i => f (w i) :=
    List.map_ofFn
  simp only [map, same, ← List.prod_ofFn]
  exact congrArg List.prod (List.ofFn_getElem_eq_map word (fiberCard f))

/-! Reduction modulo a length -/

theorem fiberCard_mod {n k i : Nat} (below : i < k) :
    fiberCard (fun b : Fin n => b.val % k) i = n / k + if i < n % k then 1 else 0 := by
  have counted : {b : Fin n // b.val % k = i} ≃ {b : Nat // b < n ∧ b ≡ i [MOD k]} :=
    (Fin.equivSubtype.subtypeEquiv fun b => by
      rw [Nat.ModEq, Nat.mod_eq_of_lt below]
      rfl).trans (Equiv.subtypeSubtypeEquivSubtypeInter (· < n) (· ≡ i [MOD k]))
  rw [fiberCard, Nat.card_congr counted,
    Nat.subtype_card ((Finset.range n).filter (· ≡ i [MOD k])) (by simp),
    ← Nat.count_eq_card_filter_range, Nat.count_modEq_card n (Nat.zero_lt_of_lt below),
    Nat.mod_eq_of_lt below]

/-! Words of letters -/

theorem prod_mixed (q : Nat) (p : β → Bool) (word : List β) :
    (word.map fun c => q + if p c then 1 else 0).prod =
      (q + 1) ^ word.countP p * q ^ (word.length - word.countP p) := by
  induction word with
  | nil => rfl
  | cons c word ih =>
      rw [List.map_cons, List.prod_cons, ih, List.countP_cons, List.length_cons]
      have atMost : word.countP p ≤ word.length := List.countP_le_length
      cases p c with
      | true =>
          rw [if_pos rfl, Nat.add_sub_add_right, pow_succ]
          ring
      | false =>
          simp only [Bool.false_eq_true, if_false, Nat.add_zero]
          rw [Nat.sub_add_comm atMost, pow_succ]
          ring

/-- Two mixtures of a factor and the next are the same only when they are mixed
alike. -/
theorem mixed_pow_inj {q m a b : Nat} (positive : 0 < q) (ha : a ≤ m) (hb : b ≤ m) :
    (q + 1) ^ a * q ^ (m - a) = (q + 1) ^ b * q ^ (m - b) ↔ a = b := by
  have more {a b : Nat} (hb : b ≤ m) (lt : a < b) :
      (q + 1) ^ a * q ^ (m - a) < (q + 1) ^ b * q ^ (m - b) := by
    obtain ⟨d, rfl⟩ := Nat.exists_eq_add_of_lt lt
    have rest : m - a = (d + 1) + (m - (a + d + 1)) := by omega
    calc (q + 1) ^ a * q ^ (m - a)
        = (q + 1) ^ a * q ^ (d + 1) * q ^ (m - (a + d + 1)) := by rw [rest, pow_add, mul_assoc]
      _ < (q + 1) ^ a * (q + 1) ^ (d + 1) * q ^ (m - (a + d + 1)) := by
          have factor : q ^ (d + 1) < (q + 1) ^ (d + 1) :=
            Nat.pow_lt_pow_left (Nat.lt_succ_self q) (Nat.succ_ne_zero d)
          have first : 0 < (q + 1) ^ a := Nat.pow_pos (Nat.succ_pos q)
          have last : 0 < q ^ (m - (a + d + 1)) := Nat.pow_pos positive
          exact Nat.mul_lt_mul_of_pos_right (Nat.mul_lt_mul_of_pos_left factor first) last
      _ = (q + 1) ^ (a + d + 1) * q ^ (m - (a + d + 1)) := by rw [← pow_add, Nat.add_assoc]
  refine ⟨fun same => ?_, fun same => same ▸ rfl⟩
  rcases Nat.lt_trichotomy a b with lt | same' | gt
  · exact absurd same (Nat.ne_of_lt (more hb lt))
  · exact same'
  · exact absurd same.symm (Nat.ne_of_lt (more ha gt))

/-- A text by its characters. -/
def textEquiv : String ≃ List Char where
  toFun := String.toList
  invFun := String.ofList
  left_inv _ := String.ofList_toList
  right_inv _ := String.toList_ofList

/-- The letter that a number is reduced to. -/
def drawLetter (letters : List γ) (some_letter : 0 < letters.length) (b : Nat) : γ :=
  letters.get ⟨b % letters.length, Nat.mod_lt b some_letter⟩

section Letters
variable {n : Nat} {letters : List γ} (some_letter : 0 < letters.length) [DecidableEq γ]

/-- The letters that a number below `n` reaches once more than the others. -/
def favoured (n : Nat) (letters : List γ) : List γ := letters.take (n % letters.length)

theorem fiberCard_drawLetter (once : letters.Nodup) (e : α ≃ Fin n) {c : γ} (letter : c ∈ letters) :
    fiberCard (fun a => drawLetter letters some_letter (e a)) c =
      n / letters.length + if c ∈ favoured n letters then 1 else 0 := by
  obtain ⟨i, below, rfl⟩ := List.mem_iff_getElem.mp letter
  have reached (b : Nat) :
      drawLetter letters some_letter b = letters[i] ↔ b % letters.length = i :=
    once.getElem_inj_iff
  have first : letters[i] ∈ favoured n letters ↔ i < n % letters.length := by
    rw [favoured, List.mem_take_iff_getElem]
    constructor
    · rintro ⟨j, before, same⟩
      obtain rfl := once.getElem_inj_iff.mp same
      omega
    · exact fun before => ⟨i, by omega, rfl⟩
  have draws := fiberCard_equiv e (fun b : Fin n => b.val % letters.length) i
  rw [fiberCard_mod below] at draws
  simp only [first]
  rw [← draws]
  exact Nat.card_congr (Equiv.subtypeEquivRight fun a => reached (e a))

/-- The sources of a word, by how many of its letters are favoured. -/
theorem fiberCard_drawWord (once : letters.Nodup) (e : α ≃ Fin n) {word : List γ} {m : Nat}
    (length : word.length = m) (spelled : ∀ c ∈ word, c ∈ letters) :
    fiberCard (fun w : Fin m → α =>
        (List.ofFn w).map fun a => drawLetter letters some_letter (e a)) word =
      (n / letters.length + 1) ^ word.countP (· ∈ favoured n letters) *
        (n / letters.length) ^ (m - word.countP (· ∈ favoured n letters)) := by
  rw [fiberCard_word _ length, List.map_congr_left fun c mem =>
    fiberCard_drawLetter some_letter once e (spelled c mem)]
  have mixed := prod_mixed (n / letters.length) (· ∈ favoured n letters) word
  simp only [decide_eq_true_eq, length] at mixed
  exact mixed

/-- Two words have as many sources as each other exactly when they have as many
favoured letters. -/
theorem fiberCard_drawWord_inj (once : letters.Nodup) (e : α ≃ Fin n)
    (fits : letters.length ≤ n) {word word' : List γ} {m : Nat}
    (length : word.length = m) (spelled : ∀ c ∈ word, c ∈ letters)
    (length' : word'.length = m) (spelled' : ∀ c ∈ word', c ∈ letters) :
    fiberCard (fun w : Fin m → α =>
        (List.ofFn w).map fun a => drawLetter letters some_letter (e a)) word =
      fiberCard (fun w : Fin m → α =>
        (List.ofFn w).map fun a => drawLetter letters some_letter (e a)) word' ↔
    word.countP (· ∈ favoured n letters) = word'.countP (· ∈ favoured n letters) := by
  rw [fiberCard_drawWord some_letter once e length spelled,
    fiberCard_drawWord some_letter once e length' spelled']
  exact mixed_pow_inj (Nat.div_pos fits some_letter) (length ▸ List.countP_le_length)
    (length' ▸ List.countP_le_length)

/-- The words of `m` letters. -/
theorem card_words (once : letters.Nodup) (m : Nat) :
    Nat.card {word : List γ // word.length = m ∧ ∀ c ∈ word, c ∈ letters} = letters.length ^ m := by
  let spell (places : Fin m → {c // c ∈ letters}) :
      {word : List γ // word.length = m ∧ ∀ c ∈ word, c ∈ letters} :=
    ⟨List.ofFn fun i => (places i).1, List.length_ofFn, fun c mem => by
      obtain ⟨i, rfl⟩ := List.mem_ofFn.mp mem
      exact (places i).2⟩
  have spells : Function.Bijective spell := by
    constructor
    · intro places places' same
      have letters_eq := List.ofFn_injective (congrArg Subtype.val same)
      exact funext fun i => Subtype.ext (congrFun letters_eq i)
    · rintro ⟨word, rfl, spelled⟩
      exact ⟨fun i => ⟨word.get i, spelled _ (List.get_mem word i)⟩,
        Subtype.ext (List.ofFn_get word)⟩
  rw [← Nat.card_eq_of_bijective spell spells, Nat.card_fun, ← Nat.card_congr once.getEquiv,
    Nat.card_fin, Nat.card_fin]

end Letters

end Fibers
