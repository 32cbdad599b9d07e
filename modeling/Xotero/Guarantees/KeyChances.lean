import Xotero.Foundation.Fibers
import Xotero.Guarantees.GeneratedKeys

/-!
How often each generated key is drawn. The alphabet has 33 letters and a byte
has 256 values, so the first 25 letters are drawn by eight bytes each and the
others by seven.
-/

namespace Xotero

open Fibers

def byteEquiv : UInt8 ≃ Fin 256 where
  toFun := UInt8.toFin
  invFun := UInt8.ofFin
  left_inv b := by simp
  right_inv b := by simp

/-- A key of 8 letters of Zotero's alphabet. -/
abbrev ObjectKey := {key : String // validObjectKey key = true}

/-- The results of the random source for which `generate_key` makes the key. -/
noncomputable def keySources (key : String) : Nat := fiberCard generateKey key

/-- The letters that eight bytes draw. -/
def likelyLetters : List Char := favoured 256 keyAlphabet

example : likelyLetters = "23456789ABCDEFGHIJKLMNPQR".toList := by decide

def likelyCount (key : String) : Nat := key.toList.countP (· ∈ likelyLetters)

theorem keyAlphabet_nodup : keyAlphabet.Nodup := by decide

theorem ObjectKey.spelled (key : ObjectKey) : ∀ c ∈ key.1.toList, c ∈ keyAlphabet := by
  have valid := key.2
  rw [validObjectKey, Bool.and_eq_true, List.all_eq_true] at valid
  exact fun c mem => List.contains_iff_mem.mp (valid.2 c mem)

theorem ObjectKey.length (key : ObjectKey) : key.1.toList.length = 8 := by
  have valid := key.2
  rw [validObjectKey, Bool.and_eq_true, decide_eq_true_eq] at valid
  have narrow : keyAlphabet.all fun c => c.utf8Size = 1 := by decide
  have size := utf8ByteSize_ofList fun c mem =>
    by simpa using List.all_eq_true.mp narrow c (key.spelled c mem)
  rw [String.ofList_toList] at size
  exact size.symm.trans valid.1

/-- A key has as many sources as the lists of letters that spell it. -/
theorem keySources_eq_fiberCard (key : String) : keySources key =
    fiberCard (fun buf : Fin 8 → UInt8 => (List.ofFn buf).map fun b =>
      drawLetter keyAlphabet (by decide) (byteEquiv b)) key.toList := by
  have same := fiberCard_injective textEquiv.symm.injective
    (fun buf : Fin 8 → UInt8 => (List.ofFn buf).map fun b =>
      drawLetter keyAlphabet (by decide) (byteEquiv b)) key.toList
  have spelled : textEquiv.symm key.toList = key := textEquiv.symm_apply_apply key
  rw [spelled] at same
  exact same

theorem keySources_eq (key : ObjectKey) :
    keySources key.1 = 8 ^ likelyCount key.1 * 7 ^ (8 - likelyCount key.1) :=
  (keySources_eq_fiberCard key.1).trans
    (fiberCard_drawWord (by decide) keyAlphabet_nodup byteEquiv key.length key.spelled)

/-- Two keys are drawn equally often exactly when they have equally many of the
letters that eight bytes draw. -/
theorem keySources_eq_iff (key key' : ObjectKey) :
    keySources key.1 = keySources key'.1 ↔ likelyCount key.1 = likelyCount key'.1 := by
  rw [keySources_eq_fiberCard, keySources_eq_fiberCard]
  exact fiberCard_drawWord_inj (by decide) keyAlphabet_nodup byteEquiv (by decide) key.length
    key.spelled key'.length key'.spelled

/-- The key that a failed read gives is drawn more often than that of the last
letters. -/
theorem keySources_biased :
    keySources "22222222" = 8 ^ 8 ∧ keySources "ZZZZZZZZ" = 7 ^ 8 ∧
      ¬ ∀ key key' : ObjectKey, keySources key.1 = keySources key'.1 := by
  have first := keySources_eq ⟨"22222222", by decide⟩
  have last := keySources_eq ⟨"ZZZZZZZZ", by decide⟩
  have many : likelyCount "22222222" = 8 := by decide
  have none : likelyCount "ZZZZZZZZ" = 0 := by decide
  simp only [many, none] at first last
  refine ⟨first, last, fun unbiased => ?_⟩
  have same := unbiased ⟨"22222222", by decide⟩ ⟨"ZZZZZZZZ", by decide⟩
  rw [first, last] at same
  exact absurd same (by decide)

end Xotero
