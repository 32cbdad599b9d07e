import Xotero.Http.Path

/-!
Query strings in the form encoding: pairs joined by `&`, and every text byte by
byte, with `+` for a space and `%XX` for what is no letter, digit or one of
`*-._`. Reading undoes writing, for any pairs of texts.
-/

namespace Xotero.FormUrlencoded

/-! ### Bytes -/

def byteSerializedUnchanged (b : UInt8) : Bool :=
  (Char.ofNat b.toNat).isAlphanum || b = 0x2A || b = 0x2D || b = 0x2E || b = 0x5F

def hexDigit (n : Nat) : Char := Char.ofNat (if n < 10 then 0x30 + n else 0x37 + n)

def hexValue (c : Char) : Option Nat :=
  if '0' ≤ c ∧ c ≤ '9' then some (c.toNat - 0x30)
  else if 'A' ≤ c ∧ c ≤ 'F' then some (c.toNat - 0x37)
  else if 'a' ≤ c ∧ c ≤ 'f' then some (c.toNat - 0x57)
  else none

def byteSerialize (b : UInt8) : List Char :=
  if byteSerializedUnchanged b then [Char.ofNat b.toNat]
  else if b = 0x20 then ['+']
  else ['%', hexDigit (b.toNat / 16), hexDigit (b.toNat % 16)]

/-- The bytes of a name or a value: `+` is a space, and `%` without two hexadecimal
digits stands for itself. -/
def decodeBytes : List Char → List UInt8
  | [] => []
  | '+' :: cs => 0x20 :: decodeBytes cs
  | '%' :: h :: l :: cs =>
      match hexValue h, hexValue l with
      | some a, some b => UInt8.ofNat (16 * a + b) :: decodeBytes cs
      | _, _ => 0x25 :: decodeBytes (h :: l :: cs)
  | c :: cs => String.utf8EncodeChar c ++ decodeBytes cs

/-- A byte that stands for itself, as the character it is written as. -/
theorem unchanged_spec : ∀ n < 256, byteSerializedUnchanged (UInt8.ofNat n) = true →
    String.utf8EncodeChar (Char.ofNat n) = [UInt8.ofNat n] ∧
      Char.ofNat n ∉ ['+', '%', '&', '='] := by
  decide +kernel

theorem hexDigit_spec : ∀ n < 16, hexValue (hexDigit n) = some n ∧ hexDigit n ∉ ['&', '='] := by
  decide

theorem decodeBytes_plain {c : Char} (plain : c ∉ ['+', '%', '&', '=']) (cs : List Char) :
    decodeBytes (c :: cs) = String.utf8EncodeChar c ++ decodeBytes cs := by
  simp only [List.mem_cons, List.not_mem_nil, or_false, not_or] at plain
  obtain ⟨plus, percent, -, -⟩ := plain
  exact decodeBytes.eq_4 c cs plus fun _ _ _ same => absurd same percent

theorem decodeBytes_byteSerialize (b : UInt8) (cs : List Char) :
    decodeBytes (byteSerialize b ++ cs) = b :: decodeBytes cs := by
  have small : b.toNat < 256 := b.toNat_lt
  unfold byteSerialize
  split
  · rename_i unchanged
    obtain ⟨bytes, plain⟩ := unchanged_spec b.toNat small (by simpa using unchanged)
    rw [List.cons_append, List.nil_append, decodeBytes_plain plain, bytes]
    simp
  · split
    · rename_i space
      rw [space]
      rfl
    · have high := (hexDigit_spec (b.toNat / 16) (by omega)).1
      have low := (hexDigit_spec (b.toNat % 16) (by omega)).1
      simp only [List.cons_append, List.nil_append, decodeBytes, high, low]
      rw [Nat.div_add_mod]
      simp

theorem not_mem_byteSerialize {c : Char} (separator : c ∈ ['&', '=']) (b : UInt8) :
    c ∉ byteSerialize b := by
  have small : b.toNat < 256 := b.toNat_lt
  unfold byteSerialize
  split
  · rename_i unchanged
    obtain ⟨-, plain⟩ := unchanged_spec b.toNat small (by simpa using unchanged)
    rintro mem
    obtain rfl := List.mem_singleton.mp mem
    simp_all
  · split
    · rintro mem
      obtain rfl := List.mem_singleton.mp mem
      simp at separator
    · have high := (hexDigit_spec (b.toNat / 16) (by omega)).2
      have low := (hexDigit_spec (b.toNat % 16) (by omega)).2
      rintro mem
      rcases List.mem_cons.mp mem with rfl | mem
      · simp at separator
      · rcases List.mem_pair.mp mem with rfl | rfl
        · exact high separator
        · exact low separator

/-! ### Texts -/

def encode (s : String) : List Char := s.toUTF8.data.toList.flatMap byteSerialize

/-- Bytes that are no UTF-8 are not read here. -/
def decode (cs : List Char) : Option String := String.fromUTF8? ⟨(decodeBytes cs).toArray⟩

theorem decodeBytes_encode (bytes : List UInt8) :
    decodeBytes (bytes.flatMap byteSerialize) = bytes := by
  induction bytes with
  | nil => rfl
  | cons b bytes ih => rw [List.flatMap_cons, decodeBytes_byteSerialize, ih]

theorem decode_encode (s : String) : decode (encode s) = some s := by
  rw [decode, encode, decodeBytes_encode]
  exact dif_pos s.isValidUTF8

theorem not_mem_encode {c : Char} (separator : c ∈ ['&', '=']) (s : String) : c ∉ encode s := by
  intro mem
  obtain ⟨b, -, mem⟩ := List.mem_flatMap.mp mem
  exact not_mem_byteSerialize separator b mem

/-! ### Pairs -/

def serializePair (pair : String × String) : List Char := encode pair.1 ++ '=' :: encode pair.2

def serialize (pairs : Params) : String :=
  String.ofList (['&'].intercalate (pairs.map serializePair))

/-- A name and a value, apart at the first `=`. -/
def parsePair (cs : List Char) : Option (String × String) := do
  let name ← decode (cs.takeWhile (· ≠ '='))
  let value ← decode ((cs.dropWhile (· ≠ '=')).drop 1)
  return (name, value)

def parse (s : String) : Option Params :=
  ((s.toList.splitOn '&').filter (· ≠ [])).mapM parsePair

theorem parsePair_serializePair (pair : String × String) :
    parsePair (serializePair pair) = some pair := by
  have name : ∀ c ∈ encode pair.1, decide (c ≠ '=') = true := fun c mem =>
    decide_eq_true fun same => not_mem_encode (by simp) pair.1 (same ▸ mem)
  have before : (serializePair pair).takeWhile (· ≠ '=') = encode pair.1 := by
    rw [serializePair, List.takeWhile_append_of_pos name]
    simp
  have after : (serializePair pair).dropWhile (· ≠ '=') = '=' :: encode pair.2 := by
    rw [serializePair, List.dropWhile_append_of_pos name]
    simp
  rw [parsePair, before, after, decode_encode, List.drop_one, List.tail_cons, decode_encode]
  rfl

theorem mapM_map {α β : Type} {f : α → β} {g : β → Option α} (inverse : ∀ a, g (f a) = some a)
    (xs : List α) : (xs.map f).mapM g = some xs := by
  induction xs with
  | nil => rfl
  | cons x xs ih => simp [inverse, ih]

/-- Reading undoes writing. -/
theorem parse_serialize (pairs : Params) : parse (serialize pairs) = some pairs := by
  have parts : ((['&'].intercalate (pairs.map serializePair)).splitOn '&').filter (· ≠ []) =
      pairs.map serializePair := by
    cases pairs with
    | nil => rfl
    | cons pair pairs =>
        rw [List.splitOn_intercalate '&' ?_ (by simp), List.filter_eq_self]
        · intro part mem
          obtain ⟨pair, -, rfl⟩ := List.mem_map.mp mem
          simp [serializePair]
        · intro part mem
          obtain ⟨pair, -, rfl⟩ := List.mem_map.mp mem
          simp [serializePair, not_mem_encode]
  rw [parse, serialize, String.toList_ofList, parts]
  exact mapM_map parsePair_serializePair pairs

end Xotero.FormUrlencoded
