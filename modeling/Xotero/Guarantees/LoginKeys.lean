import Xotero.Guarantees.Enrollment
import Xotero.Handlers.LoginKey

/-!
What a login key is: the first 24 bytes below 231 of the blocks put end to end,
each reduced to a letter. No key is favoured among the sequences of such bytes.
-/

namespace Xotero

open Draws Fibers

/-- The bytes below 231 of the first `n` blocks. -/
def loginAccepted (site : LoginSite) (sessionToken : String) (n : Nat) : List UInt8 :=
  accepted (· < 231) (loginBlock site sessionToken) n

section Derivation
variable {site : LoginSite} {sessionToken : String}

theorem length_loginAccepted_mono {n m : Nat} (le : n ≤ m) :
    (loginAccepted site sessionToken n).length ≤ (loginAccepted site sessionToken m).length :=
  length_accepted_mono _ _ le

/-- The first 24 accepted bytes do not depend on how many blocks are looked at. -/
theorem take_loginAccepted {n m : Nat} (enough : 24 ≤ (loginAccepted site sessionToken n).length)
    (enough' : 24 ≤ (loginAccepted site sessionToken m).length) :
    (loginAccepted site sessionToken n).take 24 = (loginAccepted site sessionToken m).take 24 := by
  rcases Nat.le_total n m with le | ge
  · exact (take_accepted _ _ le enough).symm
  · exact take_accepted _ _ ge enough'

/-- The letters of the first `n` blocks, as far as the loop takes them. -/
def takenLetters (site : LoginSite) (sessionToken : String) (n : Nat) : List Char :=
  ((loginAccepted site sessionToken n).take 24).map loginLetter

theorem length_takenLetters (n : Nat) : (takenLetters site sessionToken n).length =
    min 24 (loginAccepted site sessionToken n).length := by
  rw [takenLetters, List.length_map, List.length_take]

theorem takenLetters_of_short {n : Nat} (short : (takenLetters site sessionToken n).length < 24) :
    (loginAccepted site sessionToken n).length < 24 ∧
      takenLetters site sessionToken n = (loginAccepted site sessionToken n).map loginLetter := by
  rw [length_takenLetters] at short
  have needs : (loginAccepted site sessionToken n).length < 24 := by omega
  exact ⟨needs, by rw [takenLetters, List.take_of_length_le (by omega)]⟩

theorem pushKeyChars_takenLetters {n : Nat}
    (short : (takenLetters site sessionToken n).length < 24) :
    pushKeyChars (takenLetters site sessionToken n) (loginBlock site sessionToken n) =
      takenLetters site sessionToken (n + 1) := by
  obtain ⟨needs, all⟩ := takenLetters_of_short short
  rw [pushKeyChars_eq_draw, all]
  exact draw_block _ loginLetter 24 needs

/-- Once the letters suffice they stay the same. -/
theorem takenLetters_of_full {n m : Nat} (full : ¬ (takenLetters site sessionToken n).length < 24)
    (le : n ≤ m) : takenLetters site sessionToken m = takenLetters site sessionToken n := by
  rw [length_takenLetters] at full
  have enough : 24 ≤ (loginAccepted site sessionToken n).length := by omega
  exact congrArg (List.map loginLetter) (take_accepted _ _ le enough)

/-- From any block on, the loop ends with the letters of the stream. -/
theorem LoginLoop.run_takenLetters {turns n : Nat} {l : LoginLoop} (counted : l.counter.toNat = n)
    (taken : l.key = takenLetters site sessionToken n) (below : n + turns < 2 ^ 32)
    (enough : 24 ≤ (loginAccepted site sessionToken (n + turns)).length) :
    ∃ l', l.run site sessionToken turns = some l' ∧
      l'.key = takenLetters site sessionToken (n + turns) := by
  induction turns generalizing n l with
  | zero =>
      have full : ¬ l.key.length < 24 := by
        rw [taken, length_takenLetters]
        rw [Nat.add_zero] at enough
        omega
      exact ⟨l, LoginLoop.run_of_full full 0, taken⟩
  | succ turns ih =>
      by_cases short : l.key.length < 24
      · obtain ⟨l₁, turned⟩ := @LoginLoop.turn_of_below site sessionToken l (by omega)
        obtain ⟨key, counter⟩ := LoginLoop.turn_cases turned
        rw [taken] at short
        rw [counted, taken, pushKeyChars_takenLetters short] at key
        rw [counted] at counter
        have next : n + (turns + 1) = n + 1 + turns := by omega
        rw [next] at below enough ⊢
        obtain ⟨l', rest, spelled⟩ := ih counter key below enough
        refine ⟨l', ?_, spelled⟩
        rw [LoginLoop.run_of_short (taken ▸ short), turned]
        exact rest
      · refine ⟨l, LoginLoop.run_of_full short _, ?_⟩
        rw [taken] at short ⊢
        exact (takenLetters_of_full short (Nat.le_add_right n _)).symm

/-- The loop of the tests has all the letters of its blocks, and cuts the key from
the same stream. -/
theorem scriptKey_flat {turns n : Nat}
    (enough : 24 ≤ (loginAccepted site sessionToken (n + turns)).length) :
    scriptKey site sessionToken turns n ((loginAccepted site sessionToken n).map loginLetter) =
      some (String.ofList (takenLetters site sessionToken (n + turns))) := by
  induction turns generalizing n with
  | zero =>
      rw [Nat.add_zero] at enough ⊢
      rw [scriptKey, List.length_map, if_neg (Nat.not_lt.mpr enough), ← List.map_take]
      rfl
  | succ turns ih =>
      rw [scriptKey, List.length_map]
      have next : n + (turns + 1) = n + 1 + turns := by omega
      split
      · have extended : (loginAccepted site sessionToken (n + 1)).map loginLetter = _ :=
          congrArg (List.map loginLetter) (accepted_succ _ (loginBlock site sessionToken) n)
        rw [List.map_append] at extended
        rw [next] at enough ⊢
        rw [← ih enough, extended]
        rfl
      · rename_i full
        have same := @takenLetters_of_full site sessionToken n (n + (turns + 1))
          (by rw [length_takenLetters]; omega) (Nat.le_add_right n _)
        rw [same, takenLetters, List.map_take]

/-- From the start on: as long as the blocks of so many turns have 24 accepted bytes,
the loop ends with the key that the first 24 spell, however many blocks are looked at. -/
theorem LoginLoop.run_start {turns : Nat} (below : turns < 2 ^ 32)
    (enough : 24 ≤ (loginAccepted site sessionToken turns).length) :
    ∃ l, LoginLoop.start.run site sessionToken turns = some l ∧
      loginApiKey site sessionToken = some (String.ofList l.key) ∧
      ∀ n, 24 ≤ (loginAccepted site sessionToken n).length →
        String.ofList l.key = spelledKey ((loginAccepted site sessionToken n).take 24) := by
  obtain ⟨l, run, spelled⟩ := @LoginLoop.run_takenLetters site sessionToken turns 0
    LoginLoop.start rfl rfl (by omega) (by rwa [Nat.zero_add])
  rw [Nat.zero_add] at spelled
  refine ⟨l, run, loginApiKey_of_run (Nat.le_of_lt below) run, fun n enough' => ?_⟩
  rw [spelled, takenLetters, take_loginAccepted enough enough']
  rfl

/-- The tests derive the key that the server hands out. -/
theorem scriptKey_eq {turns : Nat} (below : turns < 2 ^ 32)
    (enough : 24 ≤ (loginAccepted site sessionToken turns).length) :
    scriptKey site sessionToken turns 0 [] = loginApiKey site sessionToken := by
  obtain ⟨l, -, derived, flat⟩ := LoginLoop.run_start below enough
  have script := @scriptKey_flat site sessionToken turns 0 (by rwa [Nat.zero_add])
  rw [Nat.zero_add] at script
  rw [derived, flat turns enough]
  exact script

end Derivation

/-! ### Preimages -/

def acceptedEquiv : {byte : UInt8 // byte < 231} ≃ Fin 231 where
  toFun byte := ⟨byte.1.toNat, UInt8.lt_iff_toNat_lt.mp byte.2⟩
  invFun i := ⟨.ofNat i, UInt8.lt_iff_toNat_lt.mpr (by
    rw [UInt8.toNat_ofNat', Nat.mod_eq_of_lt (by omega)]
    exact i.2)⟩
  left_inv byte := Subtype.ext (UInt8.ofNat_toNat)
  right_inv i := Fin.ext (by
    change (UInt8.ofNat i).toNat = i
    rw [UInt8.toNat_ofNat', Nat.mod_eq_of_lt (by omega)])

/-- A key of 24 letters. -/
abbrev LoginKey := {key : String // key.toList.length = 24 ∧ ∀ c ∈ key.toList, c ∈ loginAlphabet}

theorem loginAlphabet_nodup : loginAlphabet.Nodup := by decide

theorem card_loginKey : Nat.card LoginKey = 33 ^ 24 :=
  (Nat.card_congr (textEquiv.subtypeEquiv fun _ => Iff.rfl)).trans
    (card_words loginAlphabet_nodup 24)

/-- Every key is spelled by equally many sequences of accepted bytes. -/
theorem loginKey_preimages (key : LoginKey) :
    fiberCard (fun bytes : Fin 24 → {byte : UInt8 // byte < 231} =>
      spelledKey (List.ofFn fun i => (bytes i).1)) key.1 = 7 ^ 24 := by
  have spelled (bytes : Fin 24 → {byte : UInt8 // byte < 231}) :
      spelledKey (List.ofFn fun i => (bytes i).1) = textEquiv.symm ((List.ofFn bytes).map
        fun byte => drawLetter loginAlphabet (by decide) (acceptedEquiv byte)) := by
    rw [spelledKey, List.map_ofFn, List.map_ofFn]
    rfl
  have same := fiberCard_injective textEquiv.symm.injective
    (fun bytes : Fin 24 → {byte : UInt8 // byte < 231} => (List.ofFn bytes).map
      fun byte => drawLetter loginAlphabet (by decide) (acceptedEquiv byte)) key.1.toList
  have back : textEquiv.symm key.1.toList = key.1 := textEquiv.symm_apply_apply key.1
  rw [back, fiberCard_drawWord (by decide) loginAlphabet_nodup acceptedEquiv key.2.1 key.2.2]
    at same
  simp only [spelled, same]
  have fair : favoured 231 loginAlphabet = [] := by decide
  have none : key.1.toList.countP (· ∈ favoured 231 loginAlphabet) = 0 := by
    rw [fair]
    exact List.countP_eq_zero.mpr fun c _ => by simp
  rw [none]
  rfl

/-- A login key is what the first 24 bytes below 231 of the blocks spell, if there
are so many before the counter overflows; and all keys have as many sources. -/
theorem loginApiKey_flat (site : LoginSite) (sessionToken : String)
    (enough : 24 ≤ (loginAccepted site sessionToken (2 ^ 32 - 1)).length) :
    (∃ l, LoginLoop.start.run site sessionToken (2 ^ 32 - 1) = some l ∧
      loginApiKey site sessionToken = some (String.ofList l.key) ∧
      ∀ n, 24 ≤ (loginAccepted site sessionToken n).length →
        String.ofList l.key = spelledKey ((loginAccepted site sessionToken n).take 24)) ∧
    Nat.card LoginKey = 33 ^ 24 ∧
    ∀ key : LoginKey, fiberCard (fun bytes : Fin 24 → {byte : UInt8 // byte < 231} =>
      spelledKey (List.ofFn fun i => (bytes i).1)) key.1 = 7 ^ 24 :=
  ⟨LoginLoop.run_start (by decide) enough, card_loginKey, loginKey_preimages⟩

/-- A token whose first block has one byte too few. -/
def longToken : String := "0000000000000000000000000000038a"

/-- The first block and the next. -/
def longSite : LoginSite :=
  { demoSite with
    hmac := fun _ message =>
      if message.getLast? = some 0 then
        [240, 129, 117, 254, 102, 247, 67, 232, 194, 243, 96, 166, 221, 218, 192, 235, 207, 123,
          39, 207, 37, 249, 40, 58, 12, 75, 232, 158, 46, 32, 228, 252]
      else
        [134, 102, 25, 85, 143, 219, 46, 47, 80, 108, 155, 227, 74, 48, 199, 249, 74, 77, 45, 82,
          135, 32, 183, 76, 89, 78, 62, 236, 181, 105, 131, 162] }

theorem getLast?_loginKeyMessage (sessionToken : String) (counter : Nat) :
    (loginKeyMessage sessionToken counter).getLast? = some (UInt8.ofNat counter) := by
  simp [loginKeyMessage, bigEndian]

theorem loginAccepted_long : loginAccepted longSite longToken 2 =
    [129, 117, 102, 67, 194, 96, 166, 221, 218, 192, 207, 123, 39, 207, 37, 40, 58, 12, 75, 158,
      46, 32, 228] ++
    [134, 102, 25, 85, 143, 219, 46, 47, 80, 108, 155, 227, 74, 48, 199, 74, 77, 45, 82, 135, 32,
      183, 76, 89, 78, 62, 181, 105, 131, 162] := by
  have blocks : stream (loginBlock longSite longToken) 2 =
      loginBlock longSite longToken 0 ++ loginBlock longSite longToken 1 := by
    simp [stream, List.range_succ]
  rw [loginAccepted, accepted, blocks]
  simp only [loginBlock, longSite, getLast?_loginKeyMessage]
  decide

theorem loginApiKey_flat_long :
    loginApiKey longSite longToken = some "XK53WX3QMUBR8B69SEBTFZX4" := by
  have enough : 24 ≤ (loginAccepted longSite longToken 2).length := by
    rw [loginAccepted_long]
    decide
  obtain ⟨⟨l, -, derived, flat⟩, -⟩ := loginApiKey_flat longSite longToken
    (enough.trans (length_loginAccepted_mono (by decide)))
  rw [derived, flat 2 enough, loginAccepted_long]
  decide

end Xotero
