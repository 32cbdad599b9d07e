import Xotero.Foundation.Fibers
import Xotero.Foundation.Rejection
import Xotero.Handlers.Login

/-!
The derivation of a login key turn by turn, with its counter: an `u32` that is
increased after every block, the last one too. Beside it the derivation that the
tests make for themselves, which takes whole blocks and cuts the key afterwards.
-/

namespace Xotero

open Draws Fibers

/-- The bytes of one block. -/
def loginBlock (site : LoginSite) (sessionToken : String) (counter : Nat) : List UInt8 :=
  site.hmac site.loginKdfKey (loginKeyMessage sessionToken counter)

/-- The variables of the loop in `login_api_key`. -/
structure LoginLoop where
  key : List Char
  counter : UInt32

namespace LoginLoop
variable (site : LoginSite) (sessionToken : String)

def start : LoginLoop := ⟨[], 0⟩

/-- The body of the loop; `none` when `counter += 1` overflows. -/
def turn (l : LoginLoop) : Option LoginLoop :=
  let key := pushKeyChars l.key (loginBlock site sessionToken l.counter.toNat)
  if l.counter.toNat + 1 < 2 ^ 32 then some ⟨key, l.counter + 1⟩ else none

/-- The loop, if it ends within so many turns and none of them overflows. -/
def run : Nat → LoginLoop → Option LoginLoop
  | 0, l => if l.key.length < 24 then none else some l
  | turns + 1, l =>
      if l.key.length < 24 then (l.turn site sessionToken).bind (run turns) else some l

variable {site : LoginSite} {sessionToken : String}

theorem turn_cases {l l' : LoginLoop} (h : l.turn site sessionToken = some l') :
    l'.key = pushKeyChars l.key (loginBlock site sessionToken l.counter.toNat) ∧
      l'.counter.toNat = l.counter.toNat + 1 := by
  rw [turn] at h
  split at h
  · rename_i below
    obtain rfl := Option.some.inj h
    refine ⟨rfl, ?_⟩
    rw [UInt32.toNat_add]
    exact Nat.mod_eq_of_lt below
  · cases h

theorem turn_of_below {l : LoginLoop} (below : l.counter.toNat + 1 < 2 ^ 32) :
    ∃ l', l.turn site sessionToken = some l' :=
  ⟨_, if_pos below⟩

theorem run_of_full {l : LoginLoop} (full : ¬ l.key.length < 24) (turns : Nat) :
    run site sessionToken turns l = some l := by
  cases turns <;> exact if_neg full

theorem run_of_short {l : LoginLoop} (short : l.key.length < 24) (turns : Nat) :
    run site sessionToken (turns + 1) l =
      (l.turn site sessionToken).bind (run site sessionToken turns) :=
  if_pos short

end LoginLoop

section Derivation
variable {site : LoginSite} {sessionToken : String}

/-- What the loop ends with is what the handlers use. -/
theorem loginApiKeyFrom_of_run {turns blocks : Nat} {l l' : LoginLoop}
    (short : l.key.length < 24) (h : l.run site sessionToken turns = some l')
    (le : turns ≤ blocks) :
    loginApiKeyFrom site sessionToken blocks l.counter.toNat l.key =
      some (String.ofList l'.key) := by
  induction turns generalizing l blocks with
  | zero => cases (if_pos short).symm.trans h
  | succ turns ih =>
      rw [LoginLoop.run_of_short short] at h
      obtain ⟨l₁, turned, rest⟩ := Option.bind_eq_some_iff.mp h
      obtain ⟨key, counter⟩ := LoginLoop.turn_cases turned
      cases blocks with
      | zero => exact absurd le (Nat.not_succ_le_zero turns)
      | succ blocks =>
          have again : loginApiKeyFrom site sessionToken (blocks + 1) l.counter.toNat l.key =
              if l₁.key.length < 24 then
                loginApiKeyFrom site sessionToken blocks l₁.counter.toNat l₁.key
              else some (String.ofList l₁.key) := by
            rw [key, counter]
            rfl
          rw [again]
          by_cases more : l₁.key.length < 24
          · rw [if_pos more]
            exact ih more rest (Nat.le_of_succ_le_succ le)
          · rw [if_neg more]
            rw [LoginLoop.run_of_full more] at rest
            rw [Option.some.inj rest]

theorem loginApiKey_of_run {turns : Nat} {l : LoginLoop} (atMost : turns ≤ 2 ^ 32)
    (h : LoginLoop.start.run site sessionToken turns = some l) :
    loginApiKey site sessionToken = some (String.ofList l.key) :=
  loginApiKeyFrom_of_run (l := LoginLoop.start) (by decide) h atMost

end Derivation

/-! The key that the accepted bytes spell -/

/-- The letter of an accepted byte. -/
def loginLetter (byte : UInt8) : Char := drawLetter loginAlphabet (by decide) byte.toNat

def spelledKey (bytes : List UInt8) : String := String.ofList (bytes.map loginLetter)

theorem pushKeyChars_eq_draw (key : List Char) (bytes : List UInt8) :
    pushKeyChars key bytes = draw (· < 231) loginLetter 24 key bytes := by
  induction bytes generalizing key with
  | nil => rfl
  | cons byte bytes ih =>
      simp only [pushKeyChars, draw, decide_eq_true_eq, ih]
      rfl

/-- The loop of the tests: whole blocks, and the key is cut from what they give. -/
def scriptKey (site : LoginSite) (sessionToken : String) : Nat → Nat → List Char → Option String
  | 0, _, key => if key.length < 24 then none else some (String.ofList (key.take 24))
  | turns + 1, counter, key =>
      if key.length < 24 then
        scriptKey site sessionToken turns (counter + 1)
          (key ++ ((loginBlock site sessionToken counter).filter (· < 231)).map loginLetter)
      else some (String.ofList (key.take 24))

end Xotero
