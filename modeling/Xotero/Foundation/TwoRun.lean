import Mathlib.Data.List.Forall2
import Mathlib.Data.Option.Basic
import Xotero.Foundation.Txn

/-!
Two runs of a program that only reads, over states in which its statements
return related results: the two runs end in related results. `Q` are the
statements that may be issued, `R` relates their results.
-/

namespace Txn
variable {D : Interface} {α β γ δ : Type} {Q : D.Stmt → Prop}
  {R : (q : D.Stmt) → D.Result q → D.Result q → Prop} {S : α → β → Prop}

/-- The programs issue the same statements, as long as the results they see are
related, and then end in results related by `S`. -/
def Alike (Q : D.Stmt → Prop) (R : (q : D.Stmt) → D.Result q → D.Result q → Prop)
    (S : α → β → Prop) : Txn D α → Txn D β → Prop
  | .ret a, p' => ∃ b, p' = .ret b ∧ S a b
  | .fail, p' => p' = .fail
  | .query q next, p' => ∃ next', p' = .query q next' ∧ Q q ∧
      ∀ r r', R q r r' → Alike Q R S (next r) (next' r')

/-- The states answer the statements of `Q` alike. -/
def Twin (Q : D.Stmt → Prop) (R : (q : D.Stmt) → D.Result q → D.Result q → Prop)
    (s s' : D.State) : Prop :=
  ∀ q, Q q → R q (D.eval q s) (D.eval q s')

theorem alike_ret {a : α} {b : β} (h : S a b) : Alike Q R S (.ret a) (.ret b : Txn D β) :=
  ⟨b, rfl, h⟩

theorem alike_fail : Alike Q R S (.fail : Txn D α) .fail := rfl

theorem alike_stmt {q : D.Stmt} (h : Q q) : Alike Q R (R q) (stmt q) (stmt q) :=
  ⟨_, rfl, h, fun _ r' related => ⟨r', rfl, related⟩⟩

theorem alike_bind {T : γ → δ → Prop} {p : Txn D α} {p' : Txn D β} {f : α → Txn D γ}
    {f' : β → Txn D δ} (hp : Alike Q R S p p') (hf : ∀ a b, S a b → Alike Q R T (f a) (f' b)) :
    Alike Q R T (p >>= f) (p' >>= f') := by
  induction p generalizing p' with
  | ret a =>
      obtain ⟨b, rfl, related⟩ := hp
      exact hf a b related
  | fail =>
      rw [show p' = .fail from hp]
      exact alike_fail
  | query q next ih =>
      obtain ⟨next', rfl, issued, rest⟩ := hp
      exact ⟨_, rfl, issued, fun r r' related => ih r (rest r r' related)⟩

theorem alike_ite {c : Prop} [Decidable c] {p q : Txn D α} {p' q' : Txn D β}
    (hp : c → Alike Q R S p p') (hq : ¬ c → Alike Q R S q q') :
    Alike Q R S (if c then p else q) (if c then p' else q') := by
  by_cases h : c
  · rw [if_pos h, if_pos h]
    exact hp h
  · rw [if_neg h, if_neg h]
    exact hq h

theorem Alike.imp {S' : α → β → Prop} {p : Txn D α} {p' : Txn D β} (h : Alike Q R S p p')
    (weaker : ∀ a b, S a b → S' a b) : Alike Q R S' p p' := by
  induction p generalizing p' with
  | ret a =>
      obtain ⟨b, same, related⟩ := h
      exact ⟨b, same, weaker a b related⟩
  | fail => exact h
  | query q next ih =>
      obtain ⟨next', same, issued, rest⟩ := h
      exact ⟨next', same, issued, fun r r' related => ih r (rest r r' related)⟩

/-- Over states that answer alike, statement by statement, both runs end in
related results or both fail. -/
theorem Alike.replay {p : Txn D α} {p' : Txn D β} (h : Alike Q R S p p') {ss ss' : List D.State}
    (twins : List.Forall₂ (Twin Q R) ss ss') : Option.Rel S (p.replay ss) (p'.replay ss') := by
  induction p generalizing p' ss ss' with
  | ret a =>
      obtain ⟨b, rfl, related⟩ := h
      rw [replay_ret, replay_ret]
      exact .some related
  | fail =>
      rw [show p' = .fail from h]
      cases twins <;> exact .none
  | query q next ih =>
      obtain ⟨next', rfl, issued, rest⟩ := h
      cases twins with
      | nil => exact .none
      | cons twin twins => exact ih _ (rest _ _ (twin q issued)) twins

end Txn
