import Xotero.Foundation.Txn

/-!
What a program without a transaction can end with when each of its statements
sees a state of its own, as long as all of these states have a property.
-/

namespace Txn
variable {D : Interface} {α β : Type} {I : D.State → Prop}

/-- Over states with `I` the program ends in results with `Q` only. -/
def Views (I : D.State → Prop) (Q : α → Prop) : Txn D α → Prop
  | .ret a => Q a
  | .fail => True
  | .query q next => ∀ s, I s → (next (D.eval q s)).Views I Q

theorem views_bind {P : α → Prop} {Q : β → Prop} {p : Txn D α} {f : α → Txn D β}
    (hp : p.Views I P) (hf : ∀ a, P a → (f a).Views I Q) : (p >>= f).Views I Q := by
  induction p with
  | ret a => exact hf a hp
  | fail => trivial
  | query q next ih => exact fun s hs => ih _ (hp s hs)

theorem views_ite {c : Prop} [Decidable c] {Q : α → Prop} {p p' : Txn D α}
    (hp : c → p.Views I Q) (hp' : ¬ c → p'.Views I Q) : (if c then p else p').Views I Q := by
  split
  · exact hp ‹_›
  · exact hp' ‹_›

theorem Ends.views {Q : α → Prop} {p : Txn D α} (h : p.Ends Q) : p.Views I Q := by
  induction p with
  | ret a => exact h
  | fail => trivial
  | query q next ih => exact fun s _ => ih _ (h _)

/-- A step whose result is of no importance. -/
theorem views_bind_any {Q : β → Prop} {p : Txn D α} {f : α → Txn D β}
    (hf : ∀ a, (f a).Views I Q) : (p >>= f).Views I Q :=
  views_bind (Ends.views (ends_true p)) fun a _ => hf a

/-- What a replay over such states returned. -/
theorem Views.replay {Q : α → Prop} {p : Txn D α} (h : p.Views I Q) {ss : List D.State}
    (all : ∀ s ∈ ss, I s) {a : α} (run : p.replay ss = some a) : Q a := by
  induction p generalizing ss with
  | ret b =>
      rw [replay_ret] at run
      exact Option.some.inj run ▸ h
  | fail => cases ss <;> cases run
  | query q next ih =>
      cases ss with
      | nil => cases run
      | cons s ss =>
          exact ih _ (h s (all s (by simp))) (fun s' hs' => all s' (List.mem_cons_of_mem s hs')) run

end Txn
