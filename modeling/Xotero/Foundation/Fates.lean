import Xotero.Foundation.Processes

/-!
A process by itself, with what comes of its calls given in order: a statement or a call
takes effect and says so, or takes effect and fails, or only fails.
-/

inductive Fate where
  | done
  | lost
  | failed
  deriving DecidableEq

namespace Process
variable {D : Interface} {V : Service} {α β γ : Type}

/-- The states, with the number of calls made so far. -/
structure Standing (D : Interface) (V : Service) where
  calls : Nat
  state : D.State
  service : V.State

def Standing.query (σ : Standing D V) (q : D.Stmt) :
    Fate → Option (D.Result q) × Standing D V
  | .done => (some (D.eval q σ.state),
      ⟨σ.calls + 1, D.applyAll (D.writes q σ.state) σ.state, σ.service⟩)
  | .lost => (none, ⟨σ.calls + 1, D.applyAll (D.writes q σ.state) σ.state, σ.service⟩)
  | .failed => (none, { σ with calls := σ.calls + 1 })

def Standing.invoke (σ : Standing D V) (op : V.Op) : Fate → Bool × Standing D V
  | .done => (true, ⟨σ.calls + 1, σ.state, V.apply op σ.service⟩)
  | .lost => (false, ⟨σ.calls + 1, σ.state, V.apply op σ.service⟩)
  | .failed => (false, { σ with calls := σ.calls + 1 })

/-- What a process comes to when its calls come out as given. -/
def under (fate : Nat → Fate) : Process D V α → Standing D V → α × Standing D V
  | .ret a, σ => (a, σ)
  | .stmt q next, σ =>
      (next (σ.query q (fate σ.calls)).1).under fate (σ.query q (fate σ.calls)).2
  | .call op next, σ =>
      (next (σ.invoke op (fate σ.calls)).1).under fate
        (σ.invoke op (fate σ.calls)).2

theorem under_bind (fate : Nat → Fate) (p : Process D V α) (f : α → Process D V β)
    (σ : Standing D V) : (p >>= f).under fate σ =
      (f (p.under fate σ).1).under fate (p.under fate σ).2 := by
  induction p generalizing σ with
  | ret a => rfl
  | stmt q next ih => exact ih _ _
  | call op next ih => exact ih _ _

/-- A program without a transaction, when every statement succeeds. -/
theorem under_ofTxn {fate : Nat → Fate} (done : ∀ i, fate i = .done) {p : Txn D α} {s : D.State}
    {a : α} (σ : Standing D V) (run : p.run σ.state = some (s, a)) :
    ∃ calls, (ofTxn p).under fate σ = (some a, ⟨calls, s, σ.service⟩) := by
  induction p generalizing σ with
  | ret b =>
      obtain ⟨rfl, rfl⟩ := Prod.mk.inj (Option.some.inj run)
      exact ⟨σ.calls, rfl⟩
  | fail => cases run
  | query q next ih =>
      rw [ofTxn, under, done, Standing.query]
      exact ih _ ⟨σ.calls + 1, _, σ.service⟩ run

/-- No service changes the database. -/
@[simp] theorem Standing.invoke_state (σ : Standing D V) (op : V.Op) (fate : Fate) :
    (σ.invoke op fate).2.state = σ.state := by
  cases fate <;> rfl

@[simp] theorem Standing.invoke_calls (σ : Standing D V) (op : V.Op) (fate : Fate) :
    (σ.invoke op fate).2.calls = σ.calls + 1 := by
  cases fate <;> rfl

@[simp] theorem Standing.query_calls (σ : Standing D V) (q : D.Stmt) (fate : Fate) :
    (σ.query q fate).2.calls = σ.calls + 1 := by
  cases fate <;> rfl

/-- Calls are counted up. -/
theorem calls_le_under (fate : Nat → Fate) (p : Process D V α) (σ : Standing D V) :
    σ.calls ≤ (p.under fate σ).2.calls := by
  induction p generalizing σ with
  | ret a => exact Nat.le_refl _
  | stmt q next ih =>
      have step := ih (σ.query q (fate σ.calls)).1 (σ.query q (fate σ.calls)).2
      rw [Standing.query_calls] at step
      exact Nat.le_of_succ_le step
  | call op next ih =>
      have step := ih (σ.invoke op (fate σ.calls)).1 (σ.invoke op (fate σ.calls)).2
      rw [Standing.invoke_calls] at step
      exact Nat.le_of_succ_le step

end Process
