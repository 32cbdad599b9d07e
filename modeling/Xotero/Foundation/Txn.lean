import Mathlib.Data.List.Basic
import Mathlib.Logic.Relation

/-!
Transaction programs over a database given only by its statements: what each
statement returns, which rows it writes and which row locks it takes. A program
is a tree of statements, so it can be run alone (`run`) or one statement at a
time among other clients. Writes are collected in a log that is applied at the
commit; a program reads the committed state overlaid with its own log.
-/

inductive LockMode where
  | share
  | update
  deriving DecidableEq

/-- A lock on one row, held until the transaction ends. -/
structure RowLock (ρ : Type) where
  row : ρ
  mode : LockMode
  deriving DecidableEq

def RowLock.Conflicts {ρ : Type} (l l' : RowLock ρ) : Prop :=
  l.row = l'.row ∧ (l.mode = .update ∨ l'.mode = .update)

instance {ρ : Type} [DecidableEq ρ] (l l' : RowLock ρ) : Decidable (l.Conflicts l') :=
  inferInstanceAs (Decidable (_ ∧ _))

theorem RowLock.Conflicts.symm {ρ : Type} {l l' : RowLock ρ} (h : l.Conflicts l') :
    l'.Conflicts l :=
  ⟨h.1.symm, h.2.symm⟩

/-- A database as its clients see it. `target` is the row whose update lock a
write needs, and `agree k` holds of two states in which everything that a lock
on `k` protects is the same. -/
structure Interface where
  State : Type
  Row : Type
  Write : Type
  Stmt : Type
  Result : Stmt → Type
  apply : Write → State → State
  eval : (q : Stmt) → State → Result q
  writes : Stmt → State → List Write
  locks : Stmt → State → List (RowLock Row)
  valid : State → Prop
  target : Write → Row
  agree : Row → State → State → Prop
  agree_equiv : ∀ k, Equivalence (agree k)
  agree_frame : ∀ {w k} s, target w ≠ k → agree k s (apply w s)
  agree_apply : ∀ w {k s s'}, agree k s s' → agree k (apply w s) (apply w s')

namespace Interface
variable (D : Interface)

def applyAll (log : List D.Write) (s : D.State) : D.State :=
  log.foldl (fun s w => D.apply w s) s

@[simp] theorem applyAll_nil (s : D.State) : D.applyAll [] s = s := rfl

@[simp] theorem applyAll_cons (w : D.Write) (log : List D.Write) (s : D.State) :
    D.applyAll (w :: log) s = D.applyAll log (D.apply w s) := rfl

theorem applyAll_append (log log' : List D.Write) (s : D.State) :
    D.applyAll (log ++ log') s = D.applyAll log' (D.applyAll log s) :=
  List.foldl_append

theorem agree_applyAll (log : List D.Write) {k : D.Row} {s s' : D.State}
    (h : D.agree k s s') : D.agree k (D.applyAll log s) (D.applyAll log s') := by
  induction log generalizing s s' with
  | nil => exact h
  | cons w log ih => exact ih (D.agree_apply w h)

/-- Writes aimed elsewhere leave what a lock protects as it was. -/
theorem agree_applyAll_frame {log : List D.Write} {k : D.Row} (s : D.State)
    (h : ∀ w ∈ log, D.target w ≠ k) : D.agree k s (D.applyAll log s) := by
  induction log generalizing s with
  | nil => exact (D.agree_equiv k).refl s
  | cons w log ih =>
      exact (D.agree_equiv k).trans (D.agree_frame s (h w (by simp)))
        (ih (D.apply w s) fun w' hw' => h w' (by simp [hw']))

end Interface

/-- `fail` is a statement that ends in an error the program hands on. -/
inductive Txn (D : Interface) (α : Type) where
  | ret (a : α)
  | fail
  | query (q : D.Stmt) (next : D.Result q → Txn D α)

/-- How a program ends: with its transaction committed, or dropped (rolled
back, or never begun). -/
inductive Ending (α : Type) where
  | commit (a : α)
  | drop (a : α)
  deriving DecidableEq

def Ending.map {α β : Type} (f : α → β) : Ending α → Ending β
  | .commit a => .commit (f a)
  | .drop a => .drop (f a)

namespace Txn
variable {D : Interface} {α β γ : Type}

def bind : Txn D α → (α → Txn D β) → Txn D β
  | .ret a, f => f a
  | .fail, _ => .fail
  | .query q next, f => .query q fun r => (next r).bind f

instance : Monad (Txn D) where
  pure := .ret
  bind := bind

/-- `if c { p }` -/
def when (c : Bool) (p : Txn D Unit) : Txn D Unit := if c then p else .ret ()

/-- One statement as a program. -/
def stmt (q : D.Stmt) : Txn D (D.Result q) := .query q .ret

@[simp] theorem pure_eq (a : α) : (pure a : Txn D α) = .ret a := rfl

@[simp] theorem ret_bind (a : α) (f : α → Txn D β) : Txn.ret a >>= f = f a := rfl

@[simp] theorem fail_bind (f : α → Txn D β) : Txn.fail >>= f = .fail := rfl

@[simp] theorem query_bind (q : D.Stmt) (next : D.Result q → Txn D α) (f : α → Txn D β) :
    Txn.query q next >>= f = .query q fun r => next r >>= f := rfl

@[simp] theorem stmt_bind (q : D.Stmt) (f : D.Result q → Txn D β) :
    stmt q >>= f = .query q f := rfl

theorem bind_assoc (p : Txn D α) (f : α → Txn D β) (g : β → Txn D γ) :
    p >>= f >>= g = p >>= fun a => f a >>= g := by
  induction p with
  | ret a | fail => rfl
  | query q next ih => exact congrArg (Txn.query q) (funext ih)

/-! Running alone -/

/-- The program run with nothing else going on: the state it leaves, with its
own writes in, and its result; `none` when a statement fails. -/
def run : Txn D α → D.State → Option (D.State × α)
  | .ret a, s => some (s, a)
  | .fail, _ => none
  | .query q next, s => (next (D.eval q s)).run (D.applyAll (D.writes q s) s)

@[simp] theorem run_ret (a : α) (s : D.State) : (Txn.ret a : Txn D α).run s = some (s, a) := rfl

@[simp] theorem run_fail (s : D.State) : (Txn.fail : Txn D α).run s = none := rfl

@[simp] theorem run_query (q : D.Stmt) (next : D.Result q → Txn D α) (s : D.State) :
    (Txn.query q next).run s = (next (D.eval q s)).run (D.applyAll (D.writes q s) s) := rfl

theorem run_bind (p : Txn D α) (f : α → Txn D β) (s : D.State) :
    (p >>= f).run s = (p.run s).bind fun r => (f r.2).run r.1 := by
  induction p generalizing s with
  | ret a | fail => rfl
  | query q next ih => exact ih _ _

theorem run_bind_eq_some {p : Txn D α} {f : α → Txn D β} {s : D.State} {r : D.State × β}
    (h : (p >>= f).run s = some r) : ∃ s' a, p.run s = some (s', a) ∧ (f a).run s' = some r := by
  rw [run_bind] at h
  cases hp : p.run s with
  | none => simp [hp] at h
  | some r' => exact ⟨r'.1, r'.2, rfl, by simpa [hp] using h⟩

theorem run_ite {c : Prop} [Decidable c] {p q : Txn D α} {s : D.State} {r : D.State × α}
    (h : (if c then p else q).run s = some r) :
    c ∧ p.run s = some r ∨ ¬ c ∧ q.run s = some r := by
  by_cases hc : c
  · exact .inl ⟨hc, by simpa [hc] using h⟩
  · exact .inr ⟨hc, by simpa [hc] using h⟩

theorem run_when {c : Bool} {p : Txn D Unit} {s s' : D.State} {u : Unit}
    (h : (when c p).run s = some (s', u)) :
    c = true ∧ p.run s = some (s', u) ∨ c = false ∧ s' = s := by
  cases c with
  | true => exact .inl ⟨rfl, h⟩
  | false => exact .inr ⟨rfl, (Prod.mk.inj (Option.some.inj h)).1.symm⟩

/-- Running alone and committing, or leaving the state untouched. -/
def atomically (p : Txn D (Ending α)) (s : D.State) : D.State × Option α :=
  match p.run s with
  | some (s', .commit a) => (s', some a)
  | some (_, .drop a) => (s, some a)
  | none => (s, none)

/-- The same run relative to a committed state `s` and a log of own writes:
what a transaction has collected when it ends. -/
def collect : Txn D α → List D.Write → D.State → Option (List D.Write × α)
  | .ret a, log, _ => some (log, a)
  | .fail, _, _ => none
  | .query q next, log, s =>
      (next (D.eval q (D.applyAll log s))).collect (log ++ D.writes q (D.applyAll log s)) s

theorem run_applyAll (p : Txn D α) (log : List D.Write) (s : D.State) :
    p.run (D.applyAll log s) = (p.collect log s).map fun r => (D.applyAll r.1 s, r.2) := by
  induction p generalizing log with
  | ret a | fail => rfl
  | query q next ih =>
      simp only [run_query, collect, ← ih, Interface.applyAll_append]

theorem run_of_collect {p : Txn D α} {log : List D.Write} {s : D.State} {a : α}
    (h : p.collect [] s = some (log, a)) : p.run s = some (D.applyAll log s, a) := by
  have := run_applyAll p [] s
  simpa only [Interface.applyAll_nil, h, Option.map_some] using this

/-- A program without a transaction: each statement reads the next of the given
states. For programs that only read. -/
def replay : Txn D α → List D.State → Option α
  | .ret a, _ => some a
  | .fail, _ => none
  | .query q next, s :: ss => (next (D.eval q s)).replay ss
  | .query _ _, [] => none

@[simp] theorem replay_ret (a : α) (ss : List D.State) :
    (Txn.ret a : Txn D α).replay ss = some a := by
  cases ss <;> rfl

@[simp] theorem replay_query (q : D.Stmt) (next : D.Result q → Txn D α) (s : D.State)
    (ss : List D.State) :
    (Txn.query q next).replay (s :: ss) = (next (D.eval q s)).replay ss := rfl

theorem replay_bind {p : Txn D α} {f : α → Txn D β} {ss : List D.State} {b : β}
    (h : (p >>= f).replay ss = some b) :
    ∃ ss₁ ss₂ a, ss = ss₁ ++ ss₂ ∧ p.replay ss₁ = some a ∧ (f a).replay ss₂ = some b := by
  induction p generalizing ss with
  | ret a => exact ⟨[], ss, a, rfl, rfl, h⟩
  | fail => cases ss <;> cases h
  | query q next ih =>
      cases ss with
      | nil => cases h
      | cons s ss =>
          obtain ⟨ss₁, ss₂, a, rfl, first, rest⟩ := ih _ h
          exact ⟨s :: ss₁, ss₂, a, rfl, first, rest⟩

/-! Programs confined to what some locks protect -/

/-- The states agree on everything that locks on the rows of `K` protect. -/
def AgreeOn (K : List D.Row) (s s' : D.State) : Prop := ∀ k ∈ K, D.agree k s s'

theorem agreeOn_applyAll {K : List D.Row} (log : List D.Write) {s s' : D.State}
    (h : AgreeOn K s s') : AgreeOn K (D.applyAll log s) (D.applyAll log s') :=
  fun k hk => D.agree_applyAll log (h k hk)

theorem AgreeOn.trans {K : List D.Row} {s s' s'' : D.State} (h : AgreeOn K s s')
    (h' : AgreeOn K s' s'') : AgreeOn K s s'' :=
  fun k hk => (D.agree_equiv k).trans (h k hk) (h' k hk)

/-- A statement that reads and writes only what locks on `K` protect. -/
structure ScopedStmt (D : Interface) (K : List D.Row) (q : D.Stmt) : Prop where
  eval_eq : ∀ {s s'}, AgreeOn K s s' → D.eval q s = D.eval q s'
  writes_eq : ∀ {s s'}, AgreeOn K s s' → D.writes q s = D.writes q s'
  target_mem : ∀ {s w}, w ∈ D.writes q s → D.target w ∈ K

theorem ScopedStmt.mono {K K' : List D.Row} {q : D.Stmt} (h : ScopedStmt D K q) (sub : K ⊆ K') :
    ScopedStmt D K' q where
  eval_eq agree := h.eval_eq fun k hk => agree k (sub hk)
  writes_eq agree := h.writes_eq fun k hk => agree k (sub hk)
  target_mem hw := sub (h.target_mem hw)

def Scoped (K : List D.Row) : Txn D α → Prop
  | .ret _ | .fail => True
  | .query q next => ScopedStmt D K q ∧ ∀ r, (next r).Scoped K

theorem scoped_bind {K : List D.Row} {p : Txn D α} {f : α → Txn D β} (hp : p.Scoped K)
    (hf : ∀ a, (f a).Scoped K) : (p >>= f).Scoped K := by
  induction p with
  | ret a => exact hf a
  | fail => trivial
  | query q next ih => exact ⟨hp.1, fun r => ih r (hp.2 r)⟩

/-- No statement of the program is among these. -/
def Avoids (S : D.Stmt → Prop) : Txn D α → Prop
  | .ret _ | .fail => True
  | .query q next => ¬ S q ∧ ∀ r, (next r).Avoids S

section Avoids
variable {S S' : D.Stmt → Prop}

theorem avoids_bind {p : Txn D α} {f : α → Txn D β} (hp : p.Avoids S)
    (hf : ∀ a, (f a).Avoids S) : (p >>= f).Avoids S := by
  induction p with
  | ret a => exact hf a
  | fail => trivial
  | query q next ih => exact ⟨hp.1, fun r => ih r (hp.2 r)⟩

theorem avoids_ite {c : Prop} [Decidable c] {p q : Txn D α} (hp : p.Avoids S)
    (hq : q.Avoids S) : (if c then p else q).Avoids S := by
  split
  · exact hp
  · exact hq

theorem avoids_when {c : Bool} {p : Txn D Unit} (hp : p.Avoids S) : (when c p).Avoids S := by
  cases c with
  | true => exact hp
  | false => trivial

theorem Avoids.mono {p : Txn D α} (h : p.Avoids S) (sub : ∀ q, S' q → S q) : p.Avoids S' := by
  induction p with
  | ret a | fail => trivial
  | query q next ih => exact ⟨fun bad => h.1 (sub q bad), fun r => ih r (h.2 r)⟩

end Avoids

/-- No statement of the program writes. -/
def ReadOnly : Txn D α → Prop
  | .ret _ | .fail => True
  | .query q next => (∀ s, D.writes q s = []) ∧ ∀ r, (next r).ReadOnly

theorem readOnly_bind {p : Txn D α} {f : α → Txn D β} (hp : p.ReadOnly)
    (hf : ∀ a, (f a).ReadOnly) : (p >>= f).ReadOnly := by
  induction p with
  | ret a => exact hf a
  | fail => trivial
  | query q next ih => exact ⟨hp.1, fun r => ih r (hp.2 r)⟩

theorem readOnly_ite {c : Prop} [Decidable c] {p q : Txn D α} (hp : p.ReadOnly)
    (hq : q.ReadOnly) : (if c then p else q).ReadOnly := by
  split
  · exact hp
  · exact hq

/-- Every write of the program is aimed at a row of `K`. -/
def Aims (K : List D.Row) : Txn D α → Prop
  | .ret _ | .fail => True
  | .query q next => (∀ s, ∀ w ∈ D.writes q s, D.target w ∈ K) ∧ ∀ r, (next r).Aims K

theorem aims_bind {K : List D.Row} {p : Txn D α} {f : α → Txn D β} (hp : p.Aims K)
    (hf : ∀ a, (f a).Aims K) : (p >>= f).Aims K := by
  induction p with
  | ret a => exact hf a
  | fail => trivial
  | query q next ih => exact ⟨hp.1, fun r => ih r (hp.2 r)⟩

theorem aims_ite {K : List D.Row} {c : Prop} [Decidable c] {p q : Txn D α} (hp : p.Aims K)
    (hq : q.Aims K) : (if c then p else q).Aims K := by
  split
  · exact hp
  · exact hq

theorem Scoped.aims {K : List D.Row} {p : Txn D α} (h : p.Scoped K) : p.Aims K := by
  induction p with
  | ret a | fail => trivial
  | query q next ih => exact ⟨fun _ _ hw => h.1.target_mem hw, fun r => ih r (h.2 r)⟩

theorem ReadOnly.aims {p : Txn D α} (h : p.ReadOnly) (K : List D.Row) : p.Aims K := by
  induction p with
  | ret a | fail => trivial
  | query q next ih => exact ⟨fun s w hw => by simp [h.1 s] at hw, fun r => ih r (h.2 r)⟩

/-- A run leaves alone what a lock on any other row protects. -/
theorem Aims.frame {K : List D.Row} {p : Txn D α} (h : p.Aims K) {k : D.Row} (other : k ∉ K)
    {s s' : D.State} {a : α} (run : p.run s = some (s', a)) : D.agree k s s' := by
  induction p generalizing s with
  | ret b =>
      obtain ⟨rfl, -⟩ := Prod.mk.inj (Option.some.inj run)
      exact (D.agree_equiv k).refl s
  | fail => cases run
  | query q next ih =>
      have first : D.agree k s (D.applyAll (D.writes q s) s) :=
        D.agree_applyAll_frame s fun w hw same => other (same ▸ h.1 s w hw)
      exact (D.agree_equiv k).trans first (ih _ (h.2 _) run)

/-- Every result the program can end with. -/
def Ends (P : α → Prop) : Txn D α → Prop
  | .ret a => P a
  | .fail => True
  | .query _ next => ∀ r, (next r).Ends P

theorem ends_bind {P : β → Prop} {Q : α → Prop} {p : Txn D α} {f : α → Txn D β}
    (hp : p.Ends Q) (hf : ∀ a, Q a → (f a).Ends P) : (p >>= f).Ends P := by
  induction p with
  | ret a => exact hf a hp
  | fail => trivial
  | query q next ih => exact fun r => ih r (hp r)

theorem ends_imp {P Q : α → Prop} {p : Txn D α} (h : p.Ends P) (imp : ∀ a, P a → Q a) :
    p.Ends Q := by
  induction p with
  | ret a => exact imp a h
  | fail => trivial
  | query q next ih => exact fun r => ih r (h r)

theorem ends_true (p : Txn D α) : p.Ends fun _ => True := by
  induction p with
  | ret a | fail => trivial
  | query q next ih => exact ih

theorem ends_of_run {P : α → Prop} {p : Txn D α} (hp : p.Ends P) {s s' : D.State} {a : α}
    (h : p.run s = some (s', a)) : P a := by
  induction p generalizing s with
  | ret b =>
      obtain ⟨-, rfl⟩ := Prod.mk.inj (Option.some.inj h)
      exact hp
  | fail => cases h
  | query q next ih => exact ih _ (hp _) h

end Txn
