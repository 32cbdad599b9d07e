import Xotero.Foundation.Txn

/-!
Programs that only read, run in turn and without a transaction: every statement
sees a state of its own. A counter that never falls, and that stands still only
while nothing in question changes, is enough to tell that all of them were
answered from one state: the first program shows the counter its first statement
read, the last one the counter its last statement read, and the two are equal.
-/

namespace Txn
variable {D : Interface} {α β : Type}

/-- Over states that agree on all it looks at, a replay is a run in one of them. -/
theorem run_of_replay {K : List D.Row} {p : Txn D α} (inside : p.Scoped K) (reads : p.ReadOnly)
    {s : D.State} {ss : List D.State} {a : α} (same : ∀ t ∈ ss, AgreeOn K s t)
    (replayed : p.replay ss = some a) : p.run s = some (s, a) := by
  induction p generalizing ss with
  | ret b =>
      rw [replay_ret] at replayed
      exact congrArg (Option.map fun a => (s, a)) replayed
  | fail => cases ss <;> cases replayed
  | query q next ih =>
      cases ss with
      | nil => cases replayed
      | cons t ss =>
          have value : D.eval q s = D.eval q t := inside.1.eval_eq (same t (by simp))
          rw [run_query, reads.1 s, Interface.applyAll_nil, value]
          exact ih _ (inside.2 _) (reads.2 _)
            (fun u hu => same u (List.mem_cons_of_mem t hu)) replayed

/-- A replay that also says which states it did not read. -/
def consume : Txn D α → List D.State → Option (α × List D.State)
  | .ret a, ss => some (a, ss)
  | .fail, _ => none
  | .query q next, s :: ss => (next (D.eval q s)).consume ss
  | .query _ _, [] => none

@[simp] theorem consume_ret (a : α) (ss : List D.State) :
    (Txn.ret a : Txn D α).consume ss = some (a, ss) := by
  cases ss <;> rfl

theorem replay_eq_consume (p : Txn D α) (ss : List D.State) :
    p.replay ss = (p.consume ss).map Prod.fst := by
  induction p generalizing ss with
  | ret a => cases ss <;> rfl
  | fail => cases ss <;> rfl
  | query q next ih =>
      cases ss with
      | nil => rfl
      | cons s ss => exact ih _ ss

theorem consume_bind (p : Txn D α) (f : α → Txn D β) (ss : List D.State) :
    (p >>= f).consume ss = (p.consume ss).bind fun r => (f r.1).consume r.2 := by
  induction p generalizing ss with
  | ret a => rw [ret_bind, consume_ret, Option.bind_some]
  | fail => cases ss <;> rfl
  | query q next ih =>
      cases ss with
      | nil => rfl
      | cons s ss => exact ih _ ss

/-- What was not read had no part in the result. -/
theorem consume_split {p : Txn D α} {ss rest : List D.State} {a : α}
    (h : p.consume ss = some (a, rest)) :
    ∃ used, ss = used ++ rest ∧ ∀ rest', p.consume (used ++ rest') = some (a, rest') := by
  induction p generalizing ss with
  | ret b =>
      rw [consume_ret] at h
      obtain ⟨rfl, rfl⟩ := Prod.mk.inj (Option.some.inj h)
      exact ⟨[], rfl, fun rest' => consume_ret b rest'⟩
  | fail => cases ss <;> cases h
  | query q next ih =>
      cases ss with
      | nil => cases h
      | cons s ss =>
          obtain ⟨used, split, again⟩ := ih _ h
          exact ⟨s :: used, congrArg (s :: ·) split, again⟩

theorem Ends.consume {P : α → Prop} {p : Txn D α} (h : p.Ends P) {ss rest : List D.State} {a : α}
    (consumed : p.consume ss = some (a, rest)) : P a := by
  induction p generalizing ss with
  | ret b =>
      rw [consume_ret] at consumed
      obtain ⟨rfl, -⟩ := Prod.mk.inj (Option.some.inj consumed)
      exact h
  | fail => cases ss <;> cases consumed
  | query q next ih =>
      cases ss with
      | nil => cases consumed
      | cons s ss => exact ih _ (h _) consumed

/-! ### One program after the other -/

def inTurn : List (Txn D α) → Txn D (List α)
  | [] => .ret []
  | p :: ps => do
      let a ← p
      let rest ← inTurn ps
      return a :: rest

theorem scoped_inTurn {K : List D.Row} {ps : List (Txn D α)} (h : ∀ p ∈ ps, p.Scoped K) :
    (inTurn ps).Scoped K := by
  induction ps with
  | nil => trivial
  | cons p ps ih =>
      refine scoped_bind (h p (by simp)) fun a => scoped_bind ?_ fun _ => trivial
      exact ih fun q hq => h q (List.mem_cons_of_mem p hq)

theorem readOnly_inTurn {ps : List (Txn D α)} (h : ∀ p ∈ ps, p.ReadOnly) :
    (inTurn ps).ReadOnly := by
  induction ps with
  | nil => trivial
  | cons p ps ih =>
      refine readOnly_bind (h p (by simp)) fun a => readOnly_bind ?_ fun _ => trivial
      exact ih fun q hq => h q (List.mem_cons_of_mem p hq)

theorem consume_inTurn_cons {p : Txn D α} {ps : List (Txn D α)} {ss rest : List D.State}
    {as : List α} (h : (inTurn (p :: ps)).consume ss = some (as, rest)) :
    ∃ a as' mid, as = a :: as' ∧ p.consume ss = some (a, mid) ∧
      (inTurn ps).consume mid = some (as', rest) := by
  rw [inTurn, consume_bind, Option.bind_eq_some_iff] at h
  obtain ⟨⟨a, mid⟩, first, h⟩ := h
  rw [consume_bind, Option.bind_eq_some_iff] at h
  obtain ⟨⟨as', rest'⟩, others, h⟩ := h
  rw [pure_eq, consume_ret] at h
  obtain ⟨rfl, rfl⟩ := Prod.mk.inj (Option.some.inj h)
  exact ⟨a, as', mid, rfl, first, others⟩

theorem ReadOnly.unchanged {p : Txn D α} (h : p.ReadOnly) {s s' : D.State} {a : α}
    (run : p.run s = some (s', a)) : s' = s := by
  induction p generalizing s with
  | ret b => exact (Prod.mk.inj (Option.some.inj run)).1.symm
  | fail => cases run
  | query q next ih =>
      rw [run_query, h.1 s, Interface.applyAll_nil] at run
      exact ih _ (h.2 _) run

/-- A run of all of them answers each as a run of its own. -/
theorem run_inTurn {ps : List (Txn D α)} (reads : ∀ p ∈ ps, p.ReadOnly) {s s' : D.State}
    {as : List α} (h : (inTurn ps).run s = some (s', as)) :
    List.Forall₂ (fun p a => p.run s = some (s, a)) ps as := by
  induction ps generalizing as with
  | nil =>
      obtain ⟨-, rfl⟩ := Prod.mk.inj (Option.some.inj h)
      exact .nil
  | cons p ps ih =>
      obtain ⟨t, a, first, tail⟩ := run_bind_eq_some h
      obtain rfl := (reads p (by simp)).unchanged first
      obtain ⟨t', as', others, last⟩ := run_bind_eq_some tail
      obtain ⟨rfl, rfl⟩ := Prod.mk.inj (Option.some.inj last)
      exact .cons first (ih (fun q hq => reads q (List.mem_cons_of_mem p hq)) others)

/-! ### Counters shown -/

section Counter
variable {v : D.State → Int} {shown : α → Option Int}

/-- The result shows the counter of the state the first statement reads. -/
def Opens (v : D.State → Int) (shown : α → Option Int) (p : Txn D α) : Prop :=
  ∀ ss a rest, p.consume ss = some (a, rest) → ∃ s tail, ss = s :: tail ∧ shown a = some (v s)

/-- The result shows the counter of the state the last statement reads. -/
def Closes (v : D.State → Int) (shown : α → Option Int) (p : Txn D α) : Prop :=
  ∀ ss a rest, p.consume ss = some (a, rest) →
    ∃ before s, ss = before ++ s :: rest ∧ shown a = some (v s)

theorem opens_query {q : D.Stmt} {next : D.Result q → Txn D α}
    (h : ∀ s, (next (D.eval q s)).Ends fun a => shown a = some (v s)) :
    (Txn.query q next).Opens v shown := by
  intro ss a rest consumed
  cases ss with
  | nil => cases consumed
  | cons s ss => exact ⟨s, ss, rfl, (h s).consume consumed⟩

theorem closes_bind {p : Txn D β} {f : β → Txn D α} (h : ∀ b, (f b).Closes v shown) :
    (p >>= f).Closes v shown := by
  intro ss a rest consumed
  rw [consume_bind, Option.bind_eq_some_iff] at consumed
  obtain ⟨⟨b, mid⟩, first, last⟩ := consumed
  obtain ⟨used, rfl, -⟩ := consume_split first
  obtain ⟨before, s, rfl, shows⟩ := h b mid a rest last
  exact ⟨used ++ before, s, by simp, shows⟩

theorem closes_inTurn {ps : List (Txn D α)} {last : Txn D α} (closes : last.Closes v shown) :
    (inTurn (ps ++ [last])).Closes v fun as => as.getLast?.bind shown := by
  induction ps with
  | nil =>
      intro ss as rest consumed
      obtain ⟨a, as', mid, rfl, first, others⟩ := consume_inTurn_cons consumed
      rw [inTurn, consume_ret] at others
      obtain ⟨rfl, rfl⟩ := Prod.mk.inj (Option.some.inj others)
      exact closes ss a mid first
  | cons p ps ih =>
      intro ss as rest consumed
      obtain ⟨a, as', mid, rfl, first, others⟩ := consume_inTurn_cons consumed
      obtain ⟨used, rfl, -⟩ := consume_split first
      obtain ⟨before, s, rfl, shows⟩ := ih mid as' rest others
      refine ⟨used ++ before, s, by simp, ?_⟩
      cases as' with
      | nil => cases shows
      | cons b bs => exact (congrArg (·.bind shown) List.getLast?_cons_cons).trans shows

/-- Programs that were answered, with equal counters shown by the first and the
last, were all answered from one state. -/
theorem snapshot_of_replay {K : List D.Row} {R : D.State → D.State → Prop}
    (grows : ∀ s t, R s t → v s ≤ v t) (still : ∀ s t, R s t → v s = v t → AgreeOn K s t)
    {first last : Txn D α} {ps : List (Txn D α)} (opens : first.Opens v shown)
    (closes : last.Closes v shown) (inside : ∀ p ∈ first :: ps ++ [last], p.Scoped K)
    (reads : ∀ p ∈ first :: ps ++ [last], p.ReadOnly) {ss : List D.State}
    (ordered : ss.Pairwise R) {as : List α}
    (replayed : (inTurn (first :: ps ++ [last])).replay ss = some as)
    (same : as.head?.bind shown = as.getLast?.bind shown) :
    ∃ s ∈ ss, as.head?.bind shown = some (v s) ∧
      (inTurn (first :: ps ++ [last])).run s = some (s, as) := by
  rw [replay_eq_consume, Option.map_eq_some_iff] at replayed
  obtain ⟨⟨_, rest⟩, consumed, rfl⟩ := replayed
  obtain ⟨a, as', mid, rfl, head, others⟩ := consume_inTurn_cons consumed
  obtain ⟨s, tail, rfl, shows⟩ := opens ss a mid head
  obtain ⟨before, t, split, shows'⟩ := closes_inTurn closes (s :: tail) (a :: as') rest consumed
  obtain ⟨used, split', again⟩ := consume_split consumed
  obtain rfl : used = before ++ [t] := by
    have same : used ++ rest = before ++ [t] ++ rest := by simpa [split] using split'.symm
    exact List.append_cancel_right same
  have final : v s = v t := Option.some.inj (shows.symm.trans (same.trans shows'))
  -- Every state that was read comes after `s` and before `t`.
  have agree (u : D.State) (hu : u ∈ before ++ [t]) : AgreeOn K s u := by
    have later : u = s ∨ R s u := by
      have hu' : u ∈ s :: tail := split' ▸ List.mem_append_left rest hu
      exact (List.mem_cons.mp hu').imp_right ((List.pairwise_cons.mp ordered).1 u)
    have earlier : u = t ∨ R u t := by
      rw [split', List.append_assoc] at ordered
      rcases List.mem_append.mp hu with before' | last
      · exact .inr ((List.pairwise_append.mp ordered).2.2 u before' t (by simp))
      · exact .inl (List.mem_singleton.mp last)
    cases later with
    | inl same => exact same ▸ fun k _ => (D.agree_equiv k).refl u
    | inr after =>
        refine still s u after ?_
        have low := grows s u after
        cases earlier with
        | inl same => exact same ▸ final
        | inr before =>
            have high := grows u t before
            omega
  have read : (inTurn (first :: ps ++ [last])).replay (before ++ [t]) = some (a :: as') := by
    have whole := again []
    rw [List.append_nil] at whole
    rw [replay_eq_consume, whole, Option.map_some]
  exact ⟨s, by simp, shows, run_of_replay (scoped_inTurn inside) (readOnly_inTurn reads) agree read⟩

end Counter

end Txn
