import Xotero.Foundation.Locking

/-!
Runs that exist: a client that nobody blocks can go on for as many statements as
it has, and a request can run alone. They give concrete runs their steps.
-/

namespace Running
variable {D : Interface} {β : Type}

/-- The next statement of a transaction, in the committed state `s`. -/
def next (s : D.State) (x : Running D β) : Running D β :=
  match x.prog with
  | .query q next => ⟨next (D.eval q (D.applyAll x.log s)),
      x.held ++ D.locks q (D.applyAll x.log s), x.log ++ D.writes q (D.applyAll x.log s)⟩
  | .ret _ | .fail => x

def advance (s : D.State) : Nat → Running D β → Running D β
  | 0, x => x
  | n + 1, x => advance s n (x.next s)

/-- The statements it runs, each with the state it sees. -/
def stmts (s : D.State) : Nat → Running D β → List (D.Stmt × D.State)
  | 0, _ => []
  | n + 1, x =>
      match x.prog with
      | .query q _ => (q, D.applyAll x.log s) :: stmts s n (x.next s)
      | .ret _ | .fail => []

theorem held_next (s : D.State) (x : Running D β) : x.held ⊆ (x.next s).held := by
  unfold next
  split
  · exact List.subset_append_left _ _
  · exact List.Subset.refl _
  · exact List.Subset.refl _

theorem held_advance (s : D.State) (n : Nat) (x : Running D β) :
    x.held ⊆ (x.advance s n).held := by
  induction n generalizing x with
  | zero => exact List.Subset.refl _
  | succ n ih => exact List.Subset.trans (held_next s x) (ih _)

end Running

namespace System
variable {D : Interface}

/-- The reply of a request that runs alone and commits within `n` statements. -/
def commits (S : System D) (s : D.State) (n : Nat) (r : S.Request) : Option S.Reply :=
  match (Running.advance s n ⟨S.program r, [], []⟩).prog with
  | .ret (.commit a) => some a
  | _ => none

/-- The statements it runs. -/
def stmts (S : System D) (s : D.State) (n : Nat) (r : S.Request) : List (D.Stmt × D.State) :=
  Running.stmts s n ⟨S.program r, [], []⟩

/-- The state it leaves. -/
def after (S : System D) (s : D.State) (n : Nat) (r : S.Request) : D.State :=
  D.applyAll (Running.advance s n ⟨S.program r, [], []⟩).log s

end System

namespace Session
variable {D : Interface} {S : System D} {ι : Type} [DecidableEq ι] {σ : Session S ι} {c : ι}
  {r : S.Request}

@[simp] theorem set_set (σ : Session S ι) (c : ι)
    (x y : Option (S.Request × Running D S.Reply)) : (σ.set c x).set c y = σ.set c y := by
  simp only [set, mk.injEq, true_and]
  funext c'
  by_cases h : c' = c <;> simp [h]

theorem set_self {x : Option (S.Request × Running D S.Reply)} (here : σ.running c = x) :
    σ.set c x = σ := by
  obtain ⟨state, running⟩ := σ
  simp only [set, mk.injEq, true_and]
  funext c'
  by_cases h : c' = c
  · simp only [h, if_true]
    exact here.symm
  · simp only [h, if_false]

theorem Free.set {who : ι → Prop} {ls : List (RowLock D.Row)} (h : σ.Free who ls)
    (other : ¬ who c) (x : Option (S.Request × Running D S.Reply)) : (σ.set c x).Free who ls := by
  intro c' x' hc' running
  have ne : c' ≠ c := fun e => other (e ▸ hc')
  exact h c' x' hc' (by simpa [Session.set, ne] using running)

/-- In a session with one client under way. -/
theorem Free.beside {s : D.State} {who : ι → Prop} {ls : List (RowLock D.Row)}
    {x : S.Request × Running D S.Reply} (h : ∀ l ∈ ls, ∀ l' ∈ x.2.held, ¬ l.Conflicts l') :
    ((Session.idle s : Session S ι).set c (some x)).Free who ls := by
  intro c' x' _ running
  by_cases same : c' = c
  · obtain rfl : x = x' := by simpa [Session.set, same] using running
    exact h
  · simp [Session.set, same, Session.idle] at running

omit [DecidableEq ι] in
theorem Free.mono {who : ι → Prop} {ls ls' : List (RowLock D.Row)} (h : σ.Free who ls')
    (sub : ls ⊆ ls') : σ.Free who ls :=
  fun c' x' hc' running l hl => h c' x' hc' running l (sub hl)

theorem Step.next {x : Running D S.Reply} {q : D.Stmt}
    {next : D.Result q → Txn D (Ending S.Reply)} (here : σ.running c = some (r, x))
    (hp : x.prog = .query q next) (free : σ.Free (· ≠ c) (x.next σ.state).held) :
    Step σ [.stmt r q (D.applyAll x.log σ.state)] (σ.set c (some (r, x.next σ.state))) := by
  obtain ⟨prog, held, log⟩ := x
  obtain rfl : prog = .query q next := hp
  exact .query here (free.mono (List.subset_append_right _ _))

/-- The events of a client's statements. -/
def stmtEvents (r : S.Request) (ps : List (D.Stmt × D.State)) : List (Event S) :=
  ps.map fun p => .stmt r p.1 p.2

/-- The next `n` statements of a client that nobody blocks, for any notion of a
run that goes step by step. -/
theorem advance_steps {R : Session S ι → List (Event S) → Session S ι → Prop}
    (refl : ∀ σ, R σ [] σ)
    (head : ∀ {σ σ' σ'' : Session S ι} {q : D.Stmt} {s : D.State} {es : List (Event S)},
      Step σ [.stmt r q s] σ' → (∀ c, σ.running c = none → σ'.running c = none) → R σ' es σ'' →
      R σ (.stmt r q s :: es) σ'')
    (n : Nat) {x : Running D S.Reply} (here : σ.running c = some (r, x))
    (free : σ.Free (· ≠ c) (x.advance σ.state n).held) :
    R σ (stmtEvents r (x.stmts σ.state n)) (σ.set c (some (r, x.advance σ.state n))) := by
  induction n generalizing σ x with
  | zero => exact (set_self here).symm ▸ refl σ
  | succ n ih =>
      have stays (h : x.next σ.state = x) (m : Nat) : x.advance σ.state m = x := by
        induction m with
        | zero => rfl
        | succ m ih => rw [Running.advance, h, ih]
      cases hp : x.prog with
      | ret a =>
          rw [stays (by simp [Running.next, hp]), set_self here, Running.stmts, hp]
          exact refl σ
      | fail =>
          rw [stays (by simp [Running.next, hp]), set_self here, Running.stmts, hp]
          exact refl σ
      | query q next =>
          have step := Step.next here hp (free.mono (Running.held_advance σ.state n _))
          have run := ih (σ := σ.set c (some (r, x.next σ.state))) (x := x.next σ.state)
            (by simp [Session.set]) (free.set (by simp) _)
          rw [set_set] at run
          rw [Running.stmts, hp]
          refine head step (fun c' idle => ?_) run
          have apart : c' ≠ c := by
            rintro rfl
            cases idle.symm.trans here
          simpa [Session.set, apart] using idle

/-- A client that nobody blocks runs its next `n` statements. -/
theorem Run.advance (n : Nat) {x : Running D S.Reply} (here : σ.running c = some (r, x))
    (free : σ.Free (· ≠ c) (x.advance σ.state n).held) :
    Run σ (stmtEvents r (x.stmts σ.state n)) (σ.set c (some (r, x.advance σ.state n))) :=
  advance_steps (R := Run) (fun _ => .refl) (fun step _ run => (Run.refl.snoc step).trans run) n
    here free

/-- Its commit. -/
theorem Step.finish {x : Running D S.Reply} {a : S.Reply} (here : σ.running c = some (r, x))
    (done : x.prog = .ret (.commit a)) (valid : D.valid (D.applyAll x.log σ.state)) :
    Step σ [.commit r a σ.state (D.applyAll x.log σ.state)]
      { σ.set c none with state := D.applyAll x.log σ.state } := by
  obtain ⟨prog, held, log⟩ := x
  obtain rfl : prog = .ret (.commit a) := done
  exact .commit here valid

theorem Run.commit {x : Running D S.Reply} {a : S.Reply} (here : σ.running c = some (r, x))
    (done : x.prog = .ret (.commit a)) (valid : D.valid (D.applyAll x.log σ.state)) :
    Run σ [.commit r a σ.state (D.applyAll x.log σ.state)]
      { σ.set c none with state := D.applyAll x.log σ.state } :=
  Run.refl.snoc (.finish here done valid)

omit [DecidableEq ι] in
theorem prog_of_commits {s : D.State} {n : Nat} {a : S.Reply}
    (commits : S.commits s n r = some a) :
    (Running.advance s n ⟨S.program r, [], []⟩).prog = .ret (.commit a) := by
  unfold System.commits at commits
  split at commits
  · rename_i b same
    rw [same, Option.some.inj commits]
  · cases commits

/-- A request that nobody blocks runs from its start to its commit. -/
theorem Run.request (n : Nat) {a : S.Reply} {s t : D.State} (state : σ.state = s)
    (idle : σ.running c = none) (commits : S.commits s n r = some a)
    (after : S.after s n r = t)
    (free : σ.Free (· ≠ c) (Running.advance s n ⟨S.program r, [], []⟩).held)
    (valid : D.valid t) :
    Run σ (stmtEvents r (S.stmts s n r) ++ [.commit r a s t]) { σ with state := t } := by
  subst state after
  have start := Run.refl.snoc (Step.start c r idle)
  have run := Run.advance (σ := σ.set c (some (r, ⟨S.program r, [], []⟩))) (c := c) (r := r) n
    (x := ⟨S.program r, [], []⟩) (by simp [Session.set]) (free.set (by simp) _)
  rw [set_set] at run
  have last := Run.commit (σ := σ.set c (some (r, Running.advance σ.state n ⟨S.program r, [], []⟩)))
    (c := c) (r := r) (by simp [Session.set]) (prog_of_commits commits) valid
  rw [set_set, set_self idle] at last
  exact (start.trans run).trans last

/-- A request that takes no lock and ends without a commit leaves no trace. -/
theorem Run.peek (n : Nat) {a : S.Reply} (idle : σ.running c = none)
    (drops : (Running.advance σ.state n ⟨S.program r, [], []⟩).prog = .ret (.drop a))
    (lockless : (Running.advance σ.state n ⟨S.program r, [], []⟩).held = []) :
    Run σ (stmtEvents r (S.stmts σ.state n r) ++ [.drop r a σ.state]) σ := by
  have start := Run.refl.snoc (Step.start c r idle)
  have free : σ.Free (· ≠ c) (Running.advance σ.state n ⟨S.program r, [], []⟩).held := by
    rw [lockless]
    exact fun _ _ _ _ l hl => nomatch hl
  have run := Run.advance (σ := σ.set c (some (r, ⟨S.program r, [], []⟩))) (c := c) (r := r) n
    (x := ⟨S.program r, [], []⟩) (by simp [Session.set]) (free.set (by simp) _)
  rw [set_set] at run
  generalize ended : Running.advance σ.state n ⟨S.program r, [], []⟩ = x at drops
  obtain ⟨prog, held, log⟩ := x
  obtain rfl : prog = .ret (.drop a) := drops
  have last := Run.refl.snoc (@Step.drop _ _ _ _
    (σ.set c (some (r, ⟨.ret (.drop a), held, log⟩))) c r a held log (by simp [Session.set]))
  rw [set_set, set_self idle] at last
  rw [← ended] at last
  exact (start.trans run).trans last

section Two
variable {s t : D.State} {x : S.Request × Running D S.Reply}

/-- The one client under way goes on. -/
theorem Run.goOn (n : Nat) {x : Running D S.Reply} :
    Run ((Session.idle s : Session S ι).set c (some (r, x))) (stmtEvents r (x.stmts s n))
      ((Session.idle s).set c (some (r, x.advance s n))) := by
  have idle : (Session.idle s : Session S ι).Free (· ≠ c) (x.advance s n).held :=
    fun _ _ _ running => nomatch running
  have run := Run.advance (σ := (Session.idle s : Session S ι).set c (some (r, x))) (c := c)
    (r := r) n (x := x) (by simp [Session.set]) (idle.set (by simp) _)
  rwa [set_set] at run

/-- A request runs beside the one client under way. -/
theorem Run.beside {k : ι} (other : k ≠ c) (n : Nat) {a : S.Reply}
    (commits : S.commits s n r = some a) (after : S.after s n r = t)
    (free : ∀ l ∈ (Running.advance s n ⟨S.program r, [], []⟩).held, ∀ l' ∈ x.2.held,
      ¬ l.Conflicts l') (valid : D.valid t) :
    Run ((Session.idle s : Session S ι).set c (some x))
      (stmtEvents r (S.stmts s n r) ++ [.commit r a s t])
      ((Session.idle t).set c (some x)) :=
  Run.request (σ := (Session.idle s : Session S ι).set c (some x)) (c := k) n rfl
    (by simp [Session.set, Session.idle, other]) commits after (Free.beside free) valid

/-- The one client under way commits. -/
theorem Run.finish {x : Running D S.Reply} {a : S.Reply} (done : x.prog = .ret (.commit a))
    (after : D.applyAll x.log s = t) (valid : D.valid t) :
    Run ((Session.idle s : Session S ι).set c (some (r, x))) [.commit r a s t]
      (Session.idle t) := by
  subst after
  have run := Run.commit (σ := (Session.idle s : Session S ι).set c (some (r, x))) (c := c)
    (r := r) (by simp [Session.set]) done valid
  have cleared : (Session.idle s : Session S ι).set c none = Session.idle s := set_self rfl
  rwa [set_set, cleared] at run

end Two

/-- A request alone in an idle session. -/
theorem Run.alone {s t : D.State} {a : S.Reply} (c : ι) (n : Nat)
    (commits : S.commits s n r = some a) (after : S.after s n r = t) (valid : D.valid t) :
    ∃ es, Run (Session.idle s : Session S ι) (es ++ [.commit r a s t]) (Session.idle t) ∧
      ∀ e ∈ es, ∃ q v, e = .stmt r q v := by
  refine ⟨_, Run.request (c := c) n rfl rfl commits after
    (fun c' x _ running => nomatch running) valid, fun e he => ?_⟩
  obtain ⟨p, -, rfl⟩ := List.mem_map.mp he
  exact ⟨p.1, p.2, rfl⟩

/-- A request alone, whatever its reply. -/
theorem Run.commits {s t : D.State} (c : ι) (n : Nat) (commits : (S.commits s n r).isSome)
    (after : S.after s n r = t) (valid : D.valid t) :
    ∃ es a, Run (Session.idle s : Session S ι) (es ++ [.commit r a s t]) (Session.idle t) ∧
      ∀ e ∈ es, ∃ q v, e = .stmt r q v := by
  obtain ⟨a, reply⟩ := Option.isSome_iff_exists.mp commits
  obtain ⟨es, run, stmts⟩ := Run.alone c n reply after valid
  exact ⟨es, a, run, stmts⟩

/-- A run goes on with a request alone. -/
theorem Run.then_commits {events : List (Event S)} {s t : D.State}
    (run : Run σ events (Session.idle s)) (c : ι) (n : Nat)
    (commits : (S.commits s n r).isSome) (after : S.after s n r = t) (valid : D.valid t) :
    ∃ es a, Run σ (es ++ [.commit r a s t]) (Session.idle t) := by
  obtain ⟨es, a, alone, -⟩ := Run.commits (ι := ι) c n commits after valid
  have both := run.trans alone
  rw [← List.append_assoc] at both
  exact ⟨_, a, both⟩

/-- A run goes on with a request alone, whose commit is the only new one. -/
theorem Run.then_alone {events : List (Event S)} {s t : D.State}
    (run : Run σ events (Session.idle s)) (c : ι) (n : Nat)
    (commits : (S.commits s n r).isSome) (after : S.after s n r = t) (valid : D.valid t) :
    ∃ more, Run σ more (Session.idle t) ∧ ∀ r' a s' t', .commit r' a s' t' ∈ more →
      .commit r' a s' t' ∈ events ∨ r' = r ∧ s' = s ∧ t' = t := by
  obtain ⟨es, a, alone, stmts⟩ := Run.commits (ι := ι) c n commits after valid
  refine ⟨_, run.trans alone, fun r' a' s' t' mem => ?_⟩
  rcases List.mem_append.mp mem with before | mem
  · exact .inl before
  rcases List.mem_append.mp mem with stmt | last
  · obtain ⟨q, v, same⟩ := stmts _ stmt
    cases same
  · cases List.mem_singleton.mp last
    exact .inr ⟨rfl, rfl, rfl⟩

/-- A lone statement in an idle session. -/
theorem Run.lone {s t : D.State} {q : D.Stmt} (alone : S.auto q)
    (after : D.applyAll (D.writes q s) s = t) (valid : D.valid t) :
    Run (Session.idle s : Session S ι) [.auto q s t] (Session.idle t) := by
  subst after
  exact Run.refl.snoc (Step.auto alone (fun _ _ _ running => nomatch running) valid)

end Session
