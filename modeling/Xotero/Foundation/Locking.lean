import Mathlib.Algebra.Ring.Int.Defs
import Xotero.Foundation.Txn

/-!
Clients running transaction programs against one database, statement by
statement in any order. A statement waits while another client holds a
conflicting lock on a row it locks; locks are held to the end of the
transaction; a commit that would break an integrity constraint is refused.

What one client may rely on while it holds locks is `Interference`. `Ensures`
is the weakest precondition of a program under that interference, and
`Run.commit_ensures` carries it to every commit of every interleaving.
-/

/-- The programs clients may run, and the statements that may run on their own
as a transaction of one statement. -/
structure System (D : Interface) where
  Request : Type
  Reply : Type
  program : Request → Txn D (Ending Reply)
  auto : D.Stmt → Prop

/-- A transaction under way: what is left to run, the locks held, the writes so
far (not visible to others). -/
structure Running (D : Interface) (β : Type) where
  prog : Txn D (Ending β)
  held : List (RowLock D.Row)
  log : List D.Write

structure Session {D : Interface} (S : System D) (ι : Type) where
  state : D.State
  running : ι → Option (S.Request × Running D S.Reply)

/-- A session nobody uses yet. -/
def Session.idle {D : Interface} {S : System D} {ι : Type} (s : D.State) : Session S ι :=
  ⟨s, fun _ => none⟩

inductive Event {D : Interface} (S : System D) where
  | stmt (r : S.Request) (q : D.Stmt) (view : D.State)
  | commit (r : S.Request) (a : S.Reply) (before after : D.State)
  | drop (r : S.Request) (a : S.Reply) (current : D.State)
  | auto (q : D.Stmt) (before after : D.State)

namespace Session
variable {D : Interface} {S : System D} {ι : Type} [DecidableEq ι]

def set (σ : Session S ι) (c : ι) (x : Option (S.Request × Running D S.Reply)) :
    Session S ι :=
  { σ with running := fun c' => if c' = c then x else σ.running c' }

/-- No client among `who` holds a lock that conflicts with one of `ls`. -/
def Free (σ : Session S ι) (who : ι → Prop) (ls : List (RowLock D.Row)) : Prop :=
  ∀ c x, who c → σ.running c = some x → ∀ l ∈ ls, ∀ l' ∈ x.2.held, ¬ l.Conflicts l'

inductive Step : Session S ι → List (Event S) → Session S ι → Prop where
  | start {σ : Session S ι} (c : ι) (r : S.Request) (idle : σ.running c = none) :
      Step σ [] (σ.set c (some (r, ⟨S.program r, [], []⟩)))
  | query {σ : Session S ι} {c : ι} {r : S.Request} {q : D.Stmt}
      {next : D.Result q → Txn D (Ending S.Reply)} {held : List (RowLock D.Row)}
      {log : List D.Write} (here : σ.running c = some (r, ⟨.query q next, held, log⟩))
      (free : σ.Free (· ≠ c) (D.locks q (D.applyAll log σ.state))) :
      Step σ [.stmt r q (D.applyAll log σ.state)]
        (σ.set c (some (r, ⟨next (D.eval q (D.applyAll log σ.state)),
          held ++ D.locks q (D.applyAll log σ.state),
          log ++ D.writes q (D.applyAll log σ.state)⟩)))
  | commit {σ : Session S ι} {c : ι} {r : S.Request} {a : S.Reply}
      {held : List (RowLock D.Row)} {log : List D.Write}
      (here : σ.running c = some (r, ⟨.ret (.commit a), held, log⟩))
      (accepted : D.valid (D.applyAll log σ.state)) :
      Step σ [.commit r a σ.state (D.applyAll log σ.state)]
        { σ.set c none with state := D.applyAll log σ.state }
  | drop {σ : Session S ι} {c : ι} {r : S.Request} {a : S.Reply}
      {held : List (RowLock D.Row)} {log : List D.Write}
      (here : σ.running c = some (r, ⟨.ret (.drop a), held, log⟩)) :
      Step σ [.drop r a σ.state] (σ.set c none)
  | abort {σ : Session S ι} (c : ι) : Step σ [] (σ.set c none)
  | auto {σ : Session S ι} {q : D.Stmt} (alone : S.auto q)
      (free : σ.Free (fun _ => True) (D.locks q σ.state))
      (accepted : D.valid (D.applyAll (D.writes q σ.state) σ.state)) :
      Step σ [.auto q σ.state (D.applyAll (D.writes q σ.state) σ.state)]
        { σ with state := D.applyAll (D.writes q σ.state) σ.state }

/-- The events of a run, in order. -/
inductive Run (σ₀ : Session S ι) : List (Event S) → Session S ι → Prop where
  | refl : Run σ₀ [] σ₀
  | snoc {es ev : List (Event S)} {σ σ' : Session S ι} (run : Run σ₀ es σ)
      (step : Step σ ev σ') : Run σ₀ (es ++ ev) σ'

end Session

/-! Programs that lock what they write -/

namespace Txn
variable {D : Interface} {α β : Type}

/-- Whatever the statements see, every write is covered by an update lock held
when its statement is done, and the locks at the end satisfy `Q`. -/
def Disciplined (Q : α → List (RowLock D.Row) → Prop) :
    Txn D α → List (RowLock D.Row) → Prop
  | .ret a, held => Q a held
  | .fail, _ => True
  | .query q next, held => ∀ v,
      (∀ w ∈ D.writes q v, ⟨D.target w, .update⟩ ∈ held ++ D.locks q v) ∧
      (next (D.eval q v)).Disciplined Q (held ++ D.locks q v)

section Disciplined
variable {Q Q' : α → List (RowLock D.Row) → Prop} {held : List (RowLock D.Row)}

theorem disciplined_imp {p : Txn D α} (h : p.Disciplined Q held)
    (hQ : ∀ a held, Q a held → Q' a held) : p.Disciplined Q' held := by
  induction p generalizing held with
  | ret a => exact hQ a held h
  | fail => trivial
  | query q next ih => exact fun v => ⟨(h v).1, ih _ (h v).2⟩

theorem disciplined_bind {Q : β → List (RowLock D.Row) → Prop} {p : Txn D α} {f : α → Txn D β}
    (h : p.Disciplined (fun a held => (f a).Disciplined Q held) held) :
    (p >>= f).Disciplined Q held := by
  induction p generalizing held with
  | ret a => exact h
  | fail => trivial
  | query q next ih => exact fun v => ⟨(h v).1, ih _ (h v).2⟩

/-- Under update locks on `K`, a program confined to `K` is disciplined. -/
theorem disciplined_of_scoped {K : List D.Row} {p : Txn D α} (h : p.Scoped K)
    (hK : ∀ k ∈ K, ⟨k, .update⟩ ∈ held) : p.Disciplined (fun _ _ => True) held := by
  induction p generalizing held with
  | ret a | fail => trivial
  | query q next ih =>
      exact fun v => ⟨fun w hw => List.mem_append_left _ (hK _ (h.1.target_mem hw)),
        ih _ (h.2 _) fun k hk => List.mem_append_left _ (hK k hk)⟩

theorem disciplined_of_readOnly {p : Txn D α} (h : p.ReadOnly) :
    p.Disciplined (fun _ held' => held ⊆ held') held := by
  induction p generalizing held with
  | ret a => exact List.Subset.refl held
  | fail => trivial
  | query q next ih =>
      exact fun v => ⟨by simp [h.1], disciplined_imp (ih _ (h.2 _)) fun a held' sub =>
        fun l hl => sub (List.mem_append_left _ hl)⟩

end Disciplined
end Txn

/-- A system whose programs and lone statements lock what they write. -/
structure System.WellLocked {D : Interface} (S : System D) : Prop where
  program : ∀ r, (S.program r).Disciplined (fun _ _ => True) []
  auto : ∀ {q}, S.auto q → ∀ s, ∀ w ∈ D.writes q s, ⟨D.target w, .update⟩ ∈ D.locks q s

/-! What a client may rely on -/

/-- What other clients' commits can do to a database while `held` is held. -/
def Interference (D : Interface) (held : List (RowLock D.Row)) (s s' : D.State) : Prop :=
  (D.valid s → D.valid s') ∧ ∀ l ∈ held, D.agree l.row s s'

namespace Interference
variable {D : Interface} {held held' : List (RowLock D.Row)} {s s' s'' : D.State}

theorem refl (held : List (RowLock D.Row)) (s : D.State) : Interference D held s s :=
  ⟨id, fun l _ => (D.agree_equiv l.row).refl s⟩

theorem trans (h : Interference D held s s') (h' : Interference D held s' s'') :
    Interference D held s s'' :=
  ⟨h'.1 ∘ h.1, fun l hl => (D.agree_equiv l.row).trans (h.2 l hl) (h'.2 l hl)⟩

theorem mono (h : Interference D held' s s') (hs : held ⊆ held') :
    Interference D held s s' :=
  ⟨h.1, fun l hl => h.2 l (hs hl)⟩

theorem agreeOn (h : Interference D held s s') {K : List D.Row}
    (hK : ∀ k ∈ K, ∃ m, ⟨k, m⟩ ∈ held) : Txn.AgreeOn K s s' := fun k hk =>
  have ⟨_, hm⟩ := hK k hk
  h.2 _ hm

end Interference

/-- Weakest precondition of a program from the committed state `s`, with locks
`held` and own writes `log`, under interference before every statement and
before the end. `A` is assumed of every statement and the view it runs on. -/
def Ensures {D : Interface} {α : Type} (A : D.Stmt → D.State → Prop)
    (Q : α → List (RowLock D.Row) → List D.Write → D.State → Prop) :
    Txn D α → List (RowLock D.Row) → List D.Write → D.State → Prop
  | .ret a, held, log, s => ∀ s', Interference D held s s' → Q a held log s'
  | .fail, _, _, _ => True
  | .query q next, held, log, s => ∀ s', Interference D held s s' →
      A q (D.applyAll log s') →
      Ensures A Q (next (D.eval q (D.applyAll log s')))
        (held ++ D.locks q (D.applyAll log s'))
        (log ++ D.writes q (D.applyAll log s')) s'

namespace Ensures
variable {D : Interface} {α β : Type} {A : D.Stmt → D.State → Prop}
  {Q Q' : α → List (RowLock D.Row) → List D.Write → D.State → Prop}

/-- A precondition under interference is stable under that interference. -/
theorem stable {p : Txn D α} {held : List (RowLock D.Row)} {log : List D.Write}
    {s s' : D.State} (h : Ensures A Q p held log s) (i : Interference D held s s') :
    Ensures A Q p held log s' := by
  cases p with
  | ret a => exact fun s'' i' => h s'' (i.trans i')
  | fail => trivial
  | query q next => exact fun s'' i' => h s'' (i.trans i')

theorem imp {p : Txn D α} {held : List (RowLock D.Row)} {log : List D.Write} {s : D.State}
    (h : Ensures A Q p held log s) (hQ : ∀ a held log s, Q a held log s → Q' a held log s) :
    Ensures A Q' p held log s := by
  induction p generalizing held log s with
  | ret a => exact fun s' i => hQ _ _ _ _ (h s' i)
  | fail => trivial
  | query q next ih => exact fun s' i a => ih _ (h s' i a)

theorem and {p : Txn D α} {held : List (RowLock D.Row)} {log : List D.Write} {s : D.State}
    (h : Ensures A Q p held log s) (h' : Ensures A Q' p held log s) :
    Ensures A (fun a held log s => Q a held log s ∧ Q' a held log s) p held log s := by
  induction p generalizing held log s with
  | ret a => exact fun s' i => ⟨h s' i, h' s' i⟩
  | fail => trivial
  | query q next ih => exact fun s' i a => ih _ (h s' i a) (h' s' i a)

/-- What holds under weaker assumptions holds under stronger ones. -/
theorem assuming {A' : D.Stmt → D.State → Prop} {p : Txn D α} {held : List (RowLock D.Row)}
    {log : List D.Write} {s : D.State} (h : Ensures A Q p held log s)
    (hA : ∀ q v, A' q v → A q v) : Ensures A' Q p held log s := by
  induction p generalizing held log s with
  | ret a => exact h
  | fail => trivial
  | query q next ih => exact fun s' i a => ih _ (h s' i (hA _ _ a))

theorem bind {Q : β → List (RowLock D.Row) → List D.Write → D.State → Prop}
    {p : Txn D α} {f : α → Txn D β} {held : List (RowLock D.Row)} {log : List D.Write}
    {s : D.State}
    (h : Ensures A (fun a held log s => Ensures A Q (f a) held log s) p held log s) :
    Ensures A Q (p >>= f) held log s := by
  induction p generalizing held log s with
  | ret a => exact h s (Interference.refl held s)
  | fail => trivial
  | query q next ih => exact fun s' i a => ih _ (h s' i a)

theorem map {Q : β → List (RowLock D.Row) → List D.Write → D.State → Prop} {p : Txn D α}
    {f : α → β} {held : List (RowLock D.Row)} {log : List D.Write} {s : D.State}
    (h : Ensures A (fun a => Q (f a)) p held log s) :
    Ensures A Q (p >>= fun a => pure (f a)) held log s := by
  induction p generalizing held log s with
  | ret a => exact h
  | fail => trivial
  | query q next ih => exact fun s' i a => ih _ (h s' i a)

theorem ite {c : Prop} [Decidable c] {p q : Txn D α} {held : List (RowLock D.Row)}
    {log : List D.Write} {s : D.State} (hp : c → Ensures A Q p held log s)
    (hq : ¬ c → Ensures A Q q held log s) : Ensures A Q (if c then p else q) held log s := by
  split
  · exact hp ‹c›
  · exact hq ‹¬ c›

/-- A read-only program leaves the log as it is. -/
theorem of_readOnly {p : Txn D α} (hp : p.ReadOnly) (held : List (RowLock D.Row))
    (log : List D.Write) (s : D.State) :
    Ensures A (fun _ _ log' _ => log' = log) p held log s := by
  induction p generalizing held s with
  | ret a => exact fun _ _ => rfl
  | fail => trivial
  | query q next ih =>
      intro s' _ _
      simpa [hp.1] using ih _ (hp.2 _) _ s'

/-- Under locks on `K`, a program confined to `K` collects what it would collect
alone in the state it commits to. -/
theorem of_scoped {K : List D.Row} {p : Txn D α} {held : List (RowLock D.Row)}
    {log : List D.Write} {s : D.State} (hp : p.Scoped K) (hK : ∀ k ∈ K, ∃ m, ⟨k, m⟩ ∈ held) :
    Ensures A (fun a _ log' s' => Txn.AgreeOn K s s' ∧ p.collect log s' = some (log', a))
      p held log s := by
  induction p generalizing held log s with
  | ret a => exact fun s' i => ⟨i.agreeOn hK, rfl⟩
  | fail => trivial
  | query q next ih =>
      intro s' i _
      have hK' : ∀ k ∈ K, ∃ m, ⟨k, m⟩ ∈ held ++ D.locks q (D.applyAll log s') := fun k hk =>
        have ⟨m, hm⟩ := hK k hk
        ⟨m, List.mem_append_left _ hm⟩
      refine (ih _ (hp.2 _) hK').imp ?_
      rintro a _ log' s'' ⟨agree, collected⟩
      have views := Txn.agreeOn_applyAll log agree
      refine ⟨(i.agreeOn hK).trans agree, ?_⟩
      rwa [Txn.collect, ← hp.1.eval_eq views, ← hp.1.writes_eq views]

/-- A transaction that begins by locking `k`, and stays inside `k`, is atomic. -/
theorem of_locked {k : D.Row} {q : D.Stmt} {next : D.Result q → Txn D α} {s : D.State}
    (inside : (Txn.query q next).Scoped [k]) (reads : ∀ s, D.writes q s = [])
    (locked : ∀ s, (∃ m, ⟨k, m⟩ ∈ D.locks q s) ∨ next (D.eval q s) = .fail) :
    Ensures A (fun a _ log s => (Txn.query q next).collect [] s = some (log, a))
      (.query q next) [] [] s := by
  intro s' _ _
  rcases locked s' with ⟨m, hm⟩ | failed
  · refine (of_scoped (inside.2 _) ?_).imp ?_
    · intro k' hk'
      obtain rfl := List.mem_singleton.mp hk'
      exact ⟨m, hm⟩
    · rintro a _ log s'' ⟨agree, collected⟩
      simp only [Txn.collect, Interface.applyAll_nil, reads, List.append_nil] at collected ⊢
      rwa [← inside.1.eval_eq agree]
  · rw [Interface.applyAll_nil, failed]
    trivial

/-- What every ending satisfies, the ending of a run satisfies. -/
theorem of_ends {P : α → Prop} {p : Txn D α} (hp : p.Ends P) (held : List (RowLock D.Row))
    (log : List D.Write) (s : D.State) : Ensures A (fun a _ _ _ => P a) p held log s := by
  induction p generalizing held log s with
  | ret a => exact fun _ _ => hp
  | fail => trivial
  | query q next ih => exact fun s' _ _ => ih _ (hp _) _ _ _

/-- A program that never commits keeps every promise about its commits. -/
theorem of_drops {Q : α → List D.Write → D.State → Prop} {p : Txn D (Ending α)}
    (drops : p.Ends fun e => ∀ a, e ≠ .commit a) (held : List (RowLock D.Row))
    (log : List D.Write) (s : D.State) :
    Ensures A (fun e _ log s => ∀ a, e = .commit a → Q a log s) p held log s :=
  (of_ends drops held log s).imp fun _ _ _ _ never a same => absurd same (never a)

/-- Locks are only added, and what they protect stays as it was. -/
theorem frame {p : Txn D α} {held : List (RowLock D.Row)} {log : List D.Write} {s : D.State}
    (h : Ensures A Q p held log s) :
    Ensures A (fun a held' log' s' => Q a held' log' s' ∧ held ⊆ held' ∧
      Interference D held s s') p held log s := by
  induction p generalizing held log s with
  | ret a => exact fun s' i => ⟨h s' i, List.Subset.refl _, i⟩
  | fail => trivial
  | query q next ih =>
      intro s' i a
      refine (ih _ (h s' i a)).imp ?_
      rintro a held' log' s'' ⟨post, sub, i'⟩
      have mine : held ⊆ held' := fun l hl => sub (List.mem_append_left _ hl)
      exact ⟨post, mine, i.trans (i'.mono (List.subset_append_left _ _))⟩

/-- With no interference at all, `Ensures` speaks about the run alone. -/
theorem collect {p : Txn D α} {held : List (RowLock D.Row)} {log log' : List D.Write}
    {s : D.State} {a : α} (h : Ensures (fun _ _ => True) Q p held log s)
    (run : p.collect log s = some (log', a)) : ∃ held', Q a held' log' s := by
  induction p generalizing held log with
  | ret b =>
      obtain ⟨rfl, rfl⟩ := Prod.mk.inj (Option.some.inj run)
      exact ⟨held, h s (Interference.refl held s)⟩
  | fail => cases run
  | query q next ih => exact ih _ (h s (Interference.refl held s) trivial) run

end Ensures

/-! Soundness for every interleaving -/

namespace Session
variable {D : Interface} {S : System D} {ι : Type} [DecidableEq ι]

/-- Compatible locks, and writes covered by them. -/
structure Sound (σ : Session S ι) : Prop where
  compat : ∀ {c c' x x'}, c ≠ c' → σ.running c = some x → σ.running c' = some x' →
    ∀ l ∈ x.2.held, ∀ l' ∈ x'.2.held, ¬ l.Conflicts l'
  covered : ∀ {c x}, σ.running c = some x →
    ∀ w ∈ x.2.log, ⟨D.target w, .update⟩ ∈ x.2.held
  disciplined : ∀ {c x}, σ.running c = some x →
    x.2.prog.Disciplined (fun _ _ => True) x.2.held
  valid : D.valid σ.state

omit [DecidableEq ι] in
theorem sound_of_idle {σ : Session S ι} (idle : ∀ c, σ.running c = none)
    (valid : D.valid σ.state) : σ.Sound where
  compat _ h := by simp [idle] at h
  covered h := by simp [idle] at h
  disciplined h := by simp [idle] at h
  valid := valid

/-- Putting one client in a state compatible with the others keeps `Sound`. -/
theorem Sound.set {σ : Session S ι} (h : σ.Sound) {c : ι}
    {x : S.Request × Running D S.Reply}
    (compat : σ.Free (· ≠ c) x.2.held)
    (covered : ∀ w ∈ x.2.log, ⟨D.target w, .update⟩ ∈ x.2.held)
    (disciplined : x.2.prog.Disciplined (fun _ _ => True) x.2.held) : (σ.set c (some x)).Sound where
  compat {d d' y y'} hd hy hy' l hl l' hl' := by
    by_cases e : d = c
    · subst e
      have hx : x = y := by simpa [Session.set] using hy
      have e' : d' ≠ d := Ne.symm hd
      subst hx
      exact compat d' y' e' (by simpa [Session.set, e'] using hy') l hl l' hl'
    · by_cases e' : d' = c
      · subst e'
        have hx : x = y' := by simpa [Session.set] using hy'
        subst hx
        exact fun hc => compat d y e (by simpa [Session.set, e] using hy) l' hl' l hl
          (hc.symm)
      · exact h.compat hd (by simpa [Session.set, e] using hy)
          (by simpa [Session.set, e'] using hy') l hl l' hl'
  covered {d y} hy := by
    by_cases e : d = c
    · have hx : x = y := by simpa [Session.set, e] using hy
      exact hx ▸ covered
    · exact h.covered (by simpa [Session.set, e] using hy)
  disciplined {d y} hy := by
    by_cases e : d = c
    · have hx : x = y := by simpa [Session.set, e] using hy
      exact hx ▸ disciplined
    · exact h.disciplined (by simpa [Session.set, e] using hy)
  valid := h.valid

theorem Sound.clear {σ : Session S ι} (h : σ.Sound) (c : ι) : (σ.set c none).Sound where
  compat {d d' y y'} hd hy hy' := by
    by_cases e : d = c
    · simp [Session.set, e] at hy
    · by_cases e' : d' = c
      · simp [Session.set, e'] at hy'
      · exact h.compat hd (by simpa [Session.set, e] using hy)
          (by simpa [Session.set, e'] using hy')
  covered {d y} hy := by
    by_cases e : d = c
    · simp [Session.set, e] at hy
    · exact h.covered (by simpa [Session.set, e] using hy)
  disciplined {d y} hy := by
    by_cases e : d = c
    · simp [Session.set, e] at hy
    · exact h.disciplined (by simpa [Session.set, e] using hy)
  valid := h.valid

omit [DecidableEq ι] in
theorem Sound.withState {σ : Session S ι} (h : σ.Sound) {s : D.State} (valid : D.valid s) :
    ({ σ with state := s } : Session S ι).Sound where
  compat := h.compat
  covered := h.covered
  disciplined := h.disciplined
  valid := valid

/-- Writes covered by locks that are free of `x`'s are interference to `x`. -/
theorem interference_of_covered {log : List D.Write} {mine theirs : List (RowLock D.Row)}
    {s : D.State} (covered : ∀ w ∈ log, ⟨D.target w, .update⟩ ∈ mine)
    (compat : ∀ l ∈ mine, ∀ l' ∈ theirs, ¬ l.Conflicts l')
    (valid : D.valid (D.applyAll log s)) : Interference D theirs s (D.applyAll log s) := by
  refine ⟨fun _ => valid, fun l' hl' => D.agree_applyAll_frame s fun w hw same => ?_⟩
  exact compat _ (covered w hw) l' hl' ⟨same, .inl rfl⟩

theorem Step.sound {σ σ' : Session S ι} {ev : List (Event S)} (hS : S.WellLocked)
    (h : σ.Sound) (step : Step σ ev σ') : σ'.Sound := by
  cases step with
  | start c r idle =>
      exact h.set (fun _ _ _ _ l hl => by simp at hl) (by simp) (hS.program r)
  | @query c r q next held log here free =>
      have d := h.disciplined here (D.applyAll log σ.state)
      refine h.set ?_ ?_ d.2
      · intro c' x' other running l hl l' hl'
        rcases List.mem_append.mp hl with old | new
        · exact h.compat (Ne.symm other) here running l old l' hl'
        · exact free c' x' other running l new l' hl'
      · intro w hw
        rcases List.mem_append.mp hw with old | new
        · exact List.mem_append_left _ (h.covered here w old)
        · exact d.1 w new
  | commit here accepted => exact (h.clear _).withState accepted
  | drop here => exact h.clear _
  | abort c => exact h.clear c
  | auto alone free accepted => exact h.withState accepted

theorem Run.sound {σ₀ σ : Session S ι} {es : List (Event S)} (hS : S.WellLocked)
    (h : σ₀.Sound) (run : Run σ₀ es σ) : σ.Sound := by
  induction run with
  | refl => exact h
  | snoc _ step ih => exact step.sound hS ih

/-- What a step does to the committed state interferes with every client that
is not the one taking it, and with nobody when it is not a commit. -/
theorem Step.interference {σ σ' : Session S ι} {ev : List (Event S)} (hS : S.WellLocked)
    (h : σ.Sound) (step : Step σ ev σ') {c : ι} {x : S.Request × Running D S.Reply}
    (before : σ.running c = some x) (after : σ'.running c = some x) :
    Interference D x.2.held σ.state σ'.state := by
  cases step with
  | start | query | drop | abort => exact Interference.refl _ _
  | @commit c' r a held log here accepted =>
      have ne : c' ≠ c := by
        rintro rfl
        simp [Session.set] at after
      exact interference_of_covered (h.covered here) (h.compat ne here before) accepted
  | @auto q alone free accepted =>
      exact interference_of_covered (hS.auto alone σ.state)
        (fun l hl => free c x trivial before l hl) accepted

/-- The postcondition of each client's request, under what is assumed of the
statements it runs. -/
structure Specified (S : System D) (A : S.Request → D.Stmt → D.State → Prop)
    (Post : S.Request → Ending S.Reply → List (RowLock D.Row) → List D.Write →
      D.State → Prop) : Prop where
  ensures : ∀ r s, D.valid s → Ensures (A r) (Post r) (S.program r) [] [] s

/-- Every statement a client ran met the assumption. -/
def Assumed (A : S.Request → D.Stmt → D.State → Prop) (es : List (Event S)) : Prop :=
  ∀ r q v, .stmt r q v ∈ es → A r q v

section Specified
variable {A : S.Request → D.Stmt → D.State → Prop}
  {Post : S.Request → Ending S.Reply → List (RowLock D.Row) → List D.Write →
    D.State → Prop}

/-- Each client under way still ensures its postcondition. -/
def Promised (A : S.Request → D.Stmt → D.State → Prop)
    (Post : S.Request → Ending S.Reply → List (RowLock D.Row) → List D.Write →
      D.State → Prop) (σ : Session S ι) : Prop :=
  ∀ c r x, σ.running c = some (r, x) → Ensures (A r) (Post r) x.prog x.held x.log σ.state

theorem Step.promised {σ σ' : Session S ι} {ev : List (Event S)} (hS : S.WellLocked)
    (spec : Specified S A Post) (h : σ.Sound) (hp : Promised A Post σ)
    (step : Step σ ev σ') (assumed : Assumed A ev) : Promised A Post σ' := by
  intro c r x running
  -- A client the step did not move keeps its promise by stability.
  have kept (same : σ.running c = σ'.running c) :
      Ensures (A r) (Post r) x.prog x.held x.log σ'.state :=
    (hp c r x (same.trans running)).stable
      (step.interference hS h (same.trans running) running)
  cases step with
  | start c' r' idle =>
      by_cases e : c = c'
      · subst e
        obtain ⟨rfl, rfl⟩ : r' = r ∧ _ = x := by simpa [Session.set] using running
        exact spec.ensures r' σ.state h.valid
      · exact kept (by simp [Session.set, e])
  | @query c' r' q next held log here free =>
      by_cases e : c = c'
      · subst e
        obtain ⟨rfl, rfl⟩ : r' = r ∧ _ = x := by simpa [Session.set] using running
        exact hp c r' _ here σ.state (Interference.refl _ _) (assumed _ _ _ (by simp))
      · exact kept (by simp [Session.set, e])
  | @commit c' r' a held log here accepted =>
      by_cases e : c = c'
      · simp [Session.set, e] at running
      · exact kept (by simp [Session.set, e])
  | @drop c' r' a held log here =>
      by_cases e : c = c'
      · simp [Session.set, e] at running
      · exact kept (by simp [Session.set, e])
  | abort c' =>
      by_cases e : c = c'
      · simp [Session.set, e] at running
      · exact kept (by simp [Session.set, e])
  | auto alone free accepted => exact kept rfl

theorem Run.promised {σ₀ σ : Session S ι} {es : List (Event S)} (hS : S.WellLocked)
    (spec : Specified S A Post) (idle : ∀ c, σ₀.running c = none) (valid : D.valid σ₀.state)
    (run : Run σ₀ es σ) (assumed : Assumed A es) : σ.Sound ∧ Promised A Post σ := by
  induction run with
  | refl => exact ⟨sound_of_idle idle valid, fun c r x h => by simp [idle] at h⟩
  | snoc _ step ih =>
      have ⟨sound, promised⟩ := ih fun r q v h => assumed r q v (by simp [h])
      exact ⟨step.sound hS sound,
        step.promised hS spec sound promised fun r q v h => assumed r q v (by simp [h])⟩

/-- What a step of a client that keeps its promise establishes. -/
def Event.Meets (Post : S.Request → Ending S.Reply → List (RowLock D.Row) → List D.Write →
    D.State → Prop) : Event S → Prop
  | .commit r a before after => D.valid before ∧
      ∃ held log, Post r (.commit a) held log before ∧ after = D.applyAll log before
  | .drop r a current => D.valid current ∧ ∃ held log, Post r (.drop a) held log current
  | .stmt _ _ _ => True
  | .auto q before after => D.valid before ∧ S.auto q ∧
      after = D.applyAll (D.writes q before) before

theorem Step.meets {σ σ' : Session S ι} {ev : List (Event S)} (h : σ.Sound)
    (hp : Promised A Post σ) (step : Step σ ev σ') : ∀ e ∈ ev, Event.Meets Post e := by
  intro e he
  cases step with
  | start | abort => simp at he
  | query here free =>
      obtain rfl := List.mem_singleton.mp he
      trivial
  | commit here accepted =>
      obtain rfl := List.mem_singleton.mp he
      exact ⟨h.valid, _, _, hp _ _ _ here _ (Interference.refl _ _), rfl⟩
  | drop here =>
      obtain rfl := List.mem_singleton.mp he
      exact ⟨h.valid, _, _, hp _ _ _ here _ (Interference.refl _ _)⟩
  | auto alone free accepted =>
      obtain rfl := List.mem_singleton.mp he
      exact ⟨h.valid, alone, rfl⟩

/-- Soundness: in every run from an idle session, every event meets the
postcondition of the request it ends. -/
theorem Run.meets {σ₀ σ : Session S ι} {es : List (Event S)} (hS : S.WellLocked)
    (spec : Specified S A Post) (idle : ∀ c, σ₀.running c = none) (valid : D.valid σ₀.state)
    (run : Run σ₀ es σ) (assumed : Assumed A es) : ∀ e ∈ es, Event.Meets Post e := by
  induction run with
  | refl => simp
  | snoc run step ih =>
      have assumed' : Assumed A _ := fun r q v h => assumed r q v (List.mem_append_left _ h)
      have ⟨sound, promised⟩ := run.promised hS spec idle valid assumed'
      intro e he
      rcases List.mem_append.mp he with old | new
      · exact ih assumed' e old
      · exact step.meets sound promised e new

end Specified

/-! The committed states of a run -/

/-- The change of the committed state an event records. -/
inductive Event.Moves : Event S → D.State → D.State → Prop where
  | commit {r : S.Request} {a : S.Reply} {s s' : D.State} : Moves (.commit r a s s') s s'
  | auto {q : D.Stmt} {s s' : D.State} : Moves (.auto q s s') s s'

theorem Step.moves {σ σ' : Session S ι} {ev : List (Event S)} (step : Step σ ev σ') :
    σ'.state = σ.state ∨ ∃ e ∈ ev, Event.Moves e σ.state σ'.state := by
  cases step with
  | start | query | drop | abort => exact .inl rfl
  | commit here accepted => exact .inr ⟨_, List.mem_singleton.mpr rfl, .commit⟩
  | auto alone free accepted => exact .inr ⟨_, List.mem_singleton.mpr rfl, .auto⟩

theorem Run.trans {σ₀ σ σ' : Session S ι} {es es' : List (Event S)} (run : Run σ₀ es σ)
    (run' : Run σ es' σ') : Run σ₀ (es ++ es') σ' := by
  induction run' with
  | refl => simpa using run
  | snoc _ step ih => simpa [← List.append_assoc] using ih.snoc step

/-- A run is a chain of the changes its events record. -/
theorem Run.chain {σ₀ σ : Session S ι} {es : List (Event S)} (run : Run σ₀ es σ)
    {R : D.State → D.State → Prop} (h : ∀ e ∈ es, ∀ s s', Event.Moves e s s' → R s s') :
    Relation.ReflTransGen R σ₀.state σ.state := by
  induction run with
  | refl => exact .refl
  | snoc _ step ih =>
      have before := ih fun e he => h e (List.mem_append_left _ he)
      rcases step.moves with same | ⟨e, he, moved⟩
      · exact same ▸ before
      · exact before.tail (h e (List.mem_append_right _ he) _ _ moved)

theorem Step.events {σ σ' : Session S ι} {ev : List (Event S)} (step : Step σ ev σ') :
    ev = [] ∨ ∃ e, ev = [e] := by
  cases step with
  | start | abort => exact .inl rfl
  | query | commit | drop | auto => exact .inr ⟨_, rfl⟩

theorem Step.moves_eq {σ σ' : Session S ι} {ev : List (Event S)} (step : Step σ ev σ')
    {e : Event S} (he : e ∈ ev) {s s' : D.State} (moved : Event.Moves e s s') :
    s = σ.state ∧ s' = σ'.state := by
  cases step with
  | start | abort => simp at he
  | query | drop =>
      obtain rfl := List.mem_singleton.mp he
      cases moved
  | commit | auto =>
      obtain rfl := List.mem_singleton.mp he
      cases moved
      exact ⟨rfl, rfl⟩

/-- What an event left is where the rest of the run went on from. -/
theorem Run.reaches {σ₀ σ : Session S ι} {es : List (Event S)} (run : Run σ₀ es σ)
    {R : D.State → D.State → Prop} (h : ∀ e ∈ es, ∀ s s', Event.Moves e s s' → R s s') :
    ∀ e ∈ es, ∀ s s', Event.Moves e s s' → Relation.ReflTransGen R s' σ.state := by
  induction run with
  | refl => simp
  | snoc _ step ih =>
      have before := ih fun e he => h e (List.mem_append_left _ he)
      intro e he s s' moved
      rcases List.mem_append.mp he with old | new
      · have here := before e old s s' moved
        rcases step.moves with same | ⟨e', he', moved'⟩
        · exact same ▸ here
        · exact here.tail (h e' (List.mem_append_right _ he') _ _ moved')
      · exact (step.moves_eq new moved).2 ▸ .refl

/-- The run up to a change. -/
theorem Run.before {σ₀ σ : Session S ι} {es : List (Event S)} (run : Run σ₀ es σ) {e : Event S}
    (he : e ∈ es) {s s' : D.State} (moved : Event.Moves e s s') :
    ∃ es₁ σ₁, Run σ₀ es₁ σ₁ ∧ σ₁.state = s ∧ es₁ <+: es := by
  induction run with
  | refl => simp at he
  | @snoc es ev σ σ' run step ih =>
      rcases List.mem_append.mp he with old | new
      · obtain ⟨es₁, σ₁, run₁, same, earlier⟩ := ih old
        exact ⟨es₁, σ₁, run₁, same, earlier.trans (List.prefix_append es ev)⟩
      · exact ⟨es, σ, run, (step.moves_eq new moved).1.symm, List.prefix_append es ev⟩

/-- Of two changes in a run, the later starts from a state the earlier led to. -/
theorem Run.pairwise {σ₀ σ : Session S ι} {es : List (Event S)} (run : Run σ₀ es σ)
    {R : D.State → D.State → Prop} (h : ∀ e ∈ es, ∀ s s', Event.Moves e s s' → R s s') :
    es.Pairwise fun e e' => ∀ s s' t t', Event.Moves e s s' → Event.Moves e' t t' →
      Relation.ReflTransGen R s' t := by
  induction run with
  | refl => exact .nil
  | snoc run step ih =>
      have h' := fun e he => h e (List.mem_append_left _ he)
      refine List.pairwise_append.mpr ⟨ih h', ?_, ?_⟩
      · rcases step.events with rfl | ⟨e, rfl⟩
        · exact .nil
        · exact List.pairwise_singleton _ _
      · intro e he e' he' s s' t t' moved moved'
        obtain ⟨rfl, -⟩ := step.moves_eq he' moved'
        exact run.reaches h' e he s s' moved

/-- A run up to some of its events, and the rest of it. -/
theorem Run.split {σ₀ σ : Session S ι} {es es' : List (Event S)} (run : Run σ₀ (es ++ es') σ) :
    ∃ σ₁, Run σ₀ es σ₁ ∧ Run σ₁ es' σ := by
  generalize whole : es ++ es' = all at run
  induction run generalizing es' with
  | refl =>
      obtain ⟨rfl, rfl⟩ := List.append_eq_nil_iff.mp whole
      exact ⟨σ₀, .refl, .refl⟩
  | @snoc es₀ ev σ σ' run step ih =>
      rcases step.events with rfl | ⟨e, rfl⟩
      · obtain ⟨σ₁, run₁, run₂⟩ := ih (whole.trans (List.append_nil es₀))
        exact ⟨σ₁, run₁, by simpa using run₂.snoc step⟩
      · rcases List.eq_nil_or_concat es' with rfl | ⟨rest, e', rfl⟩
        · rw [List.append_nil] at whole
          exact ⟨σ', whole ▸ run.snoc step, .refl⟩
        · rw [List.concat_eq_append, ← List.append_assoc] at whole
          obtain ⟨rfl, same⟩ := List.append_inj' whole rfl
          obtain ⟨σ₁, run₁, run₂⟩ := ih rfl
          refine ⟨σ₁, run₁, ?_⟩
          rw [List.concat_eq_append, same]
          exact run₂.snoc step

/-- Without events the committed state stays. -/
theorem Run.quiet {σ₀ σ : Session S ι} (run : Run σ₀ [] σ) : σ.state = σ₀.state := by
  generalize none : [] = es at run
  induction run with
  | refl => rfl
  | @snoc es ev σ σ' run step ih =>
      obtain ⟨rfl, rfl⟩ := List.append_eq_nil_iff.mp none.symm
      rcases step.moves with same | ⟨e, he, -⟩
      · exact same.trans (ih rfl)
      · simp at he

/-- A run with one event takes the step of that event, and silent ones. -/
theorem Run.single {σ₀ σ : Session S ι} {e : Event S} (run : Run σ₀ [e] σ) :
    ∃ σ₁ σ₂, Run σ₀ [] σ₁ ∧ Step σ₁ [e] σ₂ ∧ Run σ₂ [] σ := by
  generalize single : [e] = es at run
  induction run with
  | refl => cases single
  | @snoc es ev σ σ' run step ih =>
      rcases step.events with rfl | ⟨e', rfl⟩
      · rw [List.append_nil] at single ⊢
        obtain ⟨σ₁, σ₂, before, here, after⟩ := ih single
        exact ⟨σ₁, σ₂, before, here, after.snoc step⟩
      · have single : [] ++ [e] = es ++ [e'] := single
        obtain ⟨rfl, same⟩ := List.append_inj' single rfl
        obtain rfl := (List.cons.inj same).1
        exact ⟨σ, σ', run, step, .refl⟩

/-- A run is cut before and after one of its events. -/
theorem Run.cut {σ₀ σ : Session S ι} {es es' : List (Event S)} {e : Event S}
    (run : Run σ₀ (es ++ e :: es') σ) :
    ∃ σ₁ σ₂, Run σ₀ es σ₁ ∧ Run σ₁ [e] σ₂ ∧ Run σ₂ es' σ := by
  obtain ⟨σ₁, before, rest⟩ := run.split
  have rest : Run σ₁ ([e] ++ es') σ := rest
  obtain ⟨σ₂, here, after⟩ := rest.split
  exact ⟨σ₁, σ₂, before, here, after⟩

/-- A run at one of its events. -/
theorem Run.split_at {σ₀ σ : Session S ι} {es es' : List (Event S)} {e : Event S}
    (run : Run σ₀ (es ++ e :: es') σ) :
    ∃ σ₁ σ₂, Run σ₀ es σ₁ ∧ Step σ₁ [e] σ₂ ∧ Run σ₂ es' σ := by
  obtain ⟨σ₁, σ₂, run₁, here, run₂⟩ := run.cut
  obtain ⟨σ₃, σ₄, before, step, after⟩ := here.single
  exact ⟨σ₃, σ₄, by simpa using run₁.trans before, step, after.trans run₂⟩

/-- A change is made between the states that its event records. -/
theorem Run.moves {σ₀ σ : Session S ι} {e : Event S} (run : Run σ₀ [e] σ) {s s' : D.State}
    (moved : Event.Moves e s s') : s = σ₀.state ∧ s' = σ.state := by
  obtain ⟨σ₁, σ₂, before, step, after⟩ := run.single
  rw [← before.quiet, after.quiet]
  exact step.moves_eq (by simp) moved

/-- A run around one of its changes. -/
theorem Run.around {σ₀ σ : Session S ι} {es es' : List (Event S)} {e : Event S}
    (run : Run σ₀ (es ++ e :: es') σ) {s s' : D.State} (moved : Event.Moves e s s') :
    ∃ σ₁ σ₂, Run σ₀ es σ₁ ∧ σ₁.state = s ∧ Run σ₀ (es ++ [e]) σ₂ ∧ σ₂.state = s' ∧
      Run σ₂ es' σ := by
  obtain ⟨σ₁, σ₂, run₁, here, run₂⟩ := run.cut
  obtain ⟨before, after⟩ := here.moves moved
  exact ⟨σ₁, σ₂, run₁, before.symm, run₁.trans here, after.symm, run₂⟩

/-- Clients whose programs only read have written nothing. -/
theorem Run.unwritten {σ₀ σ : Session S ι} {es : List (Event S)} (run : Run σ₀ es σ)
    (idle : ∀ c, σ₀.running c = none) {c : ι} {r : S.Request} {x : Running D S.Reply}
    (here : σ.running c = some (r, x)) (reads : (S.program r).ReadOnly) :
    x.log = [] ∧ x.prog.ReadOnly := by
  induction run generalizing x with
  | refl => simp [idle] at here
  | @snoc es ev σ σ' run step ih =>
      cases step with
      | start c' r' idle' =>
          by_cases e : c = c'
          · subst e
            obtain ⟨rfl, rfl⟩ : r' = r ∧ _ = x := by simpa [Session.set] using here
            exact ⟨rfl, reads⟩
          · exact ih (by simpa [Session.set, e] using here)
      | @query c' r' q next held log before free =>
          by_cases e : c = c'
          · subst e
            obtain ⟨rfl, rfl⟩ : r' = r ∧ _ = x := by simpa [Session.set] using here
            obtain ⟨rfl, readOnly⟩ := ih before
            exact ⟨readOnly.1 _, readOnly.2 _⟩
          · exact ih (by simpa [Session.set, e] using here)
      | @commit c' r' a held log before accepted | @drop c' r' a held log before | abort c' =>
          by_cases e : c = c'
          · simp [Session.set, e] at here
          · exact ih (by simpa [Session.set, e] using here)
      | auto alone free accepted => exact ih here

/-- A statement of a program that only reads sees the committed state. -/
theorem Run.view {σ₀ σ : Session S ι} {es es' : List (Event S)} {r : S.Request} {q : D.Stmt}
    {v : D.State} (run : Run σ₀ (es ++ .stmt r q v :: es') σ)
    (idle : ∀ c, σ₀.running c = none) (reads : (S.program r).ReadOnly) :
    ∃ σ₁, Run σ₀ es σ₁ ∧ σ₁.state = v := by
  obtain ⟨σ₁, σ₂, run₁, step, -⟩ := run.split_at
  cases step with
  | query here free =>
      obtain ⟨rfl, -⟩ := run₁.unwritten idle here reads
      exact ⟨σ₁, run₁, rfl⟩

/-- A relation between the events so far and the committed state. -/
theorem Run.history {σ₀ σ : Session S ι} {es : List (Event S)} (run : Run σ₀ es σ)
    {H : List (Event S) → D.State → Prop} (init : H [] σ₀.state)
    (quiet : ∀ es' e s, es' ++ [e] <+: es → (∀ s s', ¬ Event.Moves e s s') → H es' s →
      H (es' ++ [e]) s)
    (change : ∀ es' e s s', es' ++ [e] <+: es → Event.Moves e s s' → H es' s →
      H (es' ++ [e]) s') : H es σ.state := by
  induction run with
  | refl => exact init
  | @snoc es ev σ σ' run step ih =>
      have further : ∀ {es' : List (Event S)} {e}, es' ++ [e] <+: es → es' ++ [e] <+: es ++ ev :=
        fun h => h.trans (List.prefix_append es ev)
      have before := ih (fun es' e s h => quiet es' e s (further h))
        fun es' e s s' h => change es' e s s' (further h)
      rcases step.events with rfl | ⟨e, rfl⟩
      · rcases step.moves with same | ⟨e, he, -⟩
        · rw [List.append_nil, same]
          exact before
        · simp at he
      · by_cases moves : ∃ s s', Event.Moves e s s'
        · obtain ⟨s, s', moved⟩ := moves
          obtain ⟨rfl, rfl⟩ := step.moves_eq (by simp) moved
          exact change es e _ _ (List.prefix_refl _) moved before
        · have stays : σ'.state = σ.state := by
            rcases step.moves with same | ⟨e', he', moved⟩
            · exact same
            · obtain rfl := List.mem_singleton.mp he'
              exact absurd ⟨_, _, moved⟩ moves
          rw [stays]
          exact quiet es e _ (List.prefix_refl _) (fun s s' moved => moves ⟨s, s', moved⟩) before

/-- A quantity that no event raises by more than its weight. -/
theorem Run.sum_le {σ₀ σ : Session S ι} {es : List (Event S)} (run : Run σ₀ es σ)
    {f : D.State → Int} {w : Event S → Int}
    (h : ∀ e ∈ es, ∀ s s', Event.Moves e s s' → f s' ≤ f s + w e)
    (moves : ∀ e ∈ es, w e < 0 → ∃ s s', Event.Moves e s s') :
    f σ.state ≤ f σ₀.state + (es.map w).sum := by
  induction run with
  | refl => simp
  | @snoc es ev σ σ' run step ih =>
      have before := ih (fun e he => h e (List.mem_append_left _ he))
        fun e he => moves e (List.mem_append_left _ he)
      rw [List.map_append, List.sum_append]
      rcases step.events with rfl | ⟨e, rfl⟩
      · rcases step.moves with same | ⟨e, he, -⟩
        · simpa [same] using before
        · simp at he
      · have last : f σ'.state ≤ f σ.state + w e := by
          rcases step.moves with same | ⟨e', he', moved⟩
          · by_cases negative : w e < 0
            · obtain ⟨s, s', moved⟩ := moves e (by simp) negative
              obtain ⟨rfl, rfl⟩ := step.moves_eq (by simp) moved
              exact h e (by simp) _ _ moved
            · rw [same]
              omega
          · obtain rfl := List.mem_singleton.mp he'
            exact h e' (by simp) _ _ moved
        simp only [List.map_cons, List.map_nil, List.sum_cons, List.sum_nil]
        omega

theorem sum_indicator {α : Type} (p : α → Bool) (n : Int) (xs : List α) :
    (xs.map fun x => if p x then n else 0).sum = n * xs.countP p := by
  induction xs with
  | nil => simp
  | cons x xs ih =>
      rw [List.map_cons, List.sum_cons, ih, List.countP_cons]
      cases p x with
      | true =>
          simp only [if_true, Int.natCast_add, Int.mul_add]
          omega
      | false => simp

/-- A quantity that each event of a kind raises by one counts those events. -/
theorem Run.count {σ₀ σ : Session S ι} {es : List (Event S)} (run : Run σ₀ es σ)
    {f : D.State → Int} {p : Event S → Bool}
    (h : ∀ e ∈ es, ∀ s s', Event.Moves e s s' → f s' = f s + if p e then 1 else 0)
    (moves : ∀ e ∈ es, p e → ∃ s s', Event.Moves e s s') :
    f σ.state = f σ₀.state + es.countP p := by
  have upper := run.sum_le (f := f) (w := fun e => if p e then 1 else 0)
    (fun e he s s' moved => Int.le_of_eq (h e he s s' moved))
    fun e _ negative => by split at negative <;> omega
  have lower := run.sum_le (f := fun s => -f s) (w := fun e => if p e then -1 else 0)
    (fun e he s s' moved => by
      rw [h e he s s' moved]
      split <;> omega)
    fun e he negative => moves e he (by
      by_contra other
      simp [other] at negative)
  rw [sum_indicator] at upper lower
  omega

end Session
