import Xotero.Foundation.Locking

/-!
Processes beside the clients of a database: each runs statements that stand
alone and calls an outside service. A statement may fail, whether or not it has
run; a call that fails may still take effect, at any later time and more than
once; and a process may stop anywhere.

`Discipline` says what any step of such a world may do (`rely`), what it keeps
(`inv`) and which calls it may make (`may`). `Process.Keeps` is the weakest
precondition of a process under it, and `World.Run.kept` carries it to every
run.
-/

/-- A service as its callers see it. -/
structure Service where
  State : Type
  Op : Type
  apply : Op → State → State

/-- `none` and `false` are failures. -/
inductive Process (D : Interface) (V : Service) (α : Type) where
  | ret (a : α)
  | stmt (q : D.Stmt) (next : Option (D.Result q) → Process D V α)
  | call (op : V.Op) (next : Bool → Process D V α)

namespace Process
variable {D : Interface} {V : Service} {α β : Type}

def bind : Process D V α → (α → Process D V β) → Process D V β
  | .ret a, f => f a
  | .stmt q next, f => .stmt q fun r => (next r).bind f
  | .call op next, f => .call op fun done => (next done).bind f

instance : Monad (Process D V) where
  pure := .ret
  bind := bind

theorem bind_bind {γ : Type} (p : Process D V α) (f : α → Process D V β)
    (g : β → Process D V γ) : p >>= f >>= g = p >>= fun a => f a >>= g := by
  induction p with
  | ret a => rfl
  | stmt q next ih => exact congrArg (stmt q) (funext ih)
  | call op next ih => exact congrArg (call op) (funext ih)

/-- A program without a transaction. -/
def ofTxn : Txn D α → Process D V (Option α)
  | .ret a => .ret (some a)
  | .fail => .ret none
  | .query q next => .stmt q fun answer => answer.elim (.ret none) fun r => ofTxn (next r)

/-- The continuation of a program that did not fail. -/
theorem ofTxn_bind (p : Txn D α) (f : α → Txn D β) : (ofTxn (p >>= f) : Process D V (Option β)) =
    (ofTxn p : Process D V (Option α)) >>= fun answer =>
      answer.elim (return none) fun a => ofTxn (f a) := by
  induction p with
  | ret a => rfl
  | fail => rfl
  | query q next ih =>
      refine congrArg (Process.stmt q) (funext fun answer => ?_)
      cases answer with
      | none => rfl
      | some r => exact ih r

/-- One statement. -/
def query (q : D.Stmt) : Process D V (Option (D.Result q)) := .stmt q .ret

/-- One call; whether it succeeded. -/
def invoke (op : V.Op) : Process D V Bool := .call op .ret

/-- What a process does when every statement and every call succeeds. -/
def alone : Process D V α → D.State → V.State → D.State × V.State
  | .ret _, s, v => (s, v)
  | .stmt q next, s, v => (next (some (D.eval q s))).alone (D.applyAll (D.writes q s) s) v
  | .call op next, s, v => (next true).alone s (V.apply op v)

/-- The statements it then runs, each with the state it sees. -/
def stmts : Process D V α → D.State → List (D.Stmt × D.State)
  | .ret _, _ => []
  | .stmt q next, s =>
      (q, s) :: (next (some (D.eval q s))).stmts (D.applyAll (D.writes q s) s)
  | .call _ next, s => (next true).stmts s

/-- It can do so: its lone statements leave a valid state, and the others only
read. -/
def Fits (S : System D) (p : Process D V α) (s : D.State) : Prop :=
  ∀ e ∈ p.stmts s, S.auto e.1 ∧ D.valid (D.applyAll (D.writes e.1 e.2) e.2) ∨
    ¬ S.auto e.1 ∧ ∀ s, D.writes e.1 s = []

end Process

/-- The programs of the clients of a database, and the processes beside them. -/
structure Plant (D : Interface) (V : Service) where
  system : System D
  Job : Type
  Answer : Type
  process : Job → Process D V Answer

structure World {D : Interface} {V : Service} (P : Plant D V) (ι π : Type) where
  session : Session P.system ι
  service : V.State
  /-- The calls that failed, whose effect may still come. -/
  sent : List V.Op
  running : π → Option (Process D V P.Answer)

/-- A world nobody uses yet. -/
def World.idle {D : Interface} {V : Service} {P : Plant D V} {ι π : Type} (s : D.State)
    (v : V.State) : World P ι π :=
  ⟨.idle s, v, [], fun _ => none⟩

namespace World
variable {D : Interface} {V : Service} {P : Plant D V} {ι π : Type} [DecidableEq ι]
  [DecidableEq π]

def set (w : World P ι π) (p : π) (x : Option (Process D V P.Answer)) : World P ι π :=
  { w with running := fun p' => if p' = p then x else w.running p' }

inductive Step : World P ι π → List (Event P.system) → World P ι π → Prop where
  | session {w : World P ι π} {ev : List (Event P.system)} {σ : Session P.system ι}
      (step : Session.Step w.session ev σ) (clients : ∀ q s s', .auto q s s' ∉ ev) :
      Step w ev { w with session := σ }
  | spawn {w : World P ι π} (p : π) (job : P.Job) (idle : w.running p = none) :
      Step w [] (w.set p (some (P.process job)))
  | read {w : World P ι π} {p : π} {q : D.Stmt}
      {next : Option (D.Result q) → Process D V P.Answer}
      (here : w.running p = some (.stmt q next)) (plain : ¬ P.system.auto q)
      (reads : ∀ s, D.writes q s = []) :
      Step w [] (w.set p (some (next (some (D.eval q w.session.state)))))
  | write {w : World P ι π} {p : π} {q : D.Stmt}
      {next : Option (D.Result q) → Process D V P.Answer} {s s' : D.State}
      {σ : Session P.system ι} {answer : Option (D.Result q)}
      (here : w.running p = some (.stmt q next))
      (step : Session.Step w.session [.auto q s s'] σ)
      (answered : answer = some (D.eval q s) ∨ answer = none) :
      Step w [.auto q s s'] ({ w with session := σ }.set p (some (next answer)))
  | fail {w : World P ι π} {p : π} {q : D.Stmt}
      {next : Option (D.Result q) → Process D V P.Answer}
      (here : w.running p = some (.stmt q next)) : Step w [] (w.set p (some (next none)))
  | call {w : World P ι π} {p : π} {op : V.Op} {next : Bool → Process D V P.Answer}
      (here : w.running p = some (.call op next)) :
      Step w [] ({ w with service := V.apply op w.service }.set p (some (next true)))
  | lose {w : World P ι π} {p : π} {op : V.Op} {next : Bool → Process D V P.Answer}
      (here : w.running p = some (.call op next)) :
      Step w [] ({ w with sent := op :: w.sent }.set p (some (next false)))
  | late {w : World P ι π} {op : V.Op} (sent : op ∈ w.sent) :
      Step w [] { w with service := V.apply op w.service }
  | stop {w : World P ι π} (p : π) : Step w [] (w.set p none)

/-- The events of a run, in order. -/
inductive Run (w₀ : World P ι π) : List (Event P.system) → World P ι π → Prop where
  | refl : Run w₀ [] w₀
  | snoc {es ev : List (Event P.system)} {w w' : World P ι π} (run : Run w₀ es w)
      (step : Step w ev w') : Run w₀ (es ++ ev) w'

end World

/-! ### What every step may do -/

/-- The database and the service at some point of a run, with the events so far. -/
structure Moment {D : Interface} {V : Service} (P : Plant D V) where
  events : List (Event P.system)
  state : D.State
  service : V.State

namespace Moment
variable {D : Interface} {V : Service} {P : Plant D V}

/-- After a lone statement. -/
def wrote (m : Moment P) (q : D.Stmt) : Moment P where
  events := m.events ++ [.auto q m.state (D.applyAll (D.writes q m.state) m.state)]
  state := D.applyAll (D.writes q m.state) m.state
  service := m.service

/-- After a call. -/
def called (m : Moment P) (op : V.Op) : Moment P :=
  { m with service := V.apply op m.service }

end Moment

structure Discipline {D : Interface} {V : Service} (P : Plant D V) where
  inv : Moment P → Prop
  rely : Moment P → Moment P → Prop
  may : V.Op → Moment P → Prop
  refl : ∀ m, rely m m
  trans : ∀ {m m' m''}, rely m m' → rely m' m'' → rely m m''
  may_mono : ∀ {op m m'}, may op m → rely m m' → may op m'
  called : ∀ {op m}, inv m → may op m → inv (m.called op) ∧ rely m (m.called op)

/-- The process keeps to the discipline from `m` on, and ends as `Q` says. -/
def Process.Keeps {D : Interface} {V : Service} {P : Plant D V} {α : Type} (R : Discipline P)
    (Q : α → Moment P → Prop) : Process D V α → Moment P → Prop
  | .ret a, m => ∀ m', R.rely m m' → R.inv m' → Q a m'
  | .stmt q next, m => ∀ m', R.rely m m' → R.inv m' →
      (next none).Keeps R Q m' ∧
      (¬ P.system.auto q → (next (some (D.eval q m'.state))).Keeps R Q m') ∧
      (P.system.auto q → R.inv (m'.wrote q) ∧ R.rely m' (m'.wrote q) ∧
        ∀ answer, answer = some (D.eval q m'.state) ∨ answer = none →
          (next answer).Keeps R Q (m'.wrote q))
  | .call op next, m => ∀ m', R.rely m m' → R.inv m' →
      R.may op m' ∧ (next true).Keeps R Q (m'.called op) ∧ (next false).Keeps R Q m'

namespace Process
variable {D : Interface} {V : Service} {P : Plant D V} {α β : Type} {R : Discipline P}
  {Q Q' : α → Moment P → Prop} {m m' : Moment P} {p : Process D V α}

/-- A precondition is stable. -/
theorem Keeps.stable (h : p.Keeps R Q m) (r : R.rely m m') : p.Keeps R Q m' := by
  cases p with
  | ret a | stmt q next | call op next => exact fun m'' r' => h m'' (R.trans r r')

/-- It is enough to keep to the discipline from every later moment on. -/
theorem Keeps.later (h : ∀ m', R.rely m m' → R.inv m' → p.Keeps R Q m') : p.Keeps R Q m := by
  cases p with
  | ret a | stmt q next | call op next => exact fun m' r i => h m' r i m' (R.refl m') i

theorem Keeps.imp (h : p.Keeps R Q m) (post : ∀ a m, Q a m → Q' a m) : p.Keeps R Q' m := by
  induction p generalizing m with
  | ret a => exact fun m' r i => post a m' (h m' r i)
  | stmt q next ih =>
      intro m' r i
      obtain ⟨failed, read, wrote⟩ := h m' r i
      refine ⟨ih _ failed, fun plain => ih _ (read plain), fun alone => ?_⟩
      obtain ⟨inv, rely, done⟩ := wrote alone
      exact ⟨inv, rely, fun answer given => ih _ (done answer given)⟩
  | call op next ih =>
      intro m' r i
      obtain ⟨may, done, failed⟩ := h m' r i
      exact ⟨may, ih _ done, ih _ failed⟩

theorem Keeps.bind {f : α → Process D V β} {Q : β → Moment P → Prop}
    (h : p.Keeps R (fun a m => (f a).Keeps R Q m) m) : (p >>= f).Keeps R Q m := by
  induction p generalizing m with
  | ret a => exact .later h
  | stmt q next ih =>
      intro m' r i
      obtain ⟨failed, read, wrote⟩ := h m' r i
      refine ⟨ih _ failed, fun plain => ih _ (read plain), fun alone => ?_⟩
      obtain ⟨inv, rely, done⟩ := wrote alone
      exact ⟨inv, rely, fun answer given => ih _ (done answer given)⟩
  | call op next ih =>
      intro m' r i
      obtain ⟨may, done, failed⟩ := h m' r i
      exact ⟨may, ih _ done, ih _ failed⟩

/-- What is stable goes on holding. -/
theorem Keeps.frame (h : p.Keeps R Q m) {K : Moment P → Prop}
    (stable : ∀ {m m'}, K m → R.rely m m' → K m') (known : K m) :
    p.Keeps R (fun a m => Q a m ∧ K m) m := by
  induction p generalizing m with
  | ret a => exact fun m' r i => ⟨h m' r i, stable known r⟩
  | stmt q next ih =>
      intro m' r i
      obtain ⟨failed, read, wrote⟩ := h m' r i
      have known := stable known r
      refine ⟨ih _ failed known, fun plain => ih _ (read plain) known, fun alone => ?_⟩
      obtain ⟨inv, rely, done⟩ := wrote alone
      exact ⟨inv, rely, fun answer given => ih _ (done answer given) (stable known rely)⟩
  | call op next ih =>
      intro m' r i
      obtain ⟨may, done, failed⟩ := h m' r i
      have known := stable known r
      exact ⟨may, ih _ done (stable known (R.called i may).2), ih _ failed known⟩

/-- A program of plain reads. -/
theorem keeps_ofTxn {p : Txn D α} (plain : p.Avoids P.system.auto) (m : Moment P) :
    (ofTxn p : Process D V (Option α)).Keeps R (fun _ _ => True) m := by
  induction p generalizing m with
  | ret a | fail => exact fun _ _ _ => trivial
  | query q next ih =>
      rw [ofTxn]
      intro m' r i
      exact ⟨fun _ _ _ => trivial, fun _ => ih _ (plain.2 _) m', fun alone => absurd alone plain.1⟩

/-- A plain read. -/
theorem keeps_read {q : D.Stmt} {f : Option (D.Result q) → Process D V β}
    {Q : β → Moment P → Prop} (plain : ¬ P.system.auto q) (failed : (f none).Keeps R Q m)
    (done : ∀ m', R.rely m m' → R.inv m' → (f (some (D.eval q m'.state))).Keeps R Q m') :
    (query q >>= f).Keeps R Q m :=
  fun m' r i => ⟨failed.stable r, fun _ => done m' r i, fun alone => absurd alone plain⟩

/-- A statement that stands alone. -/
theorem keeps_write {q : D.Stmt} {f : Option (D.Result q) → Process D V β}
    {Q : β → Moment P → Prop} (alone : P.system.auto q) (failed : (f none).Keeps R Q m)
    (step : ∀ m', R.rely m m' → R.inv m' → R.inv (m'.wrote q) ∧ R.rely m' (m'.wrote q))
    (done : ∀ m', R.rely m m' → R.inv m' →
      (f (some (D.eval q m'.state))).Keeps R Q (m'.wrote q)) : (query q >>= f).Keeps R Q m := by
  intro m' r i
  obtain ⟨inv, rely⟩ := step m' r i
  refine ⟨failed.stable r, fun plain => absurd alone plain, fun _ => ⟨inv, rely, ?_⟩⟩
  rintro answer (rfl | rfl)
  · exact done m' r i
  · exact failed.stable (R.trans r rely)

theorem keeps_invoke {op : V.Op} {f : Bool → Process D V β} {Q : β → Moment P → Prop}
    (may : R.may op m) (failed : (f false).Keeps R Q m)
    (done : ∀ m', R.rely m m' → R.inv m' → (f true).Keeps R Q (m'.called op)) :
    (invoke op >>= f).Keeps R Q m :=
  fun m' r i => ⟨R.may_mono may r, done m' r i, failed.stable r⟩

end Process

/-! ### What no call touches -/

section Watching
variable {D : Interface} {V : Service} {P : Plant D V} {α β : Type} {R : Discipline P}
  {view : V.State → β} {m : Moment P}

/-- The same discipline, which also says that nothing changes the view. -/
def Discipline.watching (R : Discipline P) (view : V.State → β)
    (blind : ∀ op m, R.inv m → R.may op m → view (V.apply op m.service) = view m.service) :
    Discipline P where
  inv := R.inv
  rely m m' := R.rely m m' ∧ view m'.service = view m.service
  may := R.may
  refl m := ⟨R.refl m, rfl⟩
  trans h h' := ⟨R.trans h.1 h'.1, h'.2.trans h.2⟩
  may_mono may h := R.may_mono may h.1
  called inv may := ⟨(R.called inv may).1, (R.called inv may).2, blind _ _ inv may⟩

variable {blind : ∀ op m, R.inv m → R.may op m → view (V.apply op m.service) = view m.service}

theorem Process.Keeps.watching {Q : α → Moment P → Prop} {p : Process D V α} (h : p.Keeps R Q m) :
    p.Keeps (R.watching view blind) Q m := by
  induction p generalizing m with
  | ret a => exact fun m' r i => h m' r.1 i
  | stmt q next ih =>
      intro m' r i
      obtain ⟨failed, read, wrote⟩ := h m' r.1 i
      refine ⟨ih _ failed, fun plain => ih _ (read plain), fun alone => ?_⟩
      obtain ⟨inv, rely, done⟩ := wrote alone
      exact ⟨inv, ⟨rely, rfl⟩, fun answer given => ih _ (done answer given)⟩
  | call op next ih =>
      intro m' r i
      obtain ⟨may, done, failed⟩ := h m' r.1 i
      exact ⟨may, ih _ done, ih _ failed⟩

end Watching

/-! ### Soundness for every interleaving -/

namespace World
variable {D : Interface} {V : Service} {P : Plant D V} {ι π : Type} [DecidableEq ι]
  [DecidableEq π] {R : Discipline P} {w₀ w w' : World P ι π} {es ev : List (Event P.system)}

def moment (w : World P ι π) (es : List (Event P.system)) : Moment P :=
  ⟨es, w.session.state, w.service⟩

/-- A world whose processes all keep to the discipline. -/
structure Kept (R : Discipline P) (w : World P ι π) (es : List (Event P.system)) : Prop where
  inv : R.inv (w.moment es)
  processes : ∀ p x, w.running p = some x → x.Keeps R (fun _ _ => True) (w.moment es)
  sent : ∀ op ∈ w.sent, R.may op (w.moment es)

/-- The clients of the database keep to the discipline in every run that starts
from `σ₀` and has no other events than these. -/
def Clients (R : Discipline P) (σ₀ : Session P.system ι) (all : List (Event P.system)) : Prop :=
  ∀ {es ev : List (Event P.system)} {σ σ' : Session P.system ι} (v : V.State),
    Session.Run σ₀ es σ → Session.Step σ ev σ' → (∀ q s s', .auto q s s' ∉ ev) →
    es ++ ev <+: all → R.inv ⟨es, σ.state, v⟩ →
    R.inv ⟨es ++ ev, σ'.state, v⟩ ∧ R.rely ⟨es, σ.state, v⟩ ⟨es ++ ev, σ'.state, v⟩

omit [DecidableEq π] in
theorem Clients.mono {σ₀ : Session P.system ι} {all all' : List (Event P.system)}
    (h : Clients R σ₀ all) (earlier : all' <+: all) : Clients R σ₀ all' :=
  fun v run step others here => h v run step others (here.trans earlier)

omit [DecidableEq ι] in
/-- Processes under way, and one that has moved. -/
theorem Kept.move {x : Option (Process D V P.Answer)} (h : w.Kept R es) (p : π)
    (running : ∀ p', w'.running p' = if p' = p then x else w.running p')
    (inv : R.inv (w'.moment ev)) (rely : R.rely (w.moment es) (w'.moment ev))
    (moved : ∀ y, x = some y → y.Keeps R (fun _ _ => True) (w'.moment ev))
    (sent : ∀ op ∈ w'.sent, R.may op (w'.moment ev)) : w'.Kept R ev where
  inv := inv
  processes p' y here := by
    rw [running] at here
    split at here
    · exact moved y here
    · exact (h.processes p' y here).stable rely
  sent := sent

omit [DecidableEq ι] [DecidableEq π] in
theorem Kept.may_mono (h : w.Kept R es) {m : Moment P} (rely : R.rely (w.moment es) m) :
    ∀ op ∈ w.sent, R.may op m :=
  fun op sent => R.may_mono (h.sent op sent) rely

theorem Step.kept (h : w.Kept R es) (step : Step w ev w')
    (spawned : ∀ job m, R.inv m → (P.process job).Keeps R (fun _ _ => True) m)
    (clients : ∀ σ, Session.Step w.session ev σ → (∀ q s s', .auto q s s' ∉ ev) →
      R.inv ⟨es ++ ev, σ.state, w.service⟩ ∧
        R.rely (w.moment es) ⟨es ++ ev, σ.state, w.service⟩) :
    w'.Kept R (es ++ ev) ∧ R.rely (w.moment es) (w'.moment (es ++ ev)) := by
  cases step with
  | session step others =>
      obtain ⟨inv, rely⟩ := clients _ step others
      exact ⟨⟨inv, fun p x here => (h.processes p x here).stable rely, h.may_mono rely⟩, rely⟩
  | spawn p job idle =>
      rw [List.append_nil]
      exact ⟨h.move p (fun _ => rfl) h.inv (R.refl _)
        (fun y same => Option.some.inj same ▸ spawned job _ h.inv) h.sent, R.refl _⟩
  | @read p q next here plain reads =>
      rw [List.append_nil]
      obtain ⟨-, read, -⟩ := h.processes p _ here _ (R.refl _) h.inv
      exact ⟨h.move p (fun _ => rfl) h.inv (R.refl _)
        (fun y same => Option.some.inj same ▸ read plain) h.sent, R.refl _⟩
  | @write p q next s s' σ answer here step answered =>
      cases step with
      | auto alone free accepted =>
          obtain ⟨-, -, wrote⟩ := h.processes p _ here _ (R.refl _) h.inv
          obtain ⟨inv, rely, done⟩ := wrote alone
          exact ⟨h.move p (fun _ => rfl) inv rely
            (fun y same => Option.some.inj same ▸ done answer answered) (h.may_mono rely), rely⟩
  | @fail p q next here =>
      rw [List.append_nil]
      obtain ⟨failed, -, -⟩ := h.processes p _ here _ (R.refl _) h.inv
      exact ⟨h.move p (fun _ => rfl) h.inv (R.refl _)
        (fun y same => Option.some.inj same ▸ failed) h.sent, R.refl _⟩
  | @call p op next here =>
      rw [List.append_nil]
      obtain ⟨may, done, -⟩ := h.processes p _ here _ (R.refl _) h.inv
      obtain ⟨inv, rely⟩ := R.called h.inv may
      exact ⟨h.move p (fun _ => rfl) inv rely
        (fun y same => Option.some.inj same ▸ done) (h.may_mono rely), rely⟩
  | @lose p op next here =>
      rw [List.append_nil]
      obtain ⟨may, -, failed⟩ := h.processes p _ here _ (R.refl _) h.inv
      refine ⟨h.move p (fun _ => rfl) h.inv (R.refl _)
        (fun y same => Option.some.inj same ▸ failed) fun op' sent => ?_, R.refl _⟩
      rcases List.mem_cons.mp sent with rfl | sent
      · exact may
      · exact h.sent op' sent
  | late sent =>
      rw [List.append_nil]
      obtain ⟨inv, rely⟩ := R.called h.inv (h.sent _ sent)
      exact ⟨⟨inv, fun p x here => (h.processes p x here).stable rely, h.may_mono rely⟩, rely⟩
  | stop p =>
      rw [List.append_nil]
      exact ⟨h.move p (fun _ => rfl) h.inv (R.refl _) (fun y same => nomatch same) h.sent,
        R.refl _⟩

theorem Run.trans {es' : List (Event P.system)} {w' : World P ι π} (run : Run w₀ es w)
    (run' : Run w es' w') : Run w₀ (es ++ es') w' := by
  induction run' with
  | refl => simpa using run
  | snoc _ step ih => simpa [← List.append_assoc] using ih.snoc step

/-- What the clients of the database have done. -/
theorem Run.session (run : Run w₀ es w) : Session.Run w₀.session es w.session := by
  induction run with
  | refl => exact .refl
  | snoc run step ih =>
      cases step with
      | session step others => exact ih.snoc step
      | write here step answered => exact ih.snoc step
      | spawn | read | fail | call | lose | late | stop =>
          rw [List.append_nil]
          exact ih

/-- Soundness: all the way through a run, and what its later part may have done. -/
theorem Run.kept {es' : List (Event P.system)} (before : Run w₀ es w) (run : Run w es' w')
    (h : w.Kept R es)
    (spawned : ∀ job m, R.inv m → (P.process job).Keeps R (fun _ _ => True) m)
    (clients : Clients R w₀.session (es ++ es')) :
    w'.Kept R (es ++ es') ∧ R.rely (w.moment es) (w'.moment (es ++ es')) := by
  induction run with
  | refl =>
      rw [List.append_nil]
      exact ⟨h, R.refl _⟩
  | @snoc es₁ ev w₁ w₂ run step ih =>
      rw [← List.append_assoc] at clients ⊢
      obtain ⟨kept, rely⟩ := ih (clients.mono (List.prefix_append _ _))
      have here := (before.trans run).session
      obtain ⟨kept', rely'⟩ := step.kept kept spawned fun σ step others =>
        clients _ here step others (List.prefix_refl _) kept.inv
      exact ⟨kept', R.trans rely rely'⟩

/-- What no call of the discipline changes stays as it is. -/
theorem Run.unchanged {es' : List (Event P.system)} {β : Type} (view : V.State → β)
    (before : Run w₀ es w) (run : Run w es' w') (h : w.Kept R es)
    (spawned : ∀ job m, R.inv m → (P.process job).Keeps R (fun _ _ => True) m)
    (clients : Clients R w₀.session (es ++ es'))
    (blind : ∀ op m, R.inv m → R.may op m → view (V.apply op m.service) = view m.service) :
    view w'.service = view w.service := by
  have watched : w.Kept (R.watching view blind) es :=
    ⟨h.inv, fun p x here => (h.processes p x here).watching, h.sent⟩
  have quiet : Clients (R.watching view blind) w₀.session (es ++ es') :=
    fun v run step others here inv =>
      (clients v run step others here inv).imp_right fun rely => ⟨rely, rfl⟩
  exact (before.kept run watched (fun job m inv => (spawned job m inv).watching) quiet).2.2

/-! ### Processes alone -/

section Alone
variable {s : D.State} {v : V.State} {sent : List V.Op}
    {running : π → Option (Process D V P.Answer)}

omit [DecidableEq ι] in
theorem set_set (w : World P ι π) (p : π) (x y : Option (Process D V P.Answer)) :
    (w.set p x).set p y = w.set p y := by
  simp only [set]
  congr 1
  funext p'
  split <;> rfl

/-- What the clients of the database do, beside the processes. -/
theorem Run.ofSession {σ σ' : Session P.system ι} (run : Session.Run σ es σ')
    (clients : ∀ q s s', .auto q s s' ∉ es) :
    Run (⟨σ, v, sent, running⟩ : World P ι π) es ⟨σ', v, sent, running⟩ := by
  induction run with
  | refl => exact .refl
  | @snoc es ev σ σ' run step ih =>
      have before := ih fun q s s' mem => clients q s s' (List.mem_append_left _ mem)
      exact before.snoc (.session step fun q s s' mem =>
        clients q s s' (List.mem_append_right _ mem))

theorem Run.step_trans {w₁ w₂ : World P ι π} (step : Step w₀ ev w₁) (run : Run w₁ es w₂) :
    Run w₀ (ev ++ es) w₂ := by
  have first : Run w₀ ([] ++ ev) w₁ := .snoc .refl step
  exact first.trans run

/-- A process alone, all of whose statements and calls succeed. -/
theorem Run.alone (v : V.State) (sent : List V.Op) (running : π → Option (Process D V P.Answer))
    (p : π) {x : Process D V P.Answer} (fits : x.Fits P.system s) :
    ∃ es, Run ((⟨.idle s, v, sent, running⟩ : World P ι π).set p (some x)) es
      ((⟨.idle (x.alone s v).1, (x.alone s v).2, sent, running⟩ : World P ι π).set p none) ∧
      ∀ e ∈ es, ∃ q s s', e = .auto q s s' := by
  induction x generalizing s v with
  | ret a =>
      have step := Step.stop
          (w := (⟨.idle s, v, sent, running⟩ : World P ι π).set p (some (.ret a))) p
      rw [set_set] at step
      exact ⟨_, Run.refl.snoc step, by simp⟩
  | stmt q next ih =>
      have here : ((⟨.idle s, v, sent, running⟩ : World P ι π).set p
          (some (.stmt q next))).running p = some (.stmt q next) := if_pos rfl
      obtain ⟨kind, rest⟩ := List.forall_mem_cons.mp fits
      obtain ⟨es, run, autos⟩ := ih _ v rest
      rcases kind with ⟨alone, valid⟩ | ⟨plain, reads⟩
      · have step := Step.write here
          (.auto alone (fun _ _ _ running => nomatch running) valid) (.inl rfl)
        have target := set_set
            (⟨.idle (D.applyAll (D.writes q s) s), v, sent, running⟩ : World P ι π)
          p (some (.stmt q next)) (some (next (some (D.eval q s))))
        refine ⟨_, .step_trans step (target ▸ run), fun e mem => ?_⟩
        rcases List.mem_cons.mp mem with rfl | later
        · exact ⟨_, _, _, rfl⟩
        · exact autos e later
      · have step := Step.read here plain reads
        rw [set_set] at step
        rw [reads s] at run
        refine ⟨es, .step_trans step ?_, autos⟩
        rw [Process.alone, reads s]
        exact run
  | call op next ih =>
      have here : ((⟨.idle s, v, sent, running⟩ : World P ι π).set p
          (some (.call op next))).running p = some (.call op next) := if_pos rfl
      obtain ⟨es, run, autos⟩ := ih _ (V.apply op v) fits
      have step := Step.call here
      have target := set_set (⟨.idle s, V.apply op v, sent, running⟩ : World P ι π) p
        (some (.call op next)) (some (next true))
      exact ⟨es, .step_trans step (target ▸ run), autos⟩

end Alone

end World
