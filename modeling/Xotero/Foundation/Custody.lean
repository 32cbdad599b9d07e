import Xotero.Foundation.Processes
import Xotero.Foundation.Schedule

/-!
One server at a time beside the clients of a database: a restart ends all of its
processes, and the first one runs alone until the server serves. A failed call
has taken effect, or has not, or may still do so if it outlasts its caller. A
request begins only after its caller has looked at the database.

A process may hold something that the others leave alone, such as the right to
use one name. `Custody` says what can be held, and `Process.Holds` is the weakest
precondition of a process with what it holds; `Machine.Run.kept` carries it to
every run.
-/

/-- The first process of a server, the calls that may take effect after they have
failed, and what the caller of a request has seen. -/
structure Host {D : Interface} {V : Service} (P : Plant D V) where
  boot : P.Job → Prop
  lasting : V.Op → Prop
  looks : P.system.Request → D.State → Prop

structure Machine {D : Interface} {V : Service} {P : Plant D V} (H : Host P) (ι π : Type) where
  session : Session P.system ι
  service : V.State
  /-- The calls that have taken effect. -/
  calls : List V.Op
  /-- The calls that have failed without effect. -/
  sent : List V.Op
  admitted : List P.system.Request
  serving : Bool
  running : π → Option (Process D V P.Answer)

namespace Machine
variable {D : Interface} {V : Service} {P : Plant D V} {H : Host P} {ι π : Type} [DecidableEq ι]
  [DecidableEq π]

/-- A server that nobody uses yet. -/
def idle (s : D.State) (v : V.State) : Machine H ι π :=
  ⟨.idle s, v, [], [], [], true, fun _ => none⟩

def set (w : Machine H ι π) (p : π) (x : Option (Process D V P.Answer)) : Machine H ι π :=
  { w with running := fun p' => if p' = p then x else w.running p' }

def effect (w : Machine H ι π) (op : V.Op) : Machine H ι π :=
  { w with service := V.apply op w.service, calls := op :: w.calls }

inductive Step : Machine H ι π → List (Event P.system) → Machine H ι π → Prop where
  | session {w : Machine H ι π} {ev : List (Event P.system)} {σ : Session P.system ι}
      (step : Session.Step w.session ev σ) (clients : ∀ q s s', .auto q s s' ∉ ev)
      (begun : ∀ c r x, w.session.running c = none → σ.running c = some (r, x) →
        r ∈ w.admitted) : Step w ev { w with session := σ }
  | enter {w : Machine H ι π} (r : P.system.Request) (seen : H.looks r w.session.state) :
      Step w [] { w with admitted := r :: w.admitted }
  | spawn {w : Machine H ι π} (p : π) (job : P.Job) (serving : w.serving = true)
      (later : ¬ H.boot job) (free : w.running p = none) :
      Step w [] (w.set p (some (P.process job)))
  | boot {w : Machine H ι π} (p : π) (job : P.Job) (first : H.boot job) :
      Step w [] { w with
        serving := false
        running := fun p' => if p' = p then some (P.process job) else none }
  | serve {w : Machine H ι π} {p : π} {a : P.Answer} (here : w.running p = some (.ret a))
      (starting : w.serving = false) : Step w [] { w.set p none with serving := true }
  | read {w : Machine H ι π} {p : π} {q : D.Stmt}
      {next : Option (D.Result q) → Process D V P.Answer}
      (here : w.running p = some (.stmt q next)) (plain : ¬ P.system.auto q)
      (reads : ∀ s, D.writes q s = []) :
      Step w [] (w.set p (some (next (some (D.eval q w.session.state)))))
  | write {w : Machine H ι π} {p : π} {q : D.Stmt}
      {next : Option (D.Result q) → Process D V P.Answer} {s s' : D.State}
      {σ : Session P.system ι} {answer : Option (D.Result q)}
      (here : w.running p = some (.stmt q next))
      (step : Session.Step w.session [.auto q s s'] σ)
      (answered : answer = some (D.eval q s) ∨ answer = none) :
      Step w [.auto q s s'] ({ w with session := σ }.set p (some (next answer)))
  | fail {w : Machine H ι π} {p : π} {q : D.Stmt}
      {next : Option (D.Result q) → Process D V P.Answer}
      (here : w.running p = some (.stmt q next)) : Step w [] (w.set p (some (next none)))
  | call {w : Machine H ι π} {p : π} {op : V.Op} {next : Bool → Process D V P.Answer}
      (here : w.running p = some (.call op next)) (done : Bool) :
      Step w [] ((w.effect op).set p (some (next done)))
  | lose {w : Machine H ι π} {p : π} {op : V.Op} {next : Bool → Process D V P.Answer}
      (here : w.running p = some (.call op next)) :
      Step w [] ({ w with sent := op :: w.sent }.set p (some (next false)))
  | late {w : Machine H ι π} {op : V.Op} (sent : op ∈ w.sent) (lasting : H.lasting op) :
      Step w [] (w.effect op)
  | stop {w : Machine H ι π} (p : π) : Step w [] (w.set p none)

/-- The events of a run, in order. -/
inductive Run (w₀ : Machine H ι π) : List (Event P.system) → Machine H ι π → Prop where
  | refl : Run w₀ [] w₀
  | snoc {es ev : List (Event P.system)} {w w' : Machine H ι π} (run : Run w₀ es w)
      (step : Step w ev w') : Run w₀ (es ++ ev) w'

end Machine

/-! ### What can be held -/

/-- A moment of a run, with the calls that have taken effect. -/
structure Point {D : Interface} {V : Service} (P : Plant D V) where
  events : List (Event P.system)
  state : D.State
  service : V.State
  calls : List V.Op

namespace Point
variable {D : Interface} {V : Service} {P : Plant D V}

def wrote (m : Point P) (q : D.Stmt) : Point P :=
  { m with
    events := m.events ++ [.auto q m.state (D.applyAll (D.writes q m.state) m.state)]
    state := D.applyAll (D.writes q m.state) m.state }

def called (m : Point P) (op : V.Op) : Point P :=
  { m with service := V.apply op m.service, calls := op :: m.calls }

end Point

/-- `inv` holds at every point, `rely` between any two; `holds g` is what a process
with `g` depends on, and `apart` what two processes may have at once. `may` are
the calls that may still come, and `after` is what a request has been told. -/
structure Custody {D : Interface} {V : Service} {P : Plant D V} (H : Host P) (G : Type) where
  free : G
  inv : Point P → Prop
  rely : Point P → Point P → Prop
  holds : G → Point P → Prop
  apart : G → G → Prop
  may : V.Op → Point P → Prop
  after : P.system.Request → Point P → Prop
  refl : ∀ m, rely m m
  trans : ∀ {m m' m''}, rely m m' → rely m' m'' → rely m m''
  symm : ∀ {g h}, apart g h → apart h g
  apart_free : ∀ h, apart free h
  holds_free : ∀ m, holds free m
  may_mono : ∀ {op m m'}, may op m → rely m m' → may op m'
  after_mono : ∀ {r m m'}, after r m → rely m m' → after r m'
  seen : ∀ {r m}, inv m → H.looks r m.state → after r m
  late : ∀ {op m}, inv m → H.lasting op → may op m →
    inv (m.called op) ∧ rely m (m.called op) ∧ ∀ g, holds g m → holds g (m.called op)

/-- A process goes from `g` to `g'`: what others hold it leaves to them, unless
there are none. -/
structure Custody.Takes {D : Interface} {V : Service} {P : Plant D V} {H : Host P} {G : Type}
    (R : Custody H G) (solo : Bool) (g g' : G) (m m' : Point P) : Prop where
  inv : R.inv m'
  rely : R.rely m m'
  holds : R.holds g' m'
  others : solo = false → ∀ h, R.holds h m → R.apart g h → R.holds h m' ∧ R.apart g' h

/-- The process keeps to the custody from `m` on, where it holds `g`, and ends as
`Q` says. -/
def Process.Holds {D : Interface} {V : Service} {P : Plant D V} {H : Host P} {G α : Type}
    (R : Custody H G) (solo : Bool) (Q : α → G → Point P → Prop) :
    Process D V α → G → Point P → Prop
  | .ret a, g, m => ∀ m', R.rely m m' → R.inv m' → R.holds g m' → Q a g m'
  | .stmt q next, g, m => ∀ m', R.rely m m' → R.inv m' → R.holds g m' →
      (next none).Holds R solo Q g m' ∧
      (¬ P.system.auto q → (next (some (D.eval q m'.state))).Holds R solo Q g m') ∧
      (P.system.auto q → ∀ answer, answer = some (D.eval q m'.state) ∨ answer = none →
        ∃ g', R.Takes solo g g' m' (m'.wrote q) ∧
          (next answer).Holds R solo Q g' (m'.wrote q))
  | .call op next, g, m => ∀ m', R.rely m m' → R.inv m' → R.holds g m' →
      (H.lasting op → R.may op m') ∧ (next false).Holds R solo Q g m' ∧
      ∀ done, ∃ g', R.Takes solo g g' m' (m'.called op) ∧
        (next done).Holds R solo Q g' (m'.called op)

namespace Process
variable {D : Interface} {V : Service} {P : Plant D V} {H : Host P} {G α β : Type}
  {R : Custody H G} {solo : Bool} {Q Q' : α → G → Point P → Prop} {m m' : Point P} {g : G}
  {p : Process D V α}

theorem Holds.stable (h : p.Holds R solo Q g m) (r : R.rely m m') : p.Holds R solo Q g m' := by
  cases p with
  | ret a | stmt q next | call op next => exact fun m'' r' => h m'' (R.trans r r')

/-- It is enough to keep to the custody from every later point on. -/
theorem Holds.later (h : ∀ m', R.rely m m' → R.inv m' → R.holds g m' → p.Holds R solo Q g m') :
    p.Holds R solo Q g m := by
  cases p with
  | ret a | stmt q next | call op next =>
      exact fun m' r i held => h m' r i held m' (R.refl m') i held

theorem Holds.imp (h : p.Holds R solo Q g m) (post : ∀ a g m, Q a g m → Q' a g m) :
    p.Holds R solo Q' g m := by
  induction p generalizing g m with
  | ret a => exact fun m' r i held => post a g m' (h m' r i held)
  | stmt q next ih =>
      intro m' r i held
      obtain ⟨failed, read, wrote⟩ := h m' r i held
      refine ⟨ih _ failed, fun plain => ih _ (read plain), fun alone answer given => ?_⟩
      obtain ⟨g', takes, done⟩ := wrote alone answer given
      exact ⟨g', takes, ih _ done⟩
  | call op next ih =>
      intro m' r i held
      obtain ⟨may, failed, called⟩ := h m' r i held
      refine ⟨may, ih _ failed, fun done => ?_⟩
      obtain ⟨g', takes, rest⟩ := called done
      exact ⟨g', takes, ih _ rest⟩

theorem Holds.bind {f : α → Process D V β} {Q : β → G → Point P → Prop}
    (h : p.Holds R solo (fun a g m => (f a).Holds R solo Q g m) g m) :
    (p >>= f).Holds R solo Q g m := by
  induction p generalizing g m with
  | ret a => exact .later h
  | stmt q next ih =>
      intro m' r i held
      obtain ⟨failed, read, wrote⟩ := h m' r i held
      refine ⟨ih _ failed, fun plain => ih _ (read plain), fun alone answer given => ?_⟩
      obtain ⟨g', takes, done⟩ := wrote alone answer given
      exact ⟨g', takes, ih _ done⟩
  | call op next ih =>
      intro m' r i held
      obtain ⟨may, failed, called⟩ := h m' r i held
      refine ⟨may, ih _ failed, fun done => ?_⟩
      obtain ⟨g', takes, rest⟩ := called done
      exact ⟨g', takes, ih _ rest⟩

/-- What is stable goes on being so. -/
theorem Holds.frame (h : p.Holds R solo Q g m) {K : Point P → Prop}
    (stable : ∀ {m m'}, K m → R.rely m m' → K m') (known : K m) :
    p.Holds R solo (fun a g m => Q a g m ∧ K m) g m := by
  induction p generalizing g m with
  | ret a => exact fun m' r i held => ⟨h m' r i held, stable known r⟩
  | stmt q next ih =>
      intro m' r i held
      obtain ⟨failed, read, wrote⟩ := h m' r i held
      have known := stable known r
      refine ⟨ih _ failed known, fun plain => ih _ (read plain) known, fun alone answer given => ?_⟩
      obtain ⟨g', takes, done⟩ := wrote alone answer given
      exact ⟨g', takes, ih _ done (stable known takes.rely)⟩
  | call op next ih =>
      intro m' r i held
      obtain ⟨may, failed, called⟩ := h m' r i held
      have known := stable known r
      refine ⟨may, ih _ failed known, fun done => ?_⟩
      obtain ⟨g', takes, rest⟩ := called done
      exact ⟨g', takes, ih _ rest (stable known takes.rely)⟩

/-- A program of plain reads. -/
theorem holds_ofTxn {p : Txn D α} (plain : p.Avoids P.system.auto) (g : G) (m : Point P) :
    (ofTxn p : Process D V (Option α)).Holds R solo (fun _ g' _ => g' = g) g m := by
  induction p generalizing m with
  | ret a | fail => exact fun _ _ _ _ => rfl
  | query q next ih =>
      rw [ofTxn]
      intro m' r i held
      exact ⟨fun _ _ _ _ => rfl, fun _ => ih _ (plain.2 _) m', fun alone => absurd alone plain.1⟩

/-- A plain read. -/
theorem holds_read {q : D.Stmt} {f : Option (D.Result q) → Process D V β}
    {Q : β → G → Point P → Prop} (plain : ¬ P.system.auto q) (failed : (f none).Holds R solo Q g m)
    (done : ∀ m', R.rely m m' → R.inv m' → R.holds g m' →
      (f (some (D.eval q m'.state))).Holds R solo Q g m') :
    (query q >>= f).Holds R solo Q g m :=
  fun m' r i held => ⟨failed.stable r, fun _ => done m' r i held, fun alone => absurd alone plain⟩

/-- A statement that stands alone. -/
theorem holds_write {q : D.Stmt} {f : Option (D.Result q) → Process D V β}
    {Q : β → G → Point P → Prop} (alone : P.system.auto q) (failed : (f none).Holds R solo Q g m)
    (done : ∀ m', R.rely m m' → R.inv m' → R.holds g m' →
      ∀ answer, answer = some (D.eval q m'.state) ∨ answer = none →
        ∃ g', R.Takes solo g g' m' (m'.wrote q) ∧ (f answer).Holds R solo Q g' (m'.wrote q)) :
    (query q >>= f).Holds R solo Q g m :=
  fun m' r i held => ⟨failed.stable r, fun plain => absurd alone plain, fun _ => done m' r i held⟩

theorem holds_invoke {op : V.Op} {f : Bool → Process D V β} {Q : β → G → Point P → Prop}
    (may : H.lasting op → R.may op m) (failed : (f false).Holds R solo Q g m)
    (done : ∀ m', R.rely m m' → R.inv m' → R.holds g m' →
      ∀ done, ∃ g', R.Takes solo g g' m' (m'.called op) ∧
        (f done).Holds R solo Q g' (m'.called op)) : (invoke op >>= f).Holds R solo Q g m :=
  fun m' r i held => ⟨fun lasting => R.may_mono (may lasting) r, failed.stable r, done m' r i held⟩

end Process

/-! ### Soundness for every interleaving -/

namespace Machine
variable {D : Interface} {V : Service} {P : Plant D V} {H : Host P} {ι π G : Type} [DecidableEq ι]
  [DecidableEq π] {R : Custody H G} {w₀ w w' : Machine H ι π} {es ev : List (Event P.system)}
  {γ : π → G}

def point (w : Machine H ι π) (es : List (Event P.system)) : Point P :=
  ⟨es, w.session.state, w.service, w.calls⟩

/-- A machine whose processes keep to the custody, each with what `γ` gives it. -/
structure Kept (R : Custody H G) (w : Machine H ι π) (es : List (Event P.system)) (γ : π → G) :
    Prop where
  inv : R.inv (w.point es)
  processes : ∀ p x, w.running p = some x → R.holds (γ p) (w.point es) ∧
    x.Holds R (!w.serving) (fun _ _ _ => True) (γ p) (w.point es)
  apart : ∀ p p' x x', p ≠ p' → w.running p = some x → w.running p' = some x' →
    R.apart (γ p) (γ p')
  solo : w.serving = false → ∀ p p' x x', w.running p = some x → w.running p' = some x' → p = p'
  sent : ∀ op ∈ w.sent, H.lasting op → R.may op (w.point es)
  admitted : ∀ r ∈ w.admitted, R.after r (w.point es)
  requests : ∀ c r x, w.session.running c = some (r, x) → r ∈ w.admitted

/-- What the clients of the database do keeps to the custody, in every run that
starts from `σ₀` and has no other events than these. -/
def Clients (R : Custody H G) (σ₀ : Session P.system ι) (all : List (Event P.system)) : Prop :=
  ∀ {es ev : List (Event P.system)} {σ σ' : Session P.system ι} (v : V.State) (calls : List V.Op),
    Session.Run σ₀ es σ → Session.Step σ ev σ' → (∀ q s s', .auto q s s' ∉ ev) →
    es ++ ev <+: all →
    (∀ r a s s', .commit r a s s' ∈ ev → R.after r ⟨es, σ.state, v, calls⟩) →
    R.inv ⟨es, σ.state, v, calls⟩ →
    R.inv ⟨es ++ ev, σ'.state, v, calls⟩ ∧
      R.rely ⟨es, σ.state, v, calls⟩ ⟨es ++ ev, σ'.state, v, calls⟩ ∧
      ∀ g, R.holds g ⟨es, σ.state, v, calls⟩ → R.holds g ⟨es ++ ev, σ'.state, v, calls⟩

omit [DecidableEq π] in
theorem Clients.mono {σ₀ : Session P.system ι} {all all' : List (Event P.system)}
    (h : Clients R σ₀ all) (earlier : all' <+: all) : Clients R σ₀ all' :=
  fun v calls run step others here => h v calls run step others (here.trans earlier)

omit [DecidableEq π] in
/-- Who runs a request after a step did so before, or has just begun it. -/
theorem requests_step {σ σ' : Session P.system ι} (step : Session.Step σ ev σ')
    {admitted : List P.system.Request}
    (before : ∀ c r x, σ.running c = some (r, x) → r ∈ admitted)
    (begun : ∀ c r x, σ.running c = none → σ'.running c = some (r, x) → r ∈ admitted) :
    ∀ c r x, σ'.running c = some (r, x) → r ∈ admitted := by
  have other {c c₀ : ι} {r : P.system.Request} {x : Running D P.system.Reply}
      {y : Option (P.system.Request × Running D P.system.Reply)} (ne : c ≠ c₀)
      (here : (σ.set c₀ y).running c = some (r, x)) : r ∈ admitted :=
    before c r x ((if_neg ne).symm.trans here)
  intro c r x here
  cases step with
  | start c₀ r₀ idle =>
      by_cases same : c = c₀
      · exact begun c r x (same ▸ idle) here
      · exact other same here
  | @query c₀ r₀ q next held log running free =>
      by_cases same : c = c₀
      · obtain ⟨rfl, -⟩ := Prod.mk.inj (Option.some.inj ((if_pos same).symm.trans here))
        exact before c₀ r₀ _ running
      · exact other same here
  | @commit c₀ r₀ a held log running accepted =>
      by_cases same : c = c₀
      · exact nomatch (if_pos same).symm.trans here
      · exact other same here
  | @drop c₀ r₀ a held log running =>
      by_cases same : c = c₀
      · exact nomatch (if_pos same).symm.trans here
      · exact other same here
  | abort c₀ =>
      by_cases same : c = c₀
      · exact nomatch (if_pos same).symm.trans here
      · exact other same here
  | auto alone free accepted => exact before c r x here

omit [DecidableEq ι] in
/-- One process has moved, from what it held to `g`. -/
theorem Kept.move {x y : Process D V P.Answer} {g : G} {p : π} {es' : List (Event P.system)}
    (h : w.Kept R es γ) (here : w.running p = some x)
    (running : ∀ p', w'.running p' = if p' = p then some y else w.running p')
    (serving : w'.serving = w.serving)
    (takes : R.Takes (!w.serving) (γ p) g (w.point es) (w'.point es'))
    (moved : y.Holds R (!w.serving) (fun _ _ _ => True) g (w'.point es'))
    (sent : ∀ op ∈ w'.sent, H.lasting op → R.may op (w'.point es'))
    (admitted : w'.admitted = w.admitted)
    (requests : ∀ c r x, w'.session.running c = some (r, x) → r ∈ w'.admitted) :
    w'.Kept R es' fun p' => if p' = p then g else γ p' := by
  have others {p' : π} (ne : p' ≠ p) {x' : Process D V P.Answer}
      (here' : w.running p' = some x') :
      R.holds (γ p') (w'.point es') ∧ R.apart g (γ p') := by
    have shared : w.serving = true := by
      by_contra starting
      exact ne (h.solo (Bool.eq_false_iff.mpr starting) p' p _ _ here' here)
    exact takes.others (by simp [shared]) (γ p') (h.processes p' x' here').1
      (h.apart p p' _ _ (Ne.symm ne) here here')
  have old {p' : π} (ne : p' ≠ p) {x' : Process D V P.Answer}
      (here' : w'.running p' = some x') : w.running p' = some x' := by
    rwa [running, if_neg ne] at here'
  refine ⟨takes.inv, fun p' x' here' => ?_, fun p₁ p₂ x₁ x₂ ne here₁ here₂ => ?_, ?_, sent,
    fun r mem => R.after_mono (h.admitted r (admitted ▸ mem)) takes.rely, requests⟩
  · by_cases same : p' = p
    · subst same
      rw [running, if_pos rfl] at here'
      obtain rfl := Option.some.inj here'
      simp only [if_true, serving]
      exact ⟨takes.holds, moved⟩
    · simp only [if_neg same, serving]
      exact ⟨(others same (old same here')).1,
        (h.processes p' x' (old same here')).2.stable takes.rely⟩
  · by_cases same₁ : p₁ = p
    · have ne₂ : p₂ ≠ p := fun same₂ => ne (same₁.trans same₂.symm)
      simp only [if_pos same₁, if_neg ne₂]
      exact (others ne₂ (old ne₂ here₂)).2
    · by_cases same₂ : p₂ = p
      · simp only [if_pos same₂, if_neg same₁]
        exact R.symm (others same₁ (old same₁ here₁)).2
      · simp only [if_neg same₁, if_neg same₂]
        exact h.apart p₁ p₂ x₁ x₂ ne (old same₁ here₁) (old same₂ here₂)
  · intro starting p₁ p₂ x₁ x₂ here₁ here₂
    have only {p' : π} {x' : Process D V P.Answer} (here' : w'.running p' = some x') : p' = p := by
      by_contra ne
      exact ne (h.solo (serving ▸ starting) p' p _ _ (old ne here') here)
    rw [only here₁, only here₂]

omit [DecidableEq ι] [DecidableEq π] in
/-- Nobody has moved, and some processes may be gone. -/
theorem Kept.rest {es' : List (Event P.system)} (h : w.Kept R es γ)
    (running : ∀ p x, w'.running p = some x → w.running p = some x)
    (serving : w'.serving = w.serving) (inv : R.inv (w'.point es'))
    (rely : R.rely (w.point es) (w'.point es'))
    (holds : ∀ g, R.holds g (w.point es) → R.holds g (w'.point es'))
    (sent : w'.sent = w.sent) (admitted : ∀ r ∈ w'.admitted, R.after r (w'.point es'))
    (requests : ∀ c r x, w'.session.running c = some (r, x) → r ∈ w'.admitted) :
    w'.Kept R es' γ where
  inv := inv
  processes p x here := by
    obtain ⟨held, keeps⟩ := h.processes p x (running p x here)
    exact ⟨holds _ held, serving ▸ keeps.stable rely⟩
  apart p p' x x' ne here here' := h.apart p p' x x' ne (running p x here) (running p' x' here')
  solo starting p p' x x' here here' :=
    h.solo (serving ▸ starting) p p' x x' (running p x here) (running p' x' here')
  sent op mem lasting := R.may_mono (h.sent op (sent ▸ mem) lasting) rely
  admitted := admitted
  requests := requests

omit [DecidableEq ι] [DecidableEq π] in
theorem Kept.requests_after (h : w.Kept R es γ) {c : ι} {r : P.system.Request}
    {x : Running D P.system.Reply} (here : w.session.running c = some (r, x)) :
    R.after r (w.point es) :=
  h.admitted r (h.requests c r x here)

omit [DecidableEq π] in
theorem Kept.commit_after (h : w.Kept R es γ) {σ : Session P.system ι}
    (step : Session.Step w.session ev σ) {r : P.system.Request} {a : P.system.Reply}
    {s s' : D.State} (mem : .commit r a s s' ∈ ev) : R.after r (w.point es) := by
  cases step with
  | commit here accepted =>
      cases List.mem_singleton.mp mem
      exact h.requests_after here
  | start | abort => cases mem
  | query | drop | auto => cases List.mem_singleton.mp mem

omit [DecidableEq ι] in
/-- A process begins, with nothing in its hands. -/
theorem Kept.spawn (h : w.Kept R es γ) {p : π} {y : Process D V P.Answer}
    (serving : w.serving = true)
    (keeps : y.Holds R false (fun _ _ _ => True) R.free (w.point es)) :
    (w.set p (some y)).Kept R es fun p' => if p' = p then R.free else γ p' := by
  have old {p' : π} (ne : p' ≠ p) {x : Process D V P.Answer}
      (here : (w.set p (some y)).running p' = some x) : w.running p' = some x :=
    (if_neg ne).symm.trans here
  refine ⟨h.inv, fun p' x here => ?_, fun p₁ p₂ x₁ x₂ ne here₁ here₂ => ?_,
    fun starting => (nomatch serving.symm.trans starting), h.sent, h.admitted, h.requests⟩
  · by_cases same : p' = p
    · obtain rfl := Option.some.inj ((if_pos same).symm.trans here)
      simp only [if_pos same]
      refine ⟨R.holds_free _, ?_⟩
      show y.Holds R (!w.serving) _ _ _
      rw [serving]
      exact keeps
    · simp only [if_neg same]
      exact h.processes p' x (old same here)
  · by_cases same₁ : p₁ = p
    · simp only [if_pos same₁]
      exact R.apart_free _
    · by_cases same₂ : p₂ = p
      · simp only [if_pos same₂]
        exact R.symm (R.apart_free _)
      · simp only [if_neg same₁, if_neg same₂]
        exact h.apart p₁ p₂ x₁ x₂ ne (old same₁ here₁) (old same₂ here₂)

theorem Step.kept (h : w.Kept R es γ) (step : Step w ev w')
    (spawned : ∀ job m, ¬ H.boot job → R.inv m →
      (P.process job).Holds R false (fun _ _ _ => True) R.free m)
    (booted : ∀ job m, H.boot job → R.inv m →
      (P.process job).Holds R true (fun _ _ _ => True) R.free m)
    (clients : ∀ σ, Session.Step w.session ev σ → (∀ q s s', .auto q s s' ∉ ev) →
      (∀ r a s s', .commit r a s s' ∈ ev → R.after r (w.point es)) →
      R.inv ⟨es ++ ev, σ.state, w.service, w.calls⟩ ∧
        R.rely (w.point es) ⟨es ++ ev, σ.state, w.service, w.calls⟩ ∧
        ∀ g, R.holds g (w.point es) → R.holds g ⟨es ++ ev, σ.state, w.service, w.calls⟩) :
    (∃ γ', w'.Kept R (es ++ ev) γ') ∧ R.rely (w.point es) (w'.point (es ++ ev)) := by
  cases step with
  | session step others begun =>
      obtain ⟨inv, rely, holds⟩ := clients _ step others fun r a s s' mem => h.commit_after step mem
      exact ⟨⟨γ, h.rest (fun _ _ here => here) rfl inv rely holds rfl
        (fun r mem => R.after_mono (h.admitted r mem) rely)
        (requests_step step h.requests begun)⟩, rely⟩
  | enter r seen =>
      rw [List.append_nil]
      refine ⟨⟨γ, h.rest (fun _ _ here => here) rfl h.inv (R.refl _) (fun _ held => held) rfl ?_
        fun c r x here => List.mem_cons_of_mem _ (h.requests c r x here)⟩, R.refl _⟩
      exact List.forall_mem_cons.mpr ⟨R.seen h.inv seen, h.admitted⟩
  | spawn p job serving later free =>
      rw [List.append_nil]
      exact ⟨⟨_, h.spawn serving (spawned job _ later h.inv)⟩, R.refl _⟩
  | boot p job first =>
      rw [List.append_nil]
      have only {p' : π} {x : Process D V P.Answer}
          (here : (if p' = p then some (P.process job) else none) = some x) :
          p' = p ∧ x = P.process job := by
        split at here
        · rename_i same
          exact ⟨same, (Option.some.inj here).symm⟩
        · cases here
      refine ⟨⟨fun _ => R.free, ⟨h.inv, fun p' x here => ?_, fun _ _ _ _ _ _ _ => R.apart_free _,
        fun _ p₁ p₂ x₁ x₂ here₁ here₂ => (only here₁).1.trans (only here₂).1.symm, h.sent,
        h.admitted, h.requests⟩⟩, R.refl _⟩
      obtain ⟨-, rfl⟩ := only here
      exact ⟨R.holds_free _, booted job _ first h.inv⟩
  | @serve p a here starting =>
      rw [List.append_nil]
      have none {p' : π} {x : Process D V P.Answer}
          (running : (if p' = p then none else w.running p') = some x) : False := by
        split at running
        · cases running
        · rename_i ne
          exact ne (h.solo starting p' p _ _ running here)
      exact ⟨⟨γ, ⟨h.inv, fun p' x running => (none running).elim,
        fun p₁ _ _ _ _ running _ => (none running).elim, fun serving => (nomatch serving), h.sent,
        h.admitted, h.requests⟩⟩, R.refl _⟩
  | @read p q next here plain reads =>
      rw [List.append_nil]
      obtain ⟨held, keeps⟩ := h.processes p _ here
      obtain ⟨-, read, -⟩ := keeps _ (R.refl _) h.inv held
      exact ⟨⟨_, h.move here (fun _ => rfl) rfl ⟨h.inv, R.refl _, held, fun _ _ held apart =>
        ⟨held, apart⟩⟩ (read plain) h.sent rfl h.requests⟩, R.refl _⟩
  | @write p q next s s' σ answer here step answered =>
      cases step with
      | auto alone free accepted =>
          obtain ⟨held, keeps⟩ := h.processes p _ here
          obtain ⟨-, -, wrote⟩ := keeps _ (R.refl _) h.inv held
          obtain ⟨g, takes, done⟩ := wrote alone answer answered
          exact ⟨⟨_, h.move here (fun _ => rfl) rfl takes done
            (fun op mem lasting => R.may_mono (h.sent op mem lasting) takes.rely) rfl
            h.requests⟩, takes.rely⟩
  | @fail p q next here =>
      rw [List.append_nil]
      obtain ⟨held, keeps⟩ := h.processes p _ here
      obtain ⟨failed, -, -⟩ := keeps _ (R.refl _) h.inv held
      exact ⟨⟨_, h.move here (fun _ => rfl) rfl ⟨h.inv, R.refl _, held, fun _ _ held apart =>
        ⟨held, apart⟩⟩ failed h.sent rfl h.requests⟩, R.refl _⟩
  | @call p op next here done =>
      rw [List.append_nil]
      obtain ⟨held, keeps⟩ := h.processes p _ here
      obtain ⟨-, -, called⟩ := keeps _ (R.refl _) h.inv held
      obtain ⟨g, takes, rest⟩ := called done
      exact ⟨⟨_, h.move here (fun _ => rfl) rfl takes rest
        (fun op mem lasting => R.may_mono (h.sent op mem lasting) takes.rely) rfl h.requests⟩,
        takes.rely⟩
  | @lose p op next here =>
      rw [List.append_nil]
      obtain ⟨held, keeps⟩ := h.processes p _ here
      obtain ⟨may, failed, -⟩ := keeps _ (R.refl _) h.inv held
      exact ⟨⟨_, h.move here (fun _ => rfl) rfl ⟨h.inv, R.refl _, held, fun _ _ held apart =>
        ⟨held, apart⟩⟩ failed (List.forall_mem_cons.mpr ⟨may, h.sent⟩) rfl h.requests⟩, R.refl _⟩
  | late sent lasting =>
      rw [List.append_nil]
      obtain ⟨inv, rely, holds⟩ := R.late h.inv lasting (h.sent _ sent lasting)
      exact ⟨⟨γ, h.rest (fun _ _ here => here) rfl inv rely holds rfl
        (fun r mem => R.after_mono (h.admitted r mem) rely) h.requests⟩, rely⟩
  | stop p =>
      rw [List.append_nil]
      refine ⟨⟨γ, h.rest (fun p' x here => ?_) rfl h.inv (R.refl _) (fun _ held => held) rfl
        h.admitted h.requests⟩, R.refl _⟩
      have here : (if p' = p then none else w.running p') = some x := here
      split at here
      · cases here
      · exact here

theorem Run.trans {es' : List (Event P.system)} {w' : Machine H ι π} (run : Run w₀ es w)
    (run' : Run w es' w') : Run w₀ (es ++ es') w' := by
  induction run' with
  | refl => simpa using run
  | snoc _ step ih => simpa [← List.append_assoc] using ih.snoc step

/-- What the clients of the database have done. -/
theorem Run.session (run : Run w₀ es w) : Session.Run w₀.session es w.session := by
  induction run with
  | refl => exact .refl
  | snoc run step ih =>
      cases step with
      | session step others begun => exact ih.snoc step
      | write here step answered => exact ih.snoc step
      | enter | spawn | boot | serve | read | fail | call | lose | late | stop =>
          rw [List.append_nil]
          exact ih

/-- Soundness: all the way through a run, and what its later part may have done. -/
theorem Run.kept {es' : List (Event P.system)} (before : Run w₀ es w) (run : Run w es' w')
    (h : ∃ γ, w.Kept R es γ)
    (spawned : ∀ job m, ¬ H.boot job → R.inv m →
      (P.process job).Holds R false (fun _ _ _ => True) R.free m)
    (booted : ∀ job m, H.boot job → R.inv m →
      (P.process job).Holds R true (fun _ _ _ => True) R.free m)
    (clients : Clients R w₀.session (es ++ es')) :
    (∃ γ, w'.Kept R (es ++ es') γ) ∧ R.rely (w.point es) (w'.point (es ++ es')) := by
  induction run with
  | refl =>
      rw [List.append_nil]
      exact ⟨h, R.refl _⟩
  | @snoc es₁ ev w₁ w₂ run step ih =>
      rw [← List.append_assoc] at clients ⊢
      obtain ⟨⟨γ, kept⟩, rely⟩ := ih (clients.mono (List.prefix_append _ _))
      have here := (before.trans run).session
      obtain ⟨kept', rely'⟩ := step.kept kept spawned booted fun σ step others after =>
        clients _ _ here step others (List.prefix_refl _) after kept.inv
      exact ⟨kept', R.trans rely rely'⟩

end Machine

/-! ### Runs that exist -/

namespace Process
variable {D : Interface} {V : Service} {α : Type}

/-- The calls of a process all of whose statements and calls succeed, the last
one first. -/
def calls : Process D V α → D.State → List V.Op
  | .ret _, _ => []
  | .stmt q next, s => (next (some (D.eval q s))).calls (D.applyAll (D.writes q s) s)
  | .call op next, s => (next true).calls s ++ [op]

end Process

namespace Machine
variable {D : Interface} {V : Service} {P : Plant D V} {H : Host P} {ι π : Type} [DecidableEq ι]
  [DecidableEq π] {w : Machine H ι π}

/-- The same machine around another session. -/
def around (w : Machine H ι π) (σ : Session P.system ι) : Machine H ι π := { w with session := σ }

/-- A client goes on, and nobody begins. -/
theorem Run.client {σ σ' : Session P.system ι} {ev : List (Event P.system)}
    (step : Session.Step σ ev σ') (clients : ∀ q s s', .auto q s s' ∉ ev)
    (under : ∀ c, σ.running c = none → σ'.running c = none) :
    Run (w.around σ) ev (w.around σ') :=
  Run.refl.snoc (.session (w := w.around σ) step clients
    fun c _ _ idle here => nomatch (under c idle).symm.trans here)

/-- A request that has been admitted and that nobody blocks. -/
theorem Run.request {σ : Session P.system ι} {c : ι} {r : P.system.Request} (n : Nat)
    {a : P.system.Reply} {s t : D.State} (state : σ.state = s) (idle : σ.running c = none)
    (admitted : r ∈ w.admitted) (commits : P.system.commits s n r = some a)
    (after : P.system.after s n r = t)
    (free : σ.Free (· ≠ c) (Running.advance s n ⟨P.system.program r, [], []⟩).held)
    (valid : D.valid t) :
    Run (w.around σ) (Session.stmtEvents r (P.system.stmts s n r) ++ [.commit r a s t])
      (w.around { σ with state := t }) := by
  subst state after
  have begins : Run (w.around σ) []
      (w.around (σ.set c (some (r, ⟨P.system.program r, [], []⟩)))) := by
    refine Run.refl.snoc (.session (w := w.around σ) (.start c r idle) (by simp) ?_)
    intro c' r' x' before here
    by_cases same : c' = c
    · obtain ⟨rfl, -⟩ := Prod.mk.inj (Option.some.inj ((if_pos same).symm.trans here))
      exact admitted
    · exact nomatch before.symm.trans ((if_neg same).symm.trans here)
  have goes := Session.advance_steps (R := fun σ es σ' => Run (w.around σ) es (w.around σ'))
    (σ := σ.set c (some (r, ⟨P.system.program r, [], []⟩))) (c := c) (r := r)
    (x := ⟨P.system.program r, [], []⟩) (fun _ => .refl)
    (fun step under run => (Run.client step (by simp) under).trans run) n
    (by simp [Session.set]) (free.set (by simp) _)
  rw [Session.set_set] at goes
  have step := Session.Step.finish
    (σ := σ.set c (some (r, Running.advance σ.state n ⟨P.system.program r, [], []⟩)))
    (c := c) (r := r)
    (by simp [Session.set]) (Session.prog_of_commits commits) valid
  have ends := Run.client (w := w) step (by simp) 
    fun c' under => by simpa [Session.set] using fun _ => under
  rw [Session.set_set, Session.set_self idle] at ends
  exact (begins.trans goes).trans ends

/-- A request alone, once it has been admitted. -/
theorem Run.commits {s t : D.State} {r : P.system.Request} {a : P.system.Reply}
    (session : w.session = .idle s) (c : ι) (n : Nat) (admitted : r ∈ w.admitted)
    (commits : P.system.commits s n r = some a) (after : P.system.after s n r = t)
    (valid : D.valid t) :
    ∃ es, Run w (es ++ [.commit r a s t]) (w.around (.idle t)) ∧
      ∀ e ∈ es, ∃ q v, e = .stmt r q v := by
  have run := Run.request (w := w) (c := c) n (congrArg Session.state session)
    (by rw [session]; rfl) admitted commits after
    (fun c' x _ running => by rw [session] at running; cases running) valid
  rw [show w.around w.session = w from rfl, session] at run
  refine ⟨_, run, fun e mem => ?_⟩
  obtain ⟨p, -, rfl⟩ := List.mem_map.mp mem
  exact ⟨p.1, p.2, rfl⟩

/-- A process alone, all of whose statements and calls succeed. -/
theorem Run.alone {s : D.State} (session : w.session = .idle s) (p : π)
    {x : Process D V P.Answer} (here : w.running p = some x) (fits : x.Fits P.system s) :
    ∃ es w', Run w es w' ∧ w'.session = .idle (x.alone s w.service).1 ∧
      w'.service = (x.alone s w.service).2 ∧ w'.calls = x.calls s ++ w.calls ∧
      ∀ e ∈ es, ∃ q s s', e = .auto q s s' := by
  induction x generalizing s w with
  | ret a => exact ⟨[], w, .refl, session, rfl, rfl, by simp⟩
  | stmt q next ih =>
      obtain ⟨kind, rest⟩ := List.forall_mem_cons.mp fits
      rcases kind with ⟨alone, valid⟩ | ⟨plain, reads⟩
      · have auto : Session.Step w.session [.auto q s (D.applyAll (D.writes q s) s)]
            (.idle (D.applyAll (D.writes q s) s)) := by
          rw [session]
          exact .auto alone (fun _ _ _ running => nomatch running) valid
        have step := Step.write here auto (.inl rfl)
        obtain ⟨es, w', run, idle, service, calls, autos⟩ := ih (some (D.eval q s))
          (w := { w with session := .idle (D.applyAll (D.writes q s) s) }.set p
            (some (next (some (D.eval q s))))) rfl (if_pos rfl) rest
        refine ⟨_, w', (Run.refl.snoc step).trans run, idle, service, calls, fun e mem => ?_⟩
        rcases List.mem_append.mp mem with first | later
        · obtain rfl := List.mem_singleton.mp first
          exact ⟨_, _, _, rfl⟩
        · exact autos e later
      · have step := Step.read here plain reads
        rw [session] at step
        obtain ⟨es, w', run, facts⟩ := ih (some (D.eval q s))
          (w := w.set p (some (next (some (D.eval q s))))) session (if_pos rfl)
          (by rwa [reads s] at rest)
        refine ⟨es, w', (Run.refl.snoc step).trans run, ?_⟩
        rw [Process.alone, Process.calls, reads s]
        exact facts
  | call op next ih =>
      obtain ⟨es, w', run, idle, service, calls, autos⟩ := ih true
        (w := (w.effect op).set p (some (next true))) session (if_pos rfl) fits
      refine ⟨es, w', (Run.refl.snoc (.call here true)).trans run, idle, service, ?_, autos⟩
      rw [calls, Process.calls, List.append_assoc]
      rfl

end Machine
