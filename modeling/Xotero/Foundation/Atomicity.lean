import Xotero.Foundation.Locking

/-!
The clients of a database as the clients of an object with atomic operations. What
they see of each other is a history of calls and answers. An operation of the object
takes effect at one moment between its call and its answer, or has no effect and no
answer. `History.atomic` simulates every interleaving of the statements of transactions
by such an object.
-/

inductive ClientAction {D : Interface} (S : System D) (ι : Type) where
  | call (c : ι) (r : S.Request)
  | answer (c : ι) (r : S.Request) (a : S.Reply)

/-- What the operations of an object do, and what else changes its state. -/
structure Meaning {D : Interface} (S : System D) where
  acts : S.Request → D.State → S.Reply → D.State → Prop
  other : D.State → D.State → Prop

/-- What a program that ends so has done. -/
def Meaning.Ends {D : Interface} {S : System D} (M : Meaning S) (r : S.Request)
    (log : List D.Write) (s : D.State) : Ending S.Reply → Prop
  | .commit a => M.acts r s a (D.applyAll log s)
  | .drop a => M.acts r s a s

/-- The operations under way, each with its reply once it has taken effect. -/
structure AtomicObject {D : Interface} (S : System D) (ι : Type) where
  state : D.State
  called : ι → Option (S.Request × Option S.Reply)

namespace AtomicObject
variable {D : Interface} {S : System D} {ι : Type} [DecidableEq ι]

/-- An object nobody uses yet. -/
def idle (s : D.State) : AtomicObject S ι := ⟨s, fun _ => none⟩

def set (o : AtomicObject S ι) (c : ι) (x : Option (S.Request × Option S.Reply)) :
    AtomicObject S ι :=
  { o with called := fun c' => if c' = c then x else o.called c' }

inductive Step (M : Meaning S) :
    AtomicObject S ι → List (ClientAction S ι) → AtomicObject S ι → Prop where
  | call {o : AtomicObject S ι} (c : ι) (r : S.Request) (free : o.called c = none) :
      Step M o [.call c r] (o.set c (some (r, none)))
  | act {o : AtomicObject S ι} {c : ι} {r : S.Request} {a : S.Reply} {s : D.State}
      (here : o.called c = some (r, none)) (acts : M.acts r o.state a s) :
      Step M o [] { o.set c (some (r, some a)) with state := s }
  | answer {o : AtomicObject S ι} {c : ι} {r : S.Request} {a : S.Reply}
      (here : o.called c = some (r, some a)) : Step M o [.answer c r a] (o.set c none)
  | leave {o : AtomicObject S ι} (c : ι) : Step M o [] (o.set c none)
  | other {o : AtomicObject S ι} {s : D.State} (changed : M.other o.state s) :
      Step M o [] { o with state := s }

inductive Run (M : Meaning S) (o₀ : AtomicObject S ι) :
    List (ClientAction S ι) → AtomicObject S ι → Prop where
  | refl : Run M o₀ [] o₀
  | snoc {h as : List (ClientAction S ι)} {o o' : AtomicObject S ι} (run : Run M o₀ h o)
      (step : Step M o as o') : Run M o₀ (h ++ as) o'

theorem set_self (o : AtomicObject S ι) {c : ι} {x : Option (S.Request × Option S.Reply)}
    (here : o.called c = x) : o.set c x = o := by
  subst here
  simp only [set]
  congr 1
  funext c'
  split
  · rename_i same
    rw [same]
  · rfl

theorem set_withState_set (o : AtomicObject S ι) {c : ι}
    {x y : Option (S.Request × Option S.Reply)} {s : D.State} :
    AtomicObject.set { o.set c x with state := s } c y = { o.set c y with state := s } := by
  simp only [set]
  congr 1
  funext c'
  split <;> rfl

/-- A step that nobody sees. -/
theorem Run.hidden {M : Meaning S} {o₀ o o' : AtomicObject S ι} {h : List (ClientAction S ι)}
    (run : Run M o₀ h o) (step : Step M o [] o') : Run M o₀ h o' := by
  have longer := run.snoc step
  rwa [List.append_nil] at longer

end AtomicObject

namespace Session
variable {D : Interface} {S : System D} {ι : Type} [DecidableEq ι]

/-- No client calls or is answered. -/
structure Step.Hidden (σ : Session S ι) (ev : List (Event S)) (σ' : Session S ι) : Prop where
  idle : ∀ c, σ.running c = none → σ'.running c = none
  commits : ∀ r a s s', .commit r a s s' ∉ ev
  drops : ∀ r a s, .drop r a s ∉ ev

/-- What the clients have seen of a run. -/
inductive History (σ₀ : Session S ι) : List (ClientAction S ι) → Session S ι → Prop where
  | refl : History σ₀ [] σ₀
  | call {h : List (ClientAction S ι)} {σ : Session S ι} (before : History σ₀ h σ) (c : ι)
      (r : S.Request) (idle : σ.running c = none) :
      History σ₀ (h ++ [.call c r]) (σ.set c (some (r, ⟨S.program r, [], []⟩)))
  | commit {h : List (ClientAction S ι)} {σ : Session S ι} {c : ι} {r : S.Request} {a : S.Reply}
      {held : List (RowLock D.Row)} {log : List D.Write} (before : History σ₀ h σ)
      (here : σ.running c = some (r, ⟨.ret (.commit a), held, log⟩))
      (accepted : D.valid (D.applyAll log σ.state)) :
      History σ₀ (h ++ [.answer c r a]) { σ.set c none with state := D.applyAll log σ.state }
  | drop {h : List (ClientAction S ι)} {σ : Session S ι} {c : ι} {r : S.Request} {a : S.Reply}
      {held : List (RowLock D.Row)} {log : List D.Write} (before : History σ₀ h σ)
      (here : σ.running c = some (r, ⟨.ret (.drop a), held, log⟩)) :
      History σ₀ (h ++ [.answer c r a]) (σ.set c none)
  | within {h : List (ClientAction S ι)} {σ σ' : Session S ι} {ev : List (Event S)}
      (before : History σ₀ h σ) (step : Step σ ev σ') (hidden : Step.Hidden σ ev σ') :
      History σ₀ h σ'

theorem set_running (σ : Session S ι) (c c' : ι) (x : Option (S.Request × Running D S.Reply)) :
    (σ.set c x).running c' = if c' = c then x else σ.running c' := rfl

theorem History.run {σ₀ σ : Session S ι} {h : List (ClientAction S ι)} (history : History σ₀ h σ) :
    ∃ es, Run σ₀ es σ := by
  induction history with
  | refl => exact ⟨[], .refl⟩
  | call before c r idle ih =>
      obtain ⟨es, run⟩ := ih
      exact ⟨_, run.snoc (.start c r idle)⟩
  | commit before here accepted ih =>
      obtain ⟨es, run⟩ := ih
      exact ⟨_, run.snoc (.commit here accepted)⟩
  | drop before here ih =>
      obtain ⟨es, run⟩ := ih
      exact ⟨_, run.snoc (.drop here)⟩
  | within before step hidden ih =>
      obtain ⟨es, run⟩ := ih
      exact ⟨_, run.snoc step⟩

/-- The reply that an event gives to its client. -/
inductive Event.Replies (r : S.Request) (a : S.Reply) : Event S → Prop where
  | commit {s s' : D.State} : Replies r a (.commit r a s s')
  | drop {s : D.State} : Replies r a (.drop r a s)

/-- The history has the answers of the events. -/
def SameAnswers (es : List (Event S)) (h : List (ClientAction S ι)) : Prop :=
  ∀ r a, (∃ e ∈ es, Event.Replies r a e) ↔ ∃ c, .answer c r a ∈ h

section Answers
variable {es ev : List (Event S)} {h h' : List (ClientAction S ι)}

omit [DecidableEq ι] in
/-- Events that reply to nobody add no answer. -/
theorem SameAnswers.quiet (same : SameAnswers es h)
    (silent : ∀ e ∈ ev, ∀ r a, ¬ Event.Replies r a e)
    (kept : ∀ c r a, .answer c r a ∈ h' ↔ .answer c r a ∈ h) : SameAnswers (es ++ ev) h' := by
  intro r a
  simp only [kept, ← same r a, List.mem_append]
  constructor
  · intro replied
    obtain ⟨e, mem | mem, replies⟩ := replied
    · exact ⟨e, mem, replies⟩
    · exact absurd replies (silent e mem r a)
  · intro replied
    obtain ⟨e, mem, replies⟩ := replied
    exact ⟨e, .inl mem, replies⟩

omit [DecidableEq ι] in
theorem SameAnswers.answer (same : SameAnswers es h) (c : ι) {r : S.Request} {a : S.Reply}
    {e : Event S} (replies : ∀ r' a', Event.Replies r' a' e ↔ r' = r ∧ a' = a) :
    SameAnswers (es ++ [e]) (h ++ [.answer c r a]) := by
  intro r' a'
  simp only [List.mem_append, List.mem_singleton, or_and_right, exists_or, same r' a',
    exists_eq_left, replies, ClientAction.answer.injEq]

end Answers

/-- Every run has its history. -/
theorem Run.observed {σ₀ σ : Session S ι} {es : List (Event S)} (run : Run σ₀ es σ) :
    ∃ h, History σ₀ h σ ∧ SameAnswers es h := by
  induction run with
  | refl => exact ⟨[], .refl, by simp [SameAnswers]⟩
  | @snoc es ev σ σ' run step ih =>
      obtain ⟨h, history, answers⟩ := ih
      cases step with
      | start c r idle => exact ⟨_, history.call c r idle, answers.quiet (by simp) (by simp)⟩
      | query here free =>
          refine ⟨h, history.within (.query here free) ⟨fun c idle => ?_, by simp, by simp⟩,
            answers.quiet (fun e mem r a replies => ?_) fun _ _ _ => Iff.rfl⟩
          · rw [set_running, if_neg fun same => ?_]
            · exact idle
            · rw [same, here] at idle
              cases idle
          · obtain rfl := List.mem_singleton.mp mem
            cases replies
      | commit here accepted =>
          refine ⟨_, history.commit here accepted, answers.answer _ fun r a => ⟨?_, ?_⟩⟩
          · intro replies
            cases replies
            exact ⟨rfl, rfl⟩
          · intro same
            obtain ⟨rfl, rfl⟩ := same
            exact .commit
      | drop here =>
          refine ⟨_, history.drop here, answers.answer _ fun r a => ⟨?_, ?_⟩⟩
          · intro replies
            cases replies
            exact ⟨rfl, rfl⟩
          · intro same
            obtain ⟨rfl, rfl⟩ := same
            exact .drop
      | abort c =>
          refine ⟨h, history.within (.abort c) ⟨fun c' idle => ?_, by simp, by simp⟩,
            answers.quiet (by simp) fun _ _ _ => Iff.rfl⟩
          rw [set_running]
          split
          · rfl
          · exact idle
      | auto alone free accepted =>
          refine ⟨h, history.within (.auto alone free accepted) ⟨fun _ idle => idle, by simp,
            by simp⟩, answers.quiet (fun e mem r a replies => ?_) fun _ _ _ => Iff.rfl⟩
          obtain rfl := List.mem_singleton.mp mem
          cases replies

/-! ### The simulation -/

/-- How far a client has come, and whether its operation has taken effect: at its end, or
at the one read of a program that changes nothing. -/
inductive Tracks (M : Meaning S) (r : S.Request) (s : D.State) :
    Running D S.Reply → Option S.Reply → Prop where
  | ahead {x : Running D S.Reply} (ends : Ensures (fun _ _ => True)
      (fun e _ log s => M.Ends r log s e) x.prog x.held x.log s) : Tracks M r s x none
  | looks {q : D.Stmt} {next : D.Result q → Txn D (Ending S.Reply)}
      (reads : ∀ s, D.writes q s = [])
      (ends : ∀ s, next (D.eval q s) = .fail ∨
        ∃ a, next (D.eval q s) = .ret (.drop a) ∧ M.acts r s a s) :
      Tracks M r s ⟨.query q next, [], []⟩ none
  | done {a : S.Reply} {held : List (RowLock D.Row)} {log : List D.Write} :
      Tracks M r s ⟨.ret (.drop a), held, log⟩ (some a)
  | failed {held : List (RowLock D.Row)} {log : List D.Write} :
      Tracks M r s ⟨.fail, held, log⟩ none

theorem Tracks.stable {M : Meaning S} {r : S.Request} {s s' : D.State} {x : Running D S.Reply}
    {a : Option S.Reply} (h : Tracks M r s x a) (i : Interference D x.held s s') :
    Tracks M r s' x a := by
  cases h with
  | ahead ends => exact .ahead (ends.stable i)
  | looks reads ends => exact .looks reads ends
  | done => exact .done
  | failed => exact .failed

/-- The programs do what the object says. -/
structure Atomic (S : System D) (M : Meaning S) : Prop where
  begins : ∀ r s, D.valid s → Tracks M r s ⟨S.program r, [], []⟩ none
  auto : ∀ q s, S.auto q → M.other s (D.applyAll (D.writes q s) s)

structure Simulates (M : Meaning S) (σ : Session S ι) (o : AtomicObject S ι) : Prop where
  state : o.state = σ.state
  idle : ∀ c, σ.running c = none → o.called c = none
  busy : ∀ c r x, σ.running c = some (r, x) →
    ∃ a, o.called c = some (r, a) ∧ Tracks M r σ.state x a

section Simulates
variable {M : Meaning S} {σ : Session S ι} {o : AtomicObject S ι} {c : ι} {r : S.Request}

/-- A client that has come further. -/
theorem Simulates.set (h : Simulates M σ o) {x : Running D S.Reply} {a : Option S.Reply}
    (tracks : Tracks M r σ.state x a) :
    Simulates M (σ.set c (some (r, x))) (o.set c (some (r, a))) where
  state := h.state
  idle c' idle := by
    rw [set_running] at idle
    change (if c' = c then _ else _) = _
    split at idle
    · cases idle
    · rename_i other
      rw [if_neg other]
      exact h.idle c' idle
  busy c' r' x' running := by
    rw [set_running] at running
    change ∃ a, (if c' = c then _ else _) = _ ∧ _
    split at running
    · rename_i same
      cases running
      exact ⟨a, if_pos same, tracks⟩
    · rename_i other
      obtain ⟨a', called, tracks'⟩ := h.busy c' r' x' running
      exact ⟨a', (if_neg other).trans called, tracks'⟩

/-- A client that has left, and what it may have committed. -/
theorem Simulates.clear (h : Simulates M σ o) {s : D.State} (c : ι)
    (kept : ∀ c' r x, c' ≠ c → σ.running c' = some (r, x) → Interference D x.held σ.state s) :
    Simulates M { σ.set c none with state := s } { o.set c none with state := s } where
  state := rfl
  idle c' idle := by
    change (if c' = c then _ else _) = _ at idle
    change (if c' = c then _ else _) = _
    split at idle
    · rename_i same
      exact if_pos same
    · rename_i other
      exact (if_neg other).trans (h.idle c' idle)
  busy c' r' x' running := by
    change (if c' = c then _ else _) = _ at running
    change ∃ a, (if c' = c then _ else _) = _ ∧ _
    split at running
    · cases running
    · rename_i other
      obtain ⟨a', called, tracks⟩ := h.busy c' r' x' running
      exact ⟨a', (if_neg other).trans called, tracks.stable (kept c' r' x' other running)⟩

omit [DecidableEq ι] in
/-- The state, changed by a lone statement. -/
theorem Simulates.withState (h : Simulates M σ o) {s : D.State}
    (kept : ∀ c r x, σ.running c = some (r, x) → Interference D x.held σ.state s) :
    Simulates M { σ with state := s } { o with state := s } where
  state := rfl
  idle := h.idle
  busy c r x running := by
    obtain ⟨a, called, tracks⟩ := h.busy c r x running
    exact ⟨a, called, tracks.stable (kept c r x running)⟩

/-- An operation that has ended is answered, and takes effect before unless it has done so. -/
theorem Simulates.ended (h : Simulates M σ o) {o₀ : AtomicObject S ι} {as : List (ClientAction S ι)}
    (run : AtomicObject.Run M o₀ as o) {e : Ending S.Reply} {held : List (RowLock D.Row)}
    {log : List D.Write} (here : σ.running c = some (r, ⟨.ret e, held, log⟩)) {a : S.Reply}
    {s : D.State} (leaves : e = .drop a ∧ s = σ.state ∨
      e = .commit a ∧ s = D.applyAll log σ.state) :
    AtomicObject.Run M o₀ (as ++ [.answer c r a]) { o.set c none with state := s } := by
  obtain ⟨a', called, tracks⟩ := h.busy c r _ here
  cases tracks with
  | ahead ends =>
      have done := ends σ.state (Interference.refl _ _)
      have acts : M.acts r o.state a s := by
        rw [h.state]
        obtain ⟨rfl, rfl⟩ | ⟨rfl, rfl⟩ := leaves
        · exact done
        · exact done
      have acted := run.hidden (.act called acts)
      have answered := acted.snoc (.answer (c := c) (if_pos rfl))
      rwa [AtomicObject.set_withState_set] at answered
  | done =>
      obtain ⟨same, rfl⟩ | ⟨same, -⟩ := leaves
      · cases same
        rw [← h.state]
        exact run.snoc (.answer called)
      · cases same

end Simulates

/-- Every history of the clients is one of the object. -/
theorem History.atomic {M : Meaning S} {σ₀ σ : Session S ι} {h : List (ClientAction S ι)}
    (hS : S.WellLocked) (atomic : Atomic S M) (idle : ∀ c, σ₀.running c = none)
    (valid : D.valid σ₀.state) (history : History σ₀ h σ) :
    ∃ o, AtomicObject.Run M (.idle σ₀.state) h o ∧ Simulates M σ o := by
  induction history with
  | refl =>
      refine ⟨_, .refl, rfl, fun _ _ => rfl, fun c r x running => ?_⟩
      rw [idle] at running
      cases running
  | call before c r free ih =>
      obtain ⟨o, run, sim⟩ := ih
      obtain ⟨es, steps⟩ := before.run
      have sound := steps.sound hS (sound_of_idle idle valid)
      exact ⟨_, run.snoc (.call c r (sim.idle c free)), sim.set (atomic.begins r _ sound.valid)⟩
  | commit before here accepted ih =>
      obtain ⟨o, run, sim⟩ := ih
      obtain ⟨es, steps⟩ := before.run
      have sound := steps.sound hS (sound_of_idle idle valid)
      refine ⟨_, sim.ended run here (.inr ⟨rfl, rfl⟩), sim.clear _ fun c' r' x other running => ?_⟩
      exact interference_of_covered (sound.covered here) (sound.compat (Ne.symm other) here running)
        accepted
  | drop before here ih =>
      obtain ⟨o, run, sim⟩ := ih
      exact ⟨_, sim.ended run here (.inl ⟨rfl, rfl⟩),
        sim.clear _ fun _ _ _ _ _ => Interference.refl _ _⟩
  | @within h σ σ' ev before step hidden ih =>
      obtain ⟨⟨s, called⟩, run, sim⟩ := ih
      obtain rfl : s = σ.state := sim.state
      cases step with
      | start c r free => simpa [set_running] using hidden.idle c free
      | commit here accepted => exact absurd List.mem_cons_self (hidden.commits _ _ _ _)
      | drop here => exact absurd List.mem_cons_self (hidden.drops _ _ _)
      | abort c =>
          exact ⟨_, run.hidden (.leave c), sim.clear c fun _ _ _ _ _ => Interference.refl _ _⟩
      | auto alone free accepted =>
          refine ⟨_, run.hidden (.other (atomic.auto _ _ alone)),
            sim.withState fun c r x running => ?_⟩
          exact interference_of_covered (hS.auto alone _)
            (fun l hl => free c (r, x) trivial running l hl) accepted
      | @query c r q next held log here free =>
          obtain ⟨a, waits, tracks⟩ := sim.busy c r _ here
          cases tracks with
          | ahead ends =>
              have later := ends σ.state (Interference.refl _ _) trivial
              exact ⟨_, run, AtomicObject.set_self _ waits ▸ sim.set (.ahead later)⟩
          | looks reads ends =>
              rw [Interface.applyAll_nil, reads]
              obtain failed | ⟨a, dropped, acts⟩ := ends σ.state
              · rw [failed]
                exact ⟨_, run, AtomicObject.set_self _ waits ▸ sim.set .failed⟩
              · rw [dropped]
                exact ⟨_, run.hidden (.act waits acts), sim.set .done⟩

end Session
