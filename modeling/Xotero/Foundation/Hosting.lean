import Xotero.Foundation.Custody

/-!
One server at a time is a case of a world in which processes come and go: what holds of
every run of the world holds of every run of the server. And what is in the service is
the work of the calls that have taken effect.
-/

namespace Machine
variable {D : Interface} {V : Service} {P : Plant D V} {H : Host P} {ι π : Type} [DecidableEq ι]
  [DecidableEq π] {w w' : Machine H ι π} {u : World P ι π} {es ev : List (Event P.system)}

/-- The world is where the machine is; processes that the machine has ended may stand
still in it, and calls that have taken effect may do so again. -/
structure Within (w : Machine H ι π) (u : World P ι π) : Prop where
  session : u.session = w.session
  service : u.service = w.service
  sent : w.sent ⊆ u.sent
  running : ∀ p x, w.running p = some x → u.running p = some x

omit [DecidableEq ι] in
theorem Within.set (h : Within w u) (p : π) (x : Option (Process D V P.Answer)) :
    Within (w.set p x) (u.set p x) := by
  refine ⟨h.session, h.service, h.sent, fun p' y here => ?_⟩
  have here : (if p' = p then x else w.running p') = some y := here
  show (if p' = p then x else u.running p') = some y
  split at here
  · rename_i same
    rwa [if_pos same]
  · rename_i other
    rw [if_neg other]
    exact h.running p' y here

/-- A step of the machine is some steps of the world, with the same events. -/
theorem Step.world (h : Within w u) (step : Step w ev w') :
    ∃ u', World.Run u ev u' ∧ Within w' u' := by
  have one {v : World P ι π} {ev : List (Event P.system)} (step : World.Step u ev v) :
      World.Run u ev v := World.Run.refl.snoc step
  have begins (p : π) (job : P.Job) : World.Run u [] (u.set p (some (P.process job))) := by
    have stopped : World.Run u [] (u.set p none) := one (.stop p)
    have begun := stopped.snoc (.spawn p job (if_pos rfl))
    rwa [World.set_set] at begun
  cases step with
  | @session _ σ step clients begun =>
      have step : World.Step u ev { u with session := σ } := .session (h.session ▸ step) clients
      exact ⟨_, one step, rfl, h.service, h.sent, h.running⟩
  | enter r seen => exact ⟨u, .refl, h.session, h.service, h.sent, h.running⟩
  | spawn p job serving later free => exact ⟨_, begins p job, h.set p _⟩
  | boot p job first =>
      refine ⟨_, begins p job, h.session, h.service, h.sent, fun p' x here => ?_⟩
      have here : (if p' = p then some (P.process job) else none) = some x := here
      show (if p' = p then some (P.process job) else u.running p') = some x
      split at here
      · rename_i same
        rwa [if_pos same]
      · cases here
  | @serve p a here starting =>
      obtain ⟨session, service, sent, running⟩ := h.set p none
      exact ⟨_, one (.stop p), session, service, sent, running⟩
  | @read p q next here plain reads =>
      have step := World.Step.read (h.running p _ here) plain reads
      rw [h.session] at step
      exact ⟨_, one step, h.set p _⟩
  | @write p q next s s' σ answer here step answered =>
      have held : Within (w.around σ) ({ u with session := σ } : World P ι π) :=
        ⟨rfl, h.service, h.sent, h.running⟩
      exact ⟨_, one (.write (h.running p _ here) (h.session ▸ step) answered), held.set p _⟩
  | @fail p q next here => exact ⟨_, one (.fail (h.running p _ here)), h.set p _⟩
  | @call p op next here done =>
      cases done with
      | true =>
          have held : Within (w.effect op)
              ({ u with service := V.apply op u.service } : World P ι π) :=
            ⟨h.session, congrArg (V.apply op) h.service, h.sent, h.running⟩
          exact ⟨_, one (.call (h.running p _ here)), held.set p _⟩
      | false =>
          -- A call that has taken effect and failed is one that fails, and then takes effect.
          have lost := one (.lose (h.running p _ here))
          have held : Within (w.effect op) ({ u with
              sent := op :: u.sent
              service := V.apply op u.service } : World P ι π) :=
            ⟨h.session, congrArg (V.apply op) h.service,
              fun o mem => List.mem_cons_of_mem op (h.sent mem), h.running⟩
          exact ⟨_, lost.snoc (.late List.mem_cons_self), held.set p _⟩
  | @lose p op next here =>
      have held : Within ({ w with sent := op :: w.sent } : Machine H ι π)
          ({ u with sent := op :: u.sent } : World P ι π) :=
        ⟨h.session, h.service, List.cons_subset_cons op h.sent, h.running⟩
      exact ⟨_, one (.lose (h.running p _ here)), held.set p _⟩
  | @late op sent lasting =>
      exact ⟨_, one (.late (h.sent sent)), h.session, congrArg (V.apply op) h.service, h.sent,
        h.running⟩
  | stop p => exact ⟨_, one (.stop p), h.set p none⟩

/-- The server is within the world, all the way through a run. -/
theorem Run.world {w₀ : Machine H ι π} {u₀ : World P ι π} (h : Within w₀ u₀)
    (run : Run w₀ es w) : ∃ u, World.Run u₀ es u ∧ Within w u := by
  induction run with
  | refl => exact ⟨u₀, .refl, h⟩
  | snoc _ step ih =>
      obtain ⟨u, before, here⟩ := ih
      obtain ⟨u', after, there⟩ := step.world here
      exact ⟨u', before.trans after, there⟩

omit [DecidableEq ι] [DecidableEq π] in
theorem within_idle (s : D.State) (v : V.State) :
    Within (idle s v : Machine H ι π) (World.idle s v) :=
  ⟨rfl, rfl, List.Subset.refl _, fun _ _ here => nomatch here⟩

/-- The service is what the calls that have taken effect have made of it. -/
theorem Run.service_eq {w₀ : Machine H ι π} (run : Run w₀ es w)
    (first : w₀.calls = []) : w.service = w.calls.foldr V.apply w₀.service := by
  induction run with
  | refl => rw [first, List.foldr_nil]
  | snoc _ step ih =>
      cases step with
      | call here done => exact congrArg _ ih
      | late sent lasting => exact congrArg _ ih
      | session | enter | spawn | boot | serve | read | write | fail | lose | stop => exact ih

end Machine
