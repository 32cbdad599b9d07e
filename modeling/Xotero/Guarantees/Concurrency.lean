import Xotero.Store.Stamps

/-!
Optimistic concurrency: the library version counts the committed changes, a
change applies to exactly the version its client expected, and a refused
operation changes nothing.
-/

namespace Xotero

open Session (Run Step Assumed Specified)

def Request.library : Request → Option LibraryId
  | .guarded L _ _ => some L
  | .registerFile _ _ access _ _ => some access.libraryId
  | .authorizeUpload _ | .administer _ => none

/-- `Conflict` and `FileWriteDenied` -/
def Reply.refused : Reply → Bool
  | .object (.conflict _) | .object .fileWriteDenied | .deletion (.conflict _)
  | .deletion .fileWriteDenied | .change (.conflict _) | .fulltext (.conflict _) => true
  | _ => false

theorem not_refused_of_done {a : Reply} (h : a.doneVersion.isSome) : a.refused = false := by
  cases a with
  | object m | deletion m => cases m <;> simp_all [Reply.doneVersion, Reply.refused]
  | change o | fulltext o => cases o <;> simp_all [Reply.doneVersion, Reply.refused]
  | registration o | authorization o | administered => rfl

/-! Operations that end without a commit -/

section Drops
variable {A : Sql → Database → Prop} {L : LibraryId} {expected : Option Int}

/-- A program that replies `Done` only by a commit. -/
abbrev DropsUndone (p : Txn Db (Ending Reply)) : Prop :=
  p.Ends fun e => ∀ a, e = .drop a → a.doneVersion = none

theorem dropsUndone_endingWith {α : Type} {f : α → Reply} {p : Txn Db (Ending α)}
    (h : p.Ends fun e => ∀ a, e = .drop a → (f a).doneVersion = none) :
    DropsUndone (endingWith f p) := by
  refine Txn.ends_bind h fun e he a same => ?_
  cases e with
  | commit b => cases same
  | drop b =>
      obtain rfl := Ending.drop.inj same
      exact he b rfl

/-- Past the guard, and a conflict that replies without a version. -/
theorem ends_guarded {α : Type} {f : α → Reply} {g : Outcome Int → Txn Db (Ending α)}
    (done : ∀ n, (g (.done n)).Ends fun e => ∀ a, e = .drop a → (f a).doneVersion = none)
    (conflict : ∀ n, ∃ b, g (.conflict n) = pure (.drop b) ∧ (f b).doneVersion = none) :
    (guardedVersion L expected >>= g).Ends fun e =>
      ∀ a, e = .drop a → (f a).doneVersion = none := by
  refine Txn.ends_bind (Txn.ends_true _) fun o _ => ?_
  cases o with
  | done n => exact done n
  | conflict n =>
      obtain ⟨b, hb, undone⟩ := conflict n
      rw [hb]
      intro a same
      obtain rfl := Ending.drop.inj same
      exact undone

theorem ends_undone {α : Type} {f : α → Reply} {p : Txn Db (Ending α)}
    (h : p.Ends fun e => ∀ a, e ≠ .drop a) :
    p.Ends fun e => ∀ a, e = .drop a → (f a).doneVersion = none :=
  Txn.ends_imp h fun _ never a same => absurd same (never a)

theorem ends_writeFrom {kind : ObjectKind} {allow : Bool} {random : Nat → Fin 8 → UInt8}
    {n : Int} {index : Nat} {batch : List Value} {successful : Members} :
    (writeFrom L kind allow random n index batch successful).Ends fun e =>
      ∀ a, e = .drop a → (Reply.object a).doneVersion = none := by
  induction batch generalizing index successful with
  | nil => exact fun a same => nomatch same
  | cons provided batch ih =>
      refine Txn.ends_bind (Txn.ends_true _) fun stored _ => ?_
      cases stored with
      | none =>
          intro a same
          obtain rfl := Ending.drop.inj same
          rfl
      | some object => exact ih

theorem ends_deleteFrom {kind : ObjectKind} {allow : Bool} {n : Int} {keys : List String} :
    (deleteFrom L kind allow n keys).Ends fun e =>
      ∀ a, e = .drop a → (Reply.deletion a).doneVersion = none := by
  induction keys with
  | nil => exact fun a same => nomatch same
  | cons key keys ih =>
      refine Txn.ends_bind (Txn.ends_true _) fun allowed _ => ?_
      cases allowed with
      | true => exact ih
      | false =>
          intro a same
          obtain rfl := Ending.drop.inj same
          rfl

theorem ends_writeSettingsFrom {n : Int} {entries : Members} :
    (writeSettingsFrom L n entries).Ends fun e => ∀ a, e ≠ .drop a := by
  induction entries with
  | nil => exact fun a same => nomatch same
  | cons entry entries ih => exact Txn.ends_bind (Txn.ends_true _) fun _ _ => ih

theorem ends_deleteSettingsFrom {n : Int} {keys : List String} :
    (deleteSettingsFrom L n keys).Ends fun e => ∀ a, e ≠ .drop a := by
  induction keys with
  | nil => exact fun a same => nomatch same
  | cons key keys ih =>
      exact Txn.ends_bind (Txn.ends_true _) fun _ _ => Txn.ends_bind (Txn.ends_true _) fun _ _ => ih

theorem ends_deleteTagsFrom {n : Int} {tags : List String} :
    (deleteTagsFrom L n tags).Ends fun e => ∀ a, e ≠ .drop a := by
  induction tags with
  | nil => exact fun a same => nomatch same
  | cons tag tags ih =>
      exact Txn.ends_bind (Txn.ends_true _) fun _ _ => Txn.ends_bind (Txn.ends_true _) fun _ _ => ih

theorem ends_writeFulltextFrom {n : Int} {index : Nat} {batch : List Value}
    {successful : Members} :
    (writeFulltextFrom L n index batch successful).Ends fun e => ∀ a, e ≠ .drop a := by
  induction batch generalizing index successful with
  | nil => exact fun a same => nomatch same
  | cons item batch ih => exact Txn.ends_bind (Txn.ends_true _) fun _ _ => ih

/-- A write that changes nothing replies with the version it has read. -/
theorem ensures_noChange (L : LibraryId) (expected : Option Int) (s : Database) :
    Ensures (D := Db) A (fun o _ _ _ => ∀ n, o = .done n → (∀ v ∈ expected, v = n) ∧
      ∃ view, A (.libraryVersion L) view ∧ view.version L = n) (noChange L expected) [] [] s := by
  refine Ensures.bind (ensures_execute_bind fun view i seen => ?_)
  cases hr : view.library.find? L with
  | none =>
      simp only [Sql.eval, hr]
      trivial
  | some row =>
      have version : view.version L = row.version := by simp [Database.version, hr]
      simp only [Sql.eval, hr]
      intro d' _
      refine Ensures.ite (fun _ _ _ n same => ?_) fun fresh _ _ n same => ?_
      · cases same
      · obtain rfl := Outcome.done.inj same
        refine ⟨fun v hv => ?_, view, seen, version⟩
        obtain rfl := Option.mem_def.mp hv
        simpa using fresh

end Drops

/-- What a guarded operation that replies `Done` without a commit has read. -/
def Unchanged (A : Sql → Database → Prop) (L : LibraryId) (expected : Option Int)
    (op : GuardedOp) (n : Int) : Prop :=
  op.edits = [] ∧ (∀ v ∈ expected, v = n) ∧ ∃ view, A (.libraryVersion L) view ∧ view.version L = n

section Drop
variable {A : Sql → Database → Prop} {L : LibraryId} {expected : Option Int} {op : GuardedOp}
  {s : Database}

theorem ensures_empty {α : Type} {f : α → Reply} {g : Outcome Int → Txn Db (Ending α)}
    (empty : op.edits = [])
    (done : ∀ n, ∃ b, g (.done n) = pure (.drop b) ∧ (f b).doneVersion = some n)
    (conflict : ∀ n, ∃ b, g (.conflict n) = pure (.drop b) ∧ (f b).doneVersion = none) :
    Ensures (D := Db) A (fun e _ _ _ => ∀ a, e = .drop a → ∀ n, a.doneVersion = some n →
      Unchanged A L expected op n) (endingWith f (noChange L expected >>= g)) [] [] s := by
  rw [endingWith, Txn.bind_assoc]
  refine Ensures.bind ((ensures_noChange L expected s).imp fun o held log d read => ?_)
  cases o with
  | done m =>
      obtain ⟨b, hb, version⟩ := done m
      rw [hb]
      intro d' _ a same n hn
      obtain rfl := Ending.drop.inj same
      obtain rfl := Option.some.inj (version.symm.trans hn)
      exact ⟨empty, read m rfl⟩
  | conflict m =>
      obtain ⟨b, hb, version⟩ := conflict m
      rw [hb]
      intro d' _ a same n hn
      obtain rfl := Ending.drop.inj same
      cases version.symm.trans hn

theorem ensures_nonempty {α : Type} {f : α → Reply} {g : Outcome Int → Txn Db (Ending α)}
    (done : ∀ n, (g (.done n)).Ends fun e => ∀ a, e = .drop a → (f a).doneVersion = none)
    (conflict : ∀ n, ∃ b, g (.conflict n) = pure (.drop b) ∧ (f b).doneVersion = none) :
    Ensures (D := Db) A (fun e _ _ _ => ∀ a, e = .drop a → ∀ n, a.doneVersion = some n →
      Unchanged A L expected op n) (endingWith f (guardedVersion L expected >>= g)) [] [] s := by
  have undone : DropsUndone (endingWith f (guardedVersion L expected >>= g)) :=
    dropsUndone_endingWith (ends_guarded done conflict)
  refine (Ensures.of_ends undone [] [] s).imp fun e _ _ _ undone a same n hn => ?_
  simp [undone a same] at hn

theorem ensures_guarded_drop (A : Sql → Database → Prop) (L : LibraryId)
    (expected : Option Int) (op : GuardedOp) (s : Database) :
    Ensures (D := Db) A (fun e _ _ _ => ∀ a, e = .drop a → ∀ n, a.doneVersion = some n →
      Unchanged A L expected op n) (op.program L expected) [] [] s := by
  cases op with
  | write kind batch allow random =>
      cases batch with
      | nil => exact ensures_empty rfl (fun n => ⟨_, rfl, rfl⟩) fun n => ⟨_, rfl, rfl⟩
      | cons provided batch =>
          exact ensures_nonempty (fun n => ends_writeFrom) fun n => ⟨_, rfl, rfl⟩
  | delete kind keys allow =>
      cases keys with
      | nil => exact ensures_empty rfl (fun n => ⟨_, rfl, rfl⟩) fun n => ⟨_, rfl, rfl⟩
      | cons key keys => exact ensures_nonempty (fun n => ends_deleteFrom) fun n => ⟨_, rfl, rfl⟩
  | writeSettings body =>
      cases hb : body.asObject.all List.isEmpty with
      | true =>
          have empty : (GuardedOp.writeSettings body).edits = [] := by
            cases ho : body.asObject with
            | none => simp [GuardedOp.edits, ho]
            | some entries => simpa [GuardedOp.edits, ho] using hb
          simp only [GuardedOp.program, writeSettings, hb, if_true]
          exact ensures_empty empty (fun n => ⟨_, rfl, rfl⟩) fun n => ⟨_, rfl, rfl⟩
      | false =>
          simp only [GuardedOp.program, writeSettings, hb, Bool.false_eq_true, if_false]
          exact ensures_nonempty (fun n => ends_undone ends_writeSettingsFrom) fun n =>
            ⟨_, rfl, rfl⟩
  | deleteSettings keys =>
      cases keys with
      | nil => exact ensures_empty rfl (fun n => ⟨_, rfl, rfl⟩) fun n => ⟨_, rfl, rfl⟩
      | cons key keys =>
          exact ensures_nonempty (fun n => ends_undone ends_deleteSettingsFrom) fun n =>
            ⟨_, rfl, rfl⟩
  | deleteTags tags =>
      cases tags with
      | nil => exact ensures_empty rfl (fun n => ⟨_, rfl, rfl⟩) fun n => ⟨_, rfl, rfl⟩
      | cons tag tags =>
          exact ensures_nonempty (fun n => ends_undone ends_deleteTagsFrom) fun n => ⟨_, rfl, rfl⟩
  | writeFulltext batch =>
      cases batch with
      | nil => exact ensures_empty rfl (fun n => ⟨_, rfl, rfl⟩) fun n => ⟨_, rfl, rfl⟩
      | cons item batch =>
          exact ensures_nonempty (fun n => ends_undone ends_writeFulltextFrom) fun n =>
            ⟨_, rfl, rfl⟩

end Drop

/-! Runs -/

section Run
variable {digests : Digests} {config : Config} {ι : Type} [DecidableEq ι]
  {σ₀ σ : Session (server digests config) ι} {events : List (Event (server digests config))}

/-- The commits that change library `L`. -/
def bumps (L : LibraryId) : Event (server digests config) → Bool
  | .commit r a _ _ => r.library = some L && a.doneVersion.isSome
  | _ => false

/-- A guarded operation on `L` that expected version `v` and was committed. -/
inductive CommitsAt (L : LibraryId) (v : Int) : Event (server digests config) → Prop where
  | intro {op : GuardedOp} {a : Reply} {d d' : Database} :
      CommitsAt L v (.commit (.guarded L (some v) op) a d d')

/-- A guarded operation that ends in `Conflict` or `FileWriteDenied`. -/
inductive EndsRefused : Event (server digests config) → Prop where
  | commit {L : LibraryId} {expected : Option Int} {op : GuardedOp} {a : Reply}
      {d d' : Database} (refused : a.refused = true) :
      EndsRefused (.commit (.guarded L expected op) a d d')
  | drop {L : LibraryId} {expected : Option Int} {op : GuardedOp} {a : Reply} {d : Database}
      (refused : a.refused = true) : EndsRefused (.drop (.guarded L expected op) a d)

theorem Committed.version {L : LibraryId} {expected : Option Int} {es : List Edit}
    {d d' : Database} (h : Committed L expected es d d') : d'.version L = d.version L + 1 :=
  h.after ▸ edits_version h.exists_library _ es

theorem Committed.agree {L M : LibraryId} {expected : Option Int} {es : List Edit}
    {d d' : Database} (h : Committed L expected es d d') (ne : L ≠ M) : LibraryAgree M d d' :=
  h.after ▸ (setVersion_agree ne).trans (edits_agree ne es)

/-- A commit changes library `L` and its version together, or neither. -/
theorem Effect.version {A : Request → Sql → Database → Prop}
    {P : Request → PendingUpload → Database → Prop} {r : Request} {a : Reply}
    {d d' : Database} (h : Effect A P digests r a d d') (L : LibraryId) :
    if r.library = some L ∧ a.doneVersion.isSome then d'.version L = d.version L + 1
    else LibraryAgree L d d' := by
  cases h with
  | @guarded M expected op a _ _ committed version nonempty =>
      by_cases hM : M = L
      · subst hM
        simpa [Request.library, version] using committed.version
      · simpa [Request.library, hM] using committed.agree hM
  | @registered token itemKey access context now o _ _ registered =>
      cases registered.change with
      | inl unchanged => simpa [unchanged.2] using unchanged.1 L
      | inr changed =>
          obtain ⟨upload, found, rfl, after⟩ := changed
          by_cases hM : access.libraryId = L
          · subst hM
            have version := edits_version found (d.version access.libraryId + 1)
              [.register itemKey upload]
            simpa [Request.library, Reply.doneVersion] using
              (after _).version.symm.trans version
          · simpa [Request.library, hM] using (next_agree hM _ _).trans (after L)
  | authorized authorized =>
      simpa [Request.library] using authorized.after ▸ withPending_agree _ _
  | administered after => simpa [Request.library] using after ▸ accounts_agree _

/-- The version counts the changes, and only a change touches the library. -/
theorem version_of_event (run : Run σ₀ events σ) (starts : Starts σ₀) (L : LibraryId) :
    ∀ e ∈ events, ∀ d d', Session.Event.Moves e d d' →
      if bumps L e then d'.version L = d.version L + 1 else LibraryAgree L d d' := by
  intro e he d d' moved
  cases moved with
  | commit => simpa [bumps] using (commit_plainEffect run starts he).2.version L
  | auto =>
      obtain ⟨-, upload, rfl⟩ := auto_effect run starts he
      simpa [bumps] using upload_agree upload L d

theorem version_of_run (run : Run σ₀ events σ) (starts : Starts σ₀) (L : LibraryId) :
    σ.state.version L = σ₀.state.version L + events.countP (bumps L) := by
  refine run.count (f := fun d : Database => d.version L) (fun e he d d' moved => ?_)
    fun e he bump => ?_
  · have h := version_of_event run starts L e he d d' moved
    cases hb : bumps L e with
    | true => simpa [hb] using h
    | false =>
        rw [hb] at h
        simpa using h.version.symm
  · cases e with
    | commit r a d d' => exact ⟨d, d', .commit⟩
    | stmt | drop | auto => simp [bumps] at bump

/-- A guarded operation that commits applies to the version it expected. -/
theorem committed_at (run : Run σ₀ events σ) (starts : Starts σ₀) {L : LibraryId}
    {expected : Option Int} {op : GuardedOp} {a : Reply} {d d' : Database}
    (he : .commit (Request.guarded L expected op) a d d' ∈ events) :
    op.edits ≠ [] ∧ a.doneVersion = some (d.version L + 1) ∧
      Committed L expected op.edits d d' := by
  cases (commit_plainEffect run starts he).2 with
  | guarded committed version nonempty => exact ⟨nonempty, version, committed⟩

/-- One that replies `Done` without a commit had nothing to do, at that version. -/
theorem unchanged_at (run : Run σ₀ events σ) (starts : Starts σ₀) {L : LibraryId}
    {expected : Option Int} {op : GuardedOp} {a : Reply} {d : Database} {n : Int}
    (he : .drop (Request.guarded L expected op) a d ∈ events) (done : a.doneVersion = some n) :
    Unchanged (fun q view => .stmt (Request.guarded L expected op) q view ∈ events) L expected
      op n := by
  have spec : Specified (server digests config) (fun r q view => .stmt r q view ∈ events)
      (fun r e _ _ _ => ∀ L expected op, r = Request.guarded L expected op → ∀ a, e = .drop a →
        ∀ n, a.doneVersion = some n →
          Unchanged (fun q view => .stmt r q view ∈ events) L expected op n) := by
    refine ⟨fun r s _ => ?_⟩
    cases r with
    | guarded L expected op =>
        refine (ensures_guarded_drop _ L expected op s).imp ?_
        rintro e _ _ _ h _ _ _ ⟨⟩
        exact h
    | registerFile | authorizeUpload | administer =>
        exact (Ensures.of_ends (Txn.ends_true _) [] [] s).imp fun _ _ _ _ _ _ _ _ same =>
          nomatch same
  obtain ⟨-, held, log, post⟩ := run.meets server_wellLocked spec starts.idle starts.valid
    (fun r q view h => h) _ he
  exact post L expected op rfl a rfl n done

theorem commitsAt_pairwise (run : Run σ₀ events σ) (starts : Starts σ₀) (L : LibraryId) :
    events.Pairwise fun e e' => ∀ v, ¬ (CommitsAt L v e ∧ CommitsAt L v e') := by
  refine (run.pairwise (libraryStep_of_event run starts L)).imp_of_mem ?_
  rintro e e' he he' steps v ⟨⟨⟩, ⟨⟩⟩
  obtain ⟨-, -, committed⟩ := committed_at run starts he
  obtain ⟨-, -, committed'⟩ := committed_at run starts he'
  have le := version_le_of_steps (steps _ _ _ _ .commit .commit)
  have before := committed.expected_eq v rfl
  have after := committed'.expected_eq v rfl
  rw [committed.version] at le
  omega

/-- A refused operation, whatever it wrote in its transaction, changes nothing. -/
theorem state_eq_of_refused {σ' : Session (server digests config) ι}
    {ev : List (Event (server digests config))} (run : Run σ₀ events σ) (starts : Starts σ₀)
    (step : Step σ ev σ') {e : Event (server digests config)} (he : e ∈ ev)
    (refused : EndsRefused e) : σ'.state = σ.state := by
  cases step.moves with
  | inl same => exact same
  | inr moved =>
      obtain ⟨e', he', moved⟩ := moved
      have single : e' = e := by
        cases step.events with
        | inl none => simp [none] at he
        | inr one =>
            obtain ⟨x, rfl⟩ := one
            exact (List.mem_singleton.mp he').trans (List.mem_singleton.mp he).symm
      subst single
      cases refused with
      | drop refused => cases moved
      | @commit L expected op a d d' refused =>
          obtain ⟨-, version, -⟩ := committed_at (run.snoc step) starts
            (List.mem_append_right events he)
          have := not_refused_of_done (a := a) (by simp [version])
          simp [refused] at this

/-- No lost update, for every interleaving of any number of clients. -/
theorem no_lost_update (run : Run σ₀ events σ) (starts : Starts σ₀) (L : LibraryId) :
    σ.state.version L = σ₀.state.version L + events.countP (bumps L) ∧
    (∀ e ∈ events, ∀ d d', Session.Event.Moves e d d' →
      if bumps L e then d'.version L = d.version L + 1 else LibraryAgree L d d') ∧
    (∀ expected op a d d', .commit (Request.guarded L expected op) a d d' ∈ events →
      op.edits ≠ [] ∧ a.doneVersion = some (d.version L + 1) ∧
        Committed L expected op.edits d d') ∧
    (∀ expected op a d n, .drop (Request.guarded L expected op) a d ∈ events →
      a.doneVersion = some n →
        Unchanged (fun q view => .stmt (Request.guarded L expected op) q view ∈ events) L expected
          op n) ∧
    (events.Pairwise fun e e' => ∀ v, ¬ (CommitsAt L v e ∧ CommitsAt L v e')) ∧
    (∀ es σ₁ ev σ₂, Run σ₀ es σ₁ → Step σ₁ ev σ₂ → (∃ e ∈ ev, EndsRefused e) →
      σ₂.state = σ₁.state) ∧
    (Bounded L σ₀.state → Bounded L σ.state) := by
  refine ⟨version_of_run run starts L, version_of_event run starts L,
    fun _ _ _ _ _ => committed_at run starts, fun _ _ _ _ _ => unchanged_at run starts,
    commitsAt_pairwise run starts L, ?_, bounded_of_steps (librarySteps_of_run run starts L)⟩
  rintro es σ₁ ev σ₂ run₁ step ⟨e, he, refused⟩
  exact state_eq_of_refused run₁ starts step he refused

end Run

/-- Storing a note in the new library. -/
theorem no_lost_update_note : ∃ events d',
    Run (Session.idle newDatabase : Session plainServer Unit) events (Session.idle d') ∧
    d'.version newLibrary = newDatabase.version newLibrary + events.countP (bumps newLibrary) ∧
    Bounded newLibrary d' ∧
    (d'.object.find? (newLibrary, .item, "TEXT2345")).map Object.version = some 1 := by
  obtain ⟨events, d', run, -, stored⟩ := noteRequest_runs
  obtain ⟨version, -, -, -, -, -, bounded⟩ :=
    no_lost_update run (starts_idle newDatabase_valid) newLibrary
  exact ⟨events, d', run, version, bounded newLibrary_fresh.bounded, stored⟩

end Xotero
