import Xotero.Store.Effects

/-!
The life of one library in a run: each change of the committed state either
commits a batch of edits to it at the next version, or leaves it as it was.
-/

namespace Xotero

open Session (Run Assumed)

section Frame
variable {L M : LibraryId} {d d' : Database} {n : Int}

theorem inLibrary_ne {α : Type} (h : L ≠ M) (x : α) : inLibrary M (L, x) = false := by
  simpa [inLibrary] using h

theorem setVersion_agree (h : L ≠ M) : LibraryAgree M d (d.setVersion L n) := by
  unfold Database.setVersion
  split
  · exact ⟨(Table.find?_put_ne _ _ h.symm).symm, rfl, rfl, rfl, rfl, rfl⟩
  · exact .refl M d

/-- An edit of one library leaves the others as they were. -/
theorem edit_agree (h : L ≠ M) (e : Edit) : LibraryAgree M d (Database.edit L n d e) := by
  have other {α : Type} (x : α) : inLibrary M (L, x) = false := inLibrary_ne h x
  cases e with
  | store kind key provided =>
      refine ⟨rfl, (Table.part_put_of_not _ (other _) _).symm, rfl,
        (Table.part_erase_of_not _ (other _)).symm, ?_, rfl⟩
      simp only [Database.edit]
      split
      · rfl
      · exact (Table.part_erase_of_not _ (other _)).symm
  | remove kind key =>
      refine ⟨rfl, (Table.part_erase_of_not _ (other _)).symm, rfl,
        (Table.part_put_of_not _ (other _) _).symm, ?_, rfl⟩
      simp only [Database.edit]
      split
      · exact (Table.part_erase_of_not _ (other _)).symm
      · rfl
  | storeSetting key entry =>
      exact ⟨rfl, rfl, (Table.part_put_of_not _ (other _) _).symm, rfl, rfl, rfl⟩
  | removeSetting key =>
      exact ⟨rfl, rfl, (Table.part_erase_of_not _ (other _)).symm,
        (Table.part_put_of_not _ (other _) _).symm, rfl, rfl⟩
  | removeTag tag =>
      refine ⟨rfl, ?_, rfl, (Table.part_put_of_not _ (other _) _).symm, rfl, rfl⟩
      exact (Table.part_foldl_put _ _ (fun _ _ => other _) _).symm
  | storeText item =>
      exact ⟨rfl, rfl, rfl, rfl, rfl, (Table.part_put_of_not _ (other _) _).symm⟩
  | register key upload =>
      refine ⟨rfl, ?_, rfl, rfl, (Table.part_put_of_not _ (other _) _).symm, rfl⟩
      simp only [Database.edit]
      split
      · exact (Table.part_put_of_not _ (other _) _).symm
      · rfl

theorem edits_agree (h : L ≠ M) (es : List Edit) :
    LibraryAgree M d (Database.edits L n d es) := by
  induction es generalizing d with
  | nil => exact .refl M d
  | cons e es ih => exact (edit_agree h e).trans ih

theorem withPending_agree (token : Digest) (row : Option PendingUploadRow) :
    LibraryAgree L d (d.withPending token row) :=
  ⟨rfl, rfl, rfl, rfl, rfl, rfl⟩

theorem writes_agree {ws : List Write} (h : ∀ w ∈ ws, w.target ≠ .library L) :
    LibraryAgree L d (ws.foldl Database.apply d) :=
  Interface.agree_applyAll_frame (D := Db) (k := RowId.library L) d h

theorem accounts_agree (ws : List AccountWrite) :
    LibraryAgree L d ((ws.map Write.account).foldl Database.apply d) := by
  refine writes_agree fun w hw => ?_
  obtain ⟨w, -, rfl⟩ := List.mem_map.mp hw
  cases w <;> exact nofun

end Frame

/-- One change of the committed state, as library `L` sees it. -/
inductive LibraryStep (L : LibraryId) (d d' : Database) : Prop where
  | edited (es : List Edit) (nonempty : es ≠ []) (found : (d.library.find? L).isSome)
      (after : LibraryAgree L
        (Database.edits L (d.version L + 1) (d.setVersion L (d.version L + 1)) es) d')
  | apart (same : LibraryAgree L d d')

/-- The statements that run alone write pending uploads only. -/
theorem writes_of_upload {q : Sql} (h : q.isUploadStatement) {d : Database} {w : Write}
    (hw : w ∈ q.writes d) : ∃ token row, w = .pendingUpload token row := by
  cases q <;> simp only [Sql.isUploadStatement, Bool.false_eq_true] at h <;>
    simp only [Sql.writes, updatePendingUpload] at hw <;> grind

section Step
variable {A : Request → Sql → Database → Prop}
  {P : Request → PendingUpload → Database → Prop} {digests : Digests} {config : Config}
  {d d' : Database}

/-- A registration changes its library when it is done, and nothing else does. -/
theorem Registered.change {P : PendingUpload → Database → Prop} {token : Digest}
    {itemKey : String} {access : LibraryAccess} {now : Int} {o : FileRegistrationOutcome}
    (h : Registered P token itemKey access now d d' o) :
    (∀ L, LibraryAgree L d d') ∧ (Reply.registration o).doneVersion = none ∨
      ∃ upload, (d.library.find? access.libraryId).isSome ∧
        o = .done (d.version access.libraryId + 1) ∧
        ∀ L, LibraryAgree L (Database.edit access.libraryId (d.version access.libraryId + 1)
          (d.setVersion access.libraryId (d.version access.libraryId + 1))
          (.register itemKey upload)) d' := by
  cases h with
  | expired found dead after => exact .inl ⟨fun _ => after ▸ withPending_agree _ _, rfl⟩
  | invalidItem presented authority absent after =>
      exact .inl ⟨fun _ => after ▸ withPending_agree _ _, rfl⟩
  | conflict presented authority item mismatch after =>
      exact .inl ⟨fun _ => after ▸ withPending_agree _ _, rfl⟩
  | @done row presented authority item same after =>
      exact .inr ⟨row.upload, presented.exists_library, rfl,
        fun _ => after ▸ withPending_agree _ _⟩

/-- An edit of another library at its next version. -/
theorem next_agree {L M : LibraryId} (h : L ≠ M) (n : Int) (e : Edit) :
    LibraryAgree M d (Database.edit L n (d.setVersion L n) e) :=
  (setVersion_agree h).trans (edit_agree h e)

theorem Effect.libraryStep {r : Request} {a : Reply} (h : Effect A P digests r a d d')
    (L : LibraryId) : LibraryStep L d d' := by
  cases h with
  | @guarded M expected op a _ _ committed version nonempty =>
      obtain ⟨found, -, rfl⟩ := committed
      by_cases hL : M = L
      · subst hL
        exact .edited op.edits nonempty found (.refl M _)
      · exact .apart ((setVersion_agree hL).trans (edits_agree hL _))
  | @registered token itemKey access context now o _ _ registered =>
      cases registered.change with
      | inl unchanged => exact .apart (unchanged.1 L)
      | inr changed =>
          obtain ⟨upload, found, -, after⟩ := changed
          by_cases hL : access.libraryId = L
          · subst hL
            exact .edited [.register itemKey upload] (by simp) found (after _)
          · exact .apart ((next_agree hL _ _).trans (after L))
  | authorized authorized =>
      exact .apart (authorized.after ▸ withPending_agree _ _)
  | administered after =>
      exact .apart (after ▸ accounts_agree _)

theorem upload_agree {q : Sql} (h : q.isUploadStatement) (L : LibraryId) (d : Database) :
    LibraryAgree L d ((q.writes d).foldl Database.apply d) := by
  refine writes_agree fun w hw => ?_
  obtain ⟨token, row, rfl⟩ := writes_of_upload h hw
  exact nofun

end Step

/-! Runs -/

section Run
variable {digests : Digests} {config : Config} {ι : Type} [DecidableEq ι]
  {σ₀ σ : Session (server digests config) ι} {events : List (Event (server digests config))}

/-- No client is at work and the constraints hold. -/
structure Starts (σ₀ : Session (server digests config) ι) : Prop where
  idle : ∀ c, σ₀.running c = none
  valid : σ₀.state.Valid

omit [DecidableEq ι] in
theorem starts_idle {d : Database} (valid : d.Valid) :
    Starts (Session.idle d : Session (server digests config) ι) :=
  ⟨fun _ => rfl, valid⟩

section Effects
variable {A : Request → Sql → Database → Prop}
  {P : Request → PendingUpload → Database → Prop}

theorem commit_effect (run : Run σ₀ events σ) (starts : Starts σ₀) (assumed : Assumed A events)
    (secures : ∀ token itemKey access context now,
      Secures (A (.registerFile token itemKey access context now))
        (P (.registerFile token itemKey access context now)) digests config context)
    {r : Request} {a : Reply} {d d' : Database}
    (he : Event.commit r a d d' ∈ events) : d.Valid ∧ Effect A P digests r a d d' := by
  obtain ⟨valid, held, log, post, rfl⟩ := run.meets server_wellLocked (specified secures)
    starts.idle starts.valid assumed _ he
  exact ⟨valid, post a rfl⟩

end Effects

/-- Without a claim about the authority, nothing has to be secured. -/
theorem secures_true (A : Sql → Database → Prop) (context : RequestContext) :
    Secures A (fun _ _ => True) digests config context := by
  intro upload held s _
  exact (Ensures.of_ends (Txn.ends_true _) held [] s).imp fun _ _ _ _ _ _ _ _ => trivial

/-- The effect of a request, with nothing assumed. -/
abbrev PlainEffect (digests : Digests) : Request → Reply → Database → Database → Prop :=
  Effect (fun _ _ _ => True) (fun _ _ _ => True) digests

theorem commit_plainEffect (run : Run σ₀ events σ) (starts : Starts σ₀) {r : Request}
    {a : Reply} {d d' : Database} (he : Event.commit r a d d' ∈ events) :
    d.Valid ∧ PlainEffect digests r a d d' :=
  commit_effect (A := fun _ _ _ => True) (P := fun _ _ _ => True) run starts
    (fun _ _ _ _ => trivial) (fun _ _ _ _ _ => secures_true _ _) he

/-- A guarded operation that commits has run alone on the state it commits to. -/
theorem guarded_runs (run : Run σ₀ events σ) (starts : Starts σ₀) {L : LibraryId}
    {expected : Option Int} {op : GuardedOp} {a : Reply} {d d' : Database}
    (he : Event.commit (Request.guarded L expected op) a d d' ∈ events) :
    (op.program L expected).run d = some (d', .commit a) := by
  have spec : Session.Specified (server digests config) (fun _ _ _ => True)
      (fun r e _ log d => ∀ L expected op a, r = Request.guarded L expected op → e = .commit a →
        (op.program L expected).run d = some (log.foldl Database.apply d, .commit a)) := by
    refine ⟨fun r s _ => ?_⟩
    cases r with
    | guarded L expected op =>
        refine ((guardedShape L expected op).ensures s).imp ?_
        rintro e _ log d h _ _ _ a ⟨⟩ rfl
        exact Txn.run_of_collect (h a rfl)
    | registerFile | authorizeUpload | administer =>
        exact (Ensures.of_ends (Txn.ends_true _) [] [] s).imp fun _ _ _ _ _ _ _ _ _ same =>
          nomatch same
  obtain ⟨-, held, log, post, rfl⟩ := run.meets server_wellLocked spec starts.idle starts.valid
    (fun _ _ _ _ => trivial) _ he
  exact post L expected op a rfl rfl

theorem auto_effect (run : Run σ₀ events σ) (starts : Starts σ₀) {q : Sql} {d d' : Database}
    (he : Event.auto q d d' ∈ events) :
    d.Valid ∧ q.isUploadStatement ∧ d' = (q.writes d).foldl Database.apply d :=
  run.meets server_wellLocked (specified (A := fun _ _ _ => True) (P := fun _ _ _ => True)
    fun _ _ _ _ _ => secures_true _ _) starts.idle starts.valid (fun _ _ _ _ => trivial) _ he

theorem libraryStep_of_event (run : Run σ₀ events σ) (starts : Starts σ₀) (L : LibraryId) :
    ∀ e ∈ events, ∀ d d', Session.Event.Moves e d d' → LibraryStep L d d' := by
  intro e he d d' moved
  cases moved with
  | commit => exact (commit_plainEffect run starts he).2.libraryStep L
  | auto =>
      obtain ⟨-, upload, rfl⟩ := auto_effect run starts he
      exact .apart (upload_agree upload L d)

/-- The registrations of `key` in library `L` that are done. -/
inductive Registers (L : LibraryId) (key : String) : Event (server digests config) → Prop where
  | done {token : Digest} {access : LibraryAccess} {context : RequestContext} {now n : Int}
      {d d' : Database} (library : access.libraryId = L) :
      Registers L key (.commit (Request.registerFile token key access context now)
        (.registration (.done n)) d d')

/-- One change of the committed state, by what it does to library `L`. -/
inductive Change (L : LibraryId) : Event (server digests config) → Database → Database → Prop where
  | guarded {expected : Option Int} {op : GuardedOp} {a : Reply} {d d' : Database}
      (committed : Committed L expected op.edits d d') :
      Change L (.commit (Request.guarded L expected op) a d d') d d'
  | registered {e : Event (server digests config)} {key : String} {upload : PendingUpload}
      {d d' : Database} (registers : Registers L key e) (item : d.attachment L key = true)
      (after : LibraryAgree L (Database.edit L (d.version L + 1)
        (d.setVersion L (d.version L + 1)) (.register key upload)) d') : Change L e d d'
  | apart {e : Event (server digests config)} {d d' : Database} (same : LibraryAgree L d d')
      (silent : ∀ key, ¬ Registers L key e) : Change L e d d'

theorem change_of_event (run : Run σ₀ events σ) (starts : Starts σ₀) (L : LibraryId) :
    ∀ e ∈ events, ∀ d d', Session.Event.Moves e d d' → Change L e d d' := by
  intro e he d d' moved
  cases moved with
  | auto =>
      obtain ⟨-, upload, rfl⟩ := auto_effect run starts he
      exact .apart (upload_agree upload L d) fun key => nofun
  | commit =>
      cases (commit_plainEffect run starts he).2 with
      | @guarded M expected op a _ _ committed version nonempty =>
          by_cases hM : M = L
          · subst hM
            exact .guarded committed
          · refine .apart ?_ fun key => nofun
            exact committed.after ▸ (setVersion_agree hM).trans (edits_agree hM _)
      | @registered token itemKey access context now o _ _ h =>
          cases h with
          | expired found dead after =>
              exact .apart (after ▸ withPending_agree _ _) fun key => nofun
          | invalidItem presented authority absent after =>
              exact .apart (after ▸ withPending_agree _ _) fun key => nofun
          | conflict presented authority item mismatch after =>
              exact .apart (after ▸ withPending_agree _ _) fun key => nofun
          | @done row presented authority item same after =>
              by_cases hM : access.libraryId = L
              · subst hM
                exact .registered (.done rfl) item (after ▸ withPending_agree _ _)
              · refine .apart ((next_agree hM _ _).trans (after ▸ withPending_agree _ _)) ?_
                rintro key ⟨library⟩
                exact hM library
      | authorized authorized =>
          exact .apart (authorized.after ▸ withPending_agree _ _) fun key => nofun
      | administered after => exact .apart (after ▸ accounts_agree _) fun key => nofun

/-- What every change keeps, the later part of a run keeps. -/
theorem kept_between {σ₁ σ₂ : Session (server digests config) ι}
    {events' : List (Event (server digests config))} (run : Run σ₀ events σ₁)
    (run' : Run σ₁ events' σ₂) (starts : Starts σ₀) (L : LibraryId)
    {I : Database → Prop} (init : I σ₁.state)
    (change : ∀ e ∈ events', ∀ d d', Change L e d d' → I d → I d') : I σ₂.state := by
  have changes := change_of_event (run.trans run') starts L
  have chain := run'.chain (R := fun d d' => I d → I d') fun e he d d' moved =>
    change e he d d' (changes e (List.mem_append_right events he) d d' moved)
  revert chain
  generalize σ₂.state = d
  intro chain
  induction chain with
  | refl => exact init
  | tail _ step ih => exact step ih

/-- What every change of a library keeps, the later part of a run keeps: the
changes are the guarded operations on it and the registrations of its files. -/
theorem invariant_between {σ₁ σ₂ : Session (server digests config) ι}
    {events' : List (Event (server digests config))} (run : Run σ₀ events σ₁)
    (run' : Run σ₁ events' σ₂) (starts : Starts σ₀) (L : LibraryId)
    {I : Database → Prop} (init : I σ₁.state)
    (agree : ∀ d d', LibraryAgree L d d' → I d → I d')
    (guarded : ∀ expected op a d d', .commit (Request.guarded L expected op) a d d' ∈ events' →
      Committed L expected op.edits d d' → I d → I d')
    (registered : ∀ key upload d, I d → I (Database.edit L (d.version L + 1)
      (d.setVersion L (d.version L + 1)) (.register key upload))) : I σ₂.state := by
  refine kept_between run run' starts L init fun e he d d' change before => ?_
  cases change with
  | guarded committed => exact guarded _ _ _ _ _ he committed before
  | registered _ _ after => exact agree _ _ after (registered _ _ d before)
  | apart same _ => exact agree _ _ same before

theorem invariant_of_run (run : Run σ₀ events σ) (starts : Starts σ₀) (L : LibraryId)
    {I : Database → Prop} (init : I σ₀.state)
    (agree : ∀ d d', LibraryAgree L d d' → I d → I d')
    (guarded : ∀ expected op a d d', .commit (Request.guarded L expected op) a d d' ∈ events →
      Committed L expected op.edits d d' → I d → I d')
    (registered : ∀ key upload d, I d → I (Database.edit L (d.version L + 1)
      (d.setVersion L (d.version L + 1)) (.register key upload))) : I σ.state :=
  invariant_between .refl run starts L init agree guarded registered

/-- The committed states of a run, as library `L` sees them. -/
theorem librarySteps_of_run (run : Run σ₀ events σ) (starts : Starts σ₀) (L : LibraryId) :
    Relation.ReflTransGen (LibraryStep L) σ₀.state σ.state :=
  run.chain (libraryStep_of_event run starts L)

end Run

end Xotero
