import Xotero.Foundation.Atomicity
import Xotero.Handlers.Gets
import Xotero.Store.Stamps

/-!
The mutations of a library are linearizable: in every interleaving the clients see
calls and answers as if each operation ran alone at one moment, whether it is committed
or refused.
-/

namespace Xotero

open Session (Run History SameAnswers Tracks Atomic)

def Request.guards : Request → Bool
  | .guarded .. => true
  | .registerFile .. | .authorizeUpload _ | .administer _ => false

/-- A guarded operation does what it does alone. A transaction of another kind does what
a commit of it may do, or nothing. -/
inductive Acts (digests : Digests) (config : Config) :
    Request → Database → Reply → Database → Prop where
  | guarded {L : LibraryId} {expected : Option Int} {op : GuardedOp} {a : Reply}
      {d d' : Database}
      (alone : Request.alone digests config (.guarded L expected op) d = (some a, d')) :
      Acts digests config (.guarded L expected op) d a d'
  | committed {r : Request} {a : Reply} {d d' : Database} (other : r.guards = false)
      (effect : PlainEffect digests r a d d') : Acts digests config r d a d'
  | dropped {r : Request} {a : Reply} {d : Database} (other : r.guards = false) :
      Acts digests config r d a d

/-- The libraries as an object. -/
def libraries (digests : Digests) (config : Config) : Meaning (server digests config) where
  acts := Acts digests config
  other d d' := ∃ q : Sql, q.isUploadStatement = true ∧ d' = (q.writes d).foldl Database.apply d

section
variable {digests : Digests} {config : Config} {L : LibraryId} {expected : Option Int}
  {op : GuardedOp} {d d' : Database} {a : Reply}

theorem acts_commit (run : (op.program L expected).run d = some (d', .commit a)) :
    Acts digests config (.guarded L expected op) d a d' := by
  refine .guarded ?_
  rw [Request.alone, Request.program, run]

theorem acts_drop (run : (op.program L expected).run d = some (d', .drop a)) :
    Acts digests config (.guarded L expected op) d a d := by
  refine .guarded ?_
  rw [Request.alone, Request.program, run]

/-- Behind the lock of the library a program runs as it would alone. -/
theorem tracks_locked {f : Outcome Int → Txn Db (Ending Reply)}
    (inside : ∀ o, (f o).Scoped [RowId.library L])
    (same : op.program L expected = guardedVersion L expected >>= f) (d : Database) :
    Tracks (libraries digests config) (.guarded L expected op) d
      ⟨op.program L expected, [], []⟩ none := by
  obtain ⟨next, form, failed⟩ := guardedVersion_bind L expected f
  have all := Txn.scoped_bind (scoped_guardedVersion L expected) inside
  rw [form] at all same
  refine .ahead (Ensures.imp (Q := fun e _ log d =>
    (op.program L expected).collect [] d = some (log, e)) ?_ ?_)
  · dsimp only
    rw [same]
    refine Ensures.of_locked all (fun _ => rfl) fun d => ?_
    exact (locks_or_fails failed L d).imp (fun lock => ⟨_, lock⟩) id
  · intro e _ log d collected
    have alone := Txn.run_of_collect collected
    cases e with
    | commit a => exact acts_commit alone
    | drop a => exact acts_drop alone

/-- A program without a transaction reads one row. -/
theorem tracks_unchanged {f : Outcome Int → Txn Db (Ending Reply)}
    (drops : ∀ o, ∃ b, f o = pure (.drop b))
    (same : op.program L expected = noChange L expected >>= f) (d : Database) :
    Tracks (libraries digests config) (.guarded L expected op) d
      ⟨op.program L expected, [], []⟩ none := by
  rw [noChange, Txn.bind_assoc, currentVersion_bind] at same
  have ends (row : Option Int) : (fetchOne row >>= fun current => (if expected.any (· ≠ current)
      then pure (.conflict current) else pure (.done current)) >>= f) = .fail ∨
        ∃ a, (fetchOne row >>= fun current => (if expected.any (· ≠ current)
          then pure (.conflict current) else pure (.done current)) >>= f) = .ret (.drop a) := by
    cases row with
    | none => exact .inl rfl
    | some current =>
        refine .inr ?_
        change ∃ a, (if expected.any (· ≠ current) = true then pure (.conflict current)
          else pure (.done current) : Txn Db (Outcome Int)) >>= f = .ret (.drop a)
        split
        · exact drops _
        · exact drops _
  rw [same]
  refine .looks (fun _ => rfl) fun d => (ends _).imp_right fun ended => ?_
  obtain ⟨a, dropped⟩ := ended
  have alone : (op.program L expected).run d = some (d, .drop a) := by
    rw [same]
    exact congrArg (Txn.run · d) dropped
  exact ⟨a, dropped, acts_drop alone⟩

theorem tracks_other {r : Request} (other : r.guards = false) (valid : d.Valid) :
    Tracks (libraries digests config) r d ⟨r.program digests config, [], []⟩ none := by
  have spec : Session.Specified (server digests config) (fun _ _ _ => True)
      (fun r e _ log d => ∀ a, e = .commit a →
        PlainEffect digests r a d (log.foldl Database.apply d)) :=
    specified fun _ _ _ _ _ => secures_true _ _
  refine .ahead ((spec.ensures r d valid).imp fun e _ log d effect => ?_)
  cases e with
  | commit a => exact .committed other (effect a rfl)
  | drop a => exact .dropped other

theorem libraries_atomic : Atomic (server digests config) (libraries digests config) where
  begins r d valid := by
    cases r with
    | guarded L expected op =>
        have shape := guardedShape L expected op
        have tracks : Tracks (libraries digests config) (.guarded L expected op) d
            ⟨op.program L expected, [], []⟩ none := by
          generalize same : op.program L expected = p at shape
          cases shape with
          | unchanged drops => exact same ▸ tracks_unchanged drops same d
          | locked inside => exact same ▸ tracks_locked inside same d
        exact tracks
    | registerFile | authorizeUpload | administer => exact tracks_other rfl valid
  auto q d alone := ⟨q, alone, rfl⟩

end

/-- Whatever the statements of the requests interleave to, the clients see a history of
the libraries as an object: each mutation that is answered has run alone at one moment
between its call and its answer, on the state it then had, and left what it leaves
alone. Every run has such a history, with all its answers. -/
theorem mutations_linearizable {digests : Digests} {config : Config} {ι : Type} [DecidableEq ι]
    {d : Database} (valid : d.Valid) :
    (∀ h (σ : Session (server digests config) ι), History (Session.idle d) h σ →
      ∃ o, AtomicObject.Run (libraries digests config) (.idle d) h o ∧ o.state = σ.state) ∧
    ∀ es (σ : Session (server digests config) ι), Run (Session.idle d) es σ →
      ∃ h, History (Session.idle d) h σ ∧ SameAnswers es h := by
  refine ⟨fun h σ history => ?_, fun es σ run => run.observed⟩
  obtain ⟨o, run, simulates⟩ := history.atomic server_wellLocked libraries_atomic
    (fun _ => rfl) valid
  exact ⟨o, run, simulates.state⟩

/-- A note stored in the new library. -/
theorem mutations_linearizable_note : ∃ h d' o,
    History (Session.idle newDatabase : Session plainServer Unit) h (Session.idle d') ∧
    AtomicObject.Run (libraries plainDigests plainConfig) (.idle newDatabase) h o ∧
    (o.state.object.find? (newLibrary, .item, "TEXT2345")).map Object.version = some 1 := by
  obtain ⟨events, d', run, -, stored⟩ := noteRequest_runs
  obtain ⟨atomic, observed⟩ :=
    @mutations_linearizable plainDigests plainConfig Unit _ newDatabase newDatabase_valid
  obtain ⟨h, history, -⟩ := observed events _ run
  obtain ⟨o, object, same⟩ := atomic h _ history
  exact ⟨h, d', o, history, object, same ▸ stored⟩

end Xotero
