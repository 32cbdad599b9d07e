import Xotero.Guarantees.Cursors
import Xotero.Guarantees.Notes
import Xotero.Handlers.Gets

/-!
The GETs of a client while other clients commit between their statements. The
version of a library moves with every change of it, so answers that begin with
the version read first, end with the version read last and show the same one
were given by one state.
-/

namespace Xotero

open Session (Run)

section Agree
variable {L : LibraryId} {d d' : Database}

/-- The version stands still only while the library does. -/
theorem agree_of_steps (h : Relation.ReflTransGen (LibraryStep L) d d')
    (same : d.version L = d'.version L) : LibraryAgree L d d' := by
  induction h with
  | refl => exact .refl L d
  | @tail d' d'' before step ih =>
      have low := version_le_of_steps before
      have high := step.version_le
      cases step.version_eq with
      | inl change => omega
      | inr agree => exact (ih (by omega)).trans agree

theorem agreeOn_library (h : LibraryAgree L d d') : Txn.AgreeOn (D := Db) [.library L] d d' := by
  intro k hk
  cases List.mem_singleton.mp hk
  exact h

end Agree

section Run
variable {digests : Digests} {config : Config} {ι : Type} [DecidableEq ι]
  {σ₀ σ σ' : Session (server digests config) ι} {L : LibraryId}

/-- Moments of a run: the states at which statements outside of any transaction
find the database, while the clients of `σ` go on. -/
inductive Watched : Session (server digests config) ι → List Database →
    Session (server digests config) ι → Prop where
  | last {σ σ' : Session (server digests config) ι}
      {events : List (Event (server digests config))} (run : Run σ events σ') : Watched σ [] σ'
  | read {σ σ' τ : Session (server digests config) ι}
      {events : List (Event (server digests config))} {ds : List Database}
      (run : Run σ events σ') (rest : Watched σ' ds τ) : Watched σ (σ'.state :: ds) τ

/-- The moments come in order, and before the end. -/
theorem Watched.ordered {events : List (Event (server digests config))} (run : Run σ₀ events σ)
    (starts : Starts σ₀) (L : LibraryId) {ds : List Database} (watched : Watched σ ds σ') :
    (σ.state :: ds ++ [σ'.state]).Pairwise (Relation.ReflTransGen (LibraryStep L)) := by
  induction watched generalizing events with
  | last run' =>
      simpa using librarySteps_between run run' starts L
  | @read σ σ₁ τ events' ds run' rest ih =>
      have later := ih (run.trans run')
      have first := librarySteps_between run run' starts L
      refine List.pairwise_cons.mpr ⟨fun d hd => ?_, later⟩
      rcases List.mem_cons.mp hd with rfl | hd
      · exact first
      · exact first.trans ((List.pairwise_cons.mp later).1 d hd)

theorem gets_of_ordered (front : Frontend) (notes : Bool) {cs : List Database}
    (ordered : cs.Pairwise (Relation.ReflTransGen (LibraryStep L))) {first last : DataGet}
    {gets : List DataGet} (opens : first.versionFirst front) (closes : last.versionLast front)
    {answers : List (Option ItemsResponse)}
    (replayed : (Txn.inTurn ((first :: gets ++ [last]).map (DataGet.serve front L notes))).replay
      cs = some answers)
    (same : answers.head?.bind shownVersion = answers.getLast?.bind shownVersion) :
    ∃ d ∈ cs, answers.head?.bind shownVersion = some (d.version L) ∧
      List.Forall₂ (fun get answer => (get.serve front L notes).run d = some (d, answer))
        (first :: gets ++ [last]) answers := by
  have reads (p) (hp : p ∈ (first :: gets ++ [last]).map (DataGet.serve front L notes)) :
      ReadsOnly L p := by
    obtain ⟨get, -, rfl⟩ := List.mem_map.mp hp
    exact get.reads front L notes
  have split : (first :: gets ++ [last]).map (DataGet.serve front L notes) =
      first.serve front L notes :: gets.map (DataGet.serve front L notes) ++
        [last.serve front L notes] := by simp
  rw [split] at replayed reads
  obtain ⟨d, hd, shown, run⟩ := Txn.snapshot_of_replay (K := [RowId.library L])
    (fun d d' h => version_le_of_steps h)
    (fun d d' h same => agreeOn_library (agree_of_steps h same))
    (DataGet.opens front L notes opens) (DataGet.closes front L notes closes)
    (fun p hp => (reads p hp).inside) (fun p hp => (reads p hp).readOnly) ordered replayed same
  refine ⟨d, hd, shown, ?_⟩
  have each := Txn.run_inTurn (fun p hp => (reads p hp).readOnly) run
  rw [← split] at each
  exact List.forall₂_map_left_iff.mp each

/-- GETs of a library whose first answer shows a version read before anything
else, whose last answer shows one read after everything else, and whose two
versions are equal, were all answered from one moment. -/
theorem gets_from_one_state (front : Frontend) (notes : Bool) {ds cs : List Database}
    (starts : Starts σ₀) (watched : Watched σ₀ ds σ) (mine : List.Sublist cs ds)
    {first last : DataGet} {gets : List DataGet} (opens : first.versionFirst front)
    (closes : last.versionLast front) {answers : List (Option ItemsResponse)}
    (replayed : (Txn.inTurn ((first :: gets ++ [last]).map (DataGet.serve front L notes))).replay
      cs = some answers)
    (same : answers.head?.bind shownVersion = answers.getLast?.bind shownVersion) :
    ∃ d ∈ cs, answers.head?.bind shownVersion = some (d.version L) ∧
      List.Forall₂ (fun get answer => (get.serve front L notes).run d = some (d, answer))
        (first :: gets ++ [last]) answers := by
  have ordered := (List.pairwise_cons.mp (watched.ordered .refl starts L)).2
  exact gets_of_ordered front notes ((List.pairwise_append.mp ordered).1.sublist mine) opens closes
    replayed same

/-- Two empty libraries. -/
def pairDatabase : Database :=
  { newDatabase with library := newDatabase.library.put otherLibrary ⟨0, .personal⟩ }

theorem pairDatabase_valid : pairDatabase.Valid := by
  constructor <;> decide

def otherNoteRequest : Request :=
  .guarded otherLibrary (some 0) (.write .item
    [.object [("key", .string "TEXT2345"), ("itemType", .string "note")]] true fun _ _ => 0)

def besideDatabase : Database := plainServer.after pairDatabase 6 noteRequest

def beyondDatabase : Database := plainServer.after besideDatabase 6 otherNoteRequest

/-- The other library stores a note between the two reads. -/
theorem gets_from_one_state_between : ∃ answers,
    (Txn.inTurn ([DataGet.collections [("format", "versions")], .deleted []].map
      (DataGet.serve plainFrontend newLibrary true))).replay
        [besideDatabase, besideDatabase, beyondDatabase, beyondDatabase] = some answers ∧
    besideDatabase.version otherLibrary = 0 ∧ beyondDatabase.version otherLibrary = 1 ∧
    answers.head?.bind shownVersion = some 1 ∧
    ∃ d ∈ [besideDatabase, besideDatabase, beyondDatabase, beyondDatabase],
      List.Forall₂ (fun get answer =>
          (get.serve plainFrontend newLibrary true).run d = some (d, answer))
        [DataGet.collections [("format", "versions")], .deleted []] answers := by
  have start : Run (Session.idle pairDatabase : Session plainServer Unit) []
      (Session.idle pairDatabase) := .refl
  obtain ⟨es, run, -⟩ := start.then_alone (r := noteRequest) (t := besideDatabase) () 6 rfl rfl
    (by constructor <;> decide)
  have between : Run (Session.idle besideDatabase : Session plainServer Unit) []
      (Session.idle besideDatabase) := .refl
  obtain ⟨es', run', -⟩ := between.then_alone (r := otherNoteRequest) (t := beyondDatabase) () 6
    rfl rfl (by constructor <;> decide)
  have watched : Watched (Session.idle pairDatabase : Session plainServer Unit)
      [besideDatabase, besideDatabase, beyondDatabase, beyondDatabase]
      (Session.idle beyondDatabase) :=
    .read run (.read .refl (.read run' (.read .refl (.last .refl))))
  have opens : (DataGet.collections [("format", "versions")]).versionFirst plainFrontend := rfl
  have closes : (DataGet.deleted []).versionLast plainFrontend := trivial
  have replayed : (Txn.inTurn ((DataGet.collections [("format", "versions")] :: [] ++
      [DataGet.deleted []]).map (DataGet.serve plainFrontend newLibrary true))).replay
        [besideDatabase, besideDatabase, beyondDatabase, beyondDatabase] = some _ := rfl
  obtain ⟨d, hd, shown, each⟩ := gets_from_one_state plainFrontend true
    (starts_idle pairDatabase_valid) watched (.refl _) opens closes replayed rfl
  exact ⟨_, rfl, rfl, rfl, rfl, d, hd, each⟩

end Run

end Xotero
