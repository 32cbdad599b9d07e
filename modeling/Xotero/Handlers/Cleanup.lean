import Mathlib.Algebra.BigOperators.Group.Finset.Basic
import Xotero.Foundation.Fates
import Xotero.Handlers.UploadPut
import Xotero.Store.Uploads

/-!
The clean-up of uploads, turn after turn of its loop. Nothing else changes the database
meanwhile, but time passes.
-/

namespace Xotero

open Process (Standing)

/-- One turn of the loop; whether another follows. -/
def cleanupTurn (round : Round) : Process Db storage Bool := do
  match ← statement (.claimPendingUploadGarbage 32 round.now round.skipped) with
  | none | some [] => return false
  | some garbage => do
      deleteCandidates garbage
      return true

theorem cleanupPendingUploads_cons (round : Round) (rounds : List Round) :
    cleanupPendingUploads (round :: rounds) = (do
      if ← cleanupTurn round then cleanupPendingUploads rounds else return ()) := by
  refine congrArg (Process.stmt _) (funext fun answer => ?_)
  rcases answer with _ | (_ | ⟨candidate, garbage⟩)
  · rfl
  · rfl
  · exact (Process.bind_bind (deleteCandidates (candidate :: garbage)) (fun _ => return true)
      fun goes => if goes then cleanupPendingUploads rounds else return ()).symm

section
variable (fate : ℕ → Fate) (σ : Standing Db storage)

theorem callStorage_under (op : StorageOp) :
    (callStorage op).under fate σ = Standing.invoke (V := storage) σ op (fate σ.calls) := rfl

theorem statement_under (q : Sql) :
    (statement q).under fate σ = Standing.query (D := Db) σ q (fate σ.calls) := rfl

/-- A row is deleted once its candidate is. -/
theorem deleteCandidate_state (candidate : Digest × String) :
    ((deleteCandidate candidate).under fate σ).2.state =
      if fate σ.calls = .done ∧ fate (σ.calls + 1) ≠ .failed then
        ((Sql.deletePendingUploadGarbage candidate.1).writes σ.state).foldl Database.apply σ.state
      else σ.state := by
  rw [deleteCandidate, Process.under_bind, callStorage_under]
  cases first : fate σ.calls with
  | done =>
      change (Process.under fate (do
        let _ ← statement (.deletePendingUploadGarbage candidate.1); return ())
        ⟨σ.calls + 1, σ.state, _⟩).2.state = _
      rw [Process.under_bind, statement_under]
      cases second : fate (σ.calls + 1) <;> simp [Standing.query] <;> rfl
  | lost => rfl
  | failed => rfl

/-- Nothing happens to a row but that it is deleted. -/
def Trims (tokens : List Digest) (d d' : Database) : Prop :=
  ∀ t, d'.pendingUploads.find? t = d.pendingUploads.find? t ∨
    t ∈ tokens ∧ d'.pendingUploads.find? t = none

theorem find?_deletePendingUploadGarbage (d : Database) (token t : Digest) :
    (((Sql.deletePendingUploadGarbage token).writes d).foldl Database.apply
        d).pendingUploads.find? t =
      if t = token then (d.pendingUploads.find? token).bind fun row =>
        if row.upload.state = .deleting then none else some row
      else d.pendingUploads.find? t := by
  refine (find?_updatePendingUpload _ _).trans ?_
  simp only [decide_eq_true_eq]

theorem deleteCandidate_trims (candidate : Digest × String) :
    Trims [candidate.1] σ.state ((deleteCandidate candidate).under fate σ).2.state := by
  intro t
  rw [deleteCandidate_state]
  split
  · rw [find?_deletePendingUploadGarbage]
    by_cases here : t = candidate.1
    · subst here
      rw [if_pos rfl]
      cases σ.state.pendingUploads.find? candidate.1 with
      | none => exact .inl rfl
      | some row =>
          by_cases deleting : row.upload.state = .deleting
          · exact .inr ⟨List.mem_singleton_self _, if_pos deleting⟩
          · exact .inl (if_neg deleting)
    · exact .inl (if_neg here)
  · exact .inl rfl

theorem deleteCandidates_cons_state (candidate : Digest × String)
    (garbage : List (Digest × String)) :
    ((deleteCandidates (candidate :: garbage)).under fate σ).2 =
      ((deleteCandidates garbage).under fate ((deleteCandidate candidate).under fate σ).2).2 := by
  rw [deleteCandidates, Process.under_bind]

theorem deleteCandidates_trims (garbage : List (Digest × String)) :
    Trims (garbage.map Prod.fst) σ.state ((deleteCandidates garbage).under fate σ).2.state := by
  induction garbage generalizing σ with
  | nil => exact fun t => .inl rfl
  | cons candidate garbage ih =>
      intro t
      rw [deleteCandidates_cons_state, List.map_cons]
      rcases ih ((deleteCandidate candidate).under fate σ).2 t with same | ⟨named, gone⟩
      · rw [same]
        refine (deleteCandidate_trims fate σ candidate t).imp_right fun ⟨here, gone⟩ => ?_
        exact ⟨List.mem_singleton.mp here ▸ List.mem_cons_self, gone⟩
      · exact .inr ⟨List.mem_cons_of_mem _ named, gone⟩

/-- No row goes before its candidate does. -/
theorem deleteCandidates_kept (garbage : List (Digest × String))
    (kept : ∀ i, σ.calls ≤ i → fate i ≠ .done) :
    ((deleteCandidates garbage).under fate σ).2.state = σ.state := by
  induction garbage generalizing σ with
  | nil => rfl
  | cons candidate garbage ih =>
      rw [deleteCandidates_cons_state, ih]
      · rw [deleteCandidate_state, if_neg fun both => kept _ (Nat.le_refl _) both.1]
      · exact fun i later => kept i ((Process.calls_le_under fate _ σ).trans later)

/-- All rows go if all calls succeed. -/
theorem deleteCandidates_deleted (garbage : List (Digest × String))
    (done : ∀ i, σ.calls ≤ i → fate i = .done) {t : Digest} (named : t ∈ garbage.map Prod.fst)
    (deleting : ∀ row, σ.state.pendingUploads.find? t = some row →
      row.upload.state = .deleting) :
    ((deleteCandidates garbage).under fate σ).2.state.pendingUploads.find? t = none := by
  induction garbage generalizing σ with
  | nil => cases named
  | cons candidate garbage ih =>
      rw [deleteCandidates_cons_state]
      have first := deleteCandidate_trims fate σ candidate t
      have rest :=
        deleteCandidates_trims fate ((deleteCandidate candidate).under fate σ).2 garbage t
      by_cases here : t = candidate.1
      · have gone : ((deleteCandidate candidate).under fate σ).2.state.pendingUploads.find? t =
            none := by
          rw [deleteCandidate_state, if_pos ⟨done _ (Nat.le_refl _),
            by rw [done _ (Nat.le_succ _)]; decide⟩, find?_deletePendingUploadGarbage,
            if_pos here, ← here]
          cases found : σ.state.pendingUploads.find? t with
          | none => rfl
          | some row => exact if_pos (deleting row found)
        exact rest.elim (fun same => same.trans gone) fun both => both.2
      · have later : t ∈ garbage.map Prod.fst :=
          (List.mem_cons.mp named).resolve_left here
        refine ih _ (fun i after => ?_) later fun row found => ?_
        · exact done i ((Process.calls_le_under fate _ σ).trans after)
        · rcases first with same | ⟨-, gone⟩
          · exact deleting row (same ▸ found)
          · rw [gone] at found
            cases found

/-- The candidates that a claim at some time picks. -/
def Database.candidates (d : Database) (round : Round) : List (Digest × String) :=
  (d.garbage 32 round.now round.skipped).map fun e => (e.1, e.2.upload.blobKey)

/-- The rows once they are claimed. -/
def Database.claimed (d : Database) (round : Round) : Database :=
  ((Sql.claimPendingUploadGarbage 32 round.now round.skipped).writes d).foldl Database.apply d

variable (round : Round)

theorem cleanupTurn_under : (cleanupTurn round).under fate σ =
    match fate σ.calls with
    | .done =>
        if σ.state.candidates round = [] then
          (false, ⟨σ.calls + 1, σ.state.claimed round, σ.service⟩)
        else (true, ((deleteCandidates (σ.state.candidates round)).under fate
          ⟨σ.calls + 1, σ.state.claimed round, σ.service⟩).2)
    | .lost => (false, ⟨σ.calls + 1, σ.state.claimed round, σ.service⟩)
    | .failed => (false, { σ with calls := σ.calls + 1 }) := by
  rw [cleanupTurn, Process.under_bind, statement_under]
  cases fate σ.calls with
  | done =>
      have picked : Sql.eval (.claimPendingUploadGarbage 32 round.now round.skipped) σ.state =
          σ.state.candidates round := by simp only [Sql.eval, Database.candidates]
      change Process.under fate (match some
          (Sql.eval (.claimPendingUploadGarbage 32 round.now round.skipped) σ.state) with
        | none | some [] => return false
        | some garbage => do
            deleteCandidates garbage
            return true) ⟨σ.calls + 1, σ.state.claimed round, σ.service⟩ = _
      rw [picked]
      cases σ.state.candidates round with
      | nil => rfl
      | cons candidate garbage =>
          simp only [Process.under_bind]
          rfl
  | lost => rfl
  | failed => rfl

end

/-- When a clean-up starts, and how long each turn takes with its calls. -/
structure Timetable where
  start : Int
  lasts : ℕ → ℕ

/-- The time of the claim of a turn. -/
def Timetable.claimAt (t : Timetable) (k : ℕ) : Int :=
  t.start + ∑ i ∈ Finset.range k, (t.lasts i : Int)

/-- What a clean-up meets in each turn: how long it takes, the rows that are locked, and
what comes of its calls. -/
structure Conditions extends Timetable where
  skipped : ℕ → List Digest
  fate : ℕ → ℕ → Fate

namespace Conditions
variable (c : Conditions) (d : Database) (blobs : Table String Blob)

def round (k : ℕ) : Round := ⟨c.claimAt k, c.skipped k⟩

def turn (k : ℕ) (d : Database) (blobs : Table String Blob) : Bool × Standing Db storage :=
  (cleanupTurn (c.round k)).under (c.fate k) ⟨0, d, blobs⟩

/-- The database and the object storage before a turn, if there is one. -/
def turns : ℕ → Option (Database × Table String Blob)
  | 0 => some (d, blobs)
  | k + 1 => (turns k).bind fun w =>
      let after := c.turn k w.1 w.2
      if after.1 then some (after.2.state, after.2.service) else none

/-- The loop ends. -/
def Returns : Prop := ∃ k, c.turns d blobs k = none

end Conditions

end Xotero
