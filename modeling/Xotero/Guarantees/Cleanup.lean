import Xotero.Foundation.Retries
import Xotero.Handlers.Cleanup

/-!
When the clean-up of uploads returns. A row that could not be deleted is claimed again a
minute later, so the loop ends once so many claims fall within one minute that the rows they
have taken are all the garbage there is.
-/

namespace Xotero

open Process (Standing)

theorem Timetable.claimAt_mono (t : Timetable) : Monotone t.claimAt := by
  refine monotone_nat_of_le_succ fun k => ?_
  rw [claimAt, claimAt, Finset.sum_range_succ]
  omega

theorem candidates_tokens (d : Database) (round : Round) :
    (d.candidates round).map Prod.fst =
      (d.garbage 32 round.now round.skipped).map Prod.fst := by
  rw [Database.candidates, List.map_map]
  rfl

theorem find?_claimed (d : Database) (round : Round) (t : Digest) :
    (d.claimed round).pendingUploads.find? t = (d.pendingUploads.find? t).map fun row =>
      if t ∈ (d.candidates round).map Prod.fst then
        { row.withState .deleting with gcAttemptedAt := some round.now } else row := by
  refine find?_claimPendingUploadGarbage.trans ?_
  simp only [candidates_tokens, List.contains_iff_mem]

/-- What is garbage stays garbage until it is claimed. -/
theorem isGarbage_mono {row : PendingUploadRow} {now now' : Int} (later : now ≤ now')
    (garbage : row.isGarbage now = true) : row.isGarbage now' = true := by
  simp only [PendingUploadRow.isGarbage, PendingUploadRow.live, Bool.or_eq_true,
    Bool.and_eq_true, decide_eq_true_eq, Bool.not_eq_true', decide_eq_false_iff_not,
    Option.all_eq_true] at garbage ⊢
  rcases garbage with (discarded | ⟨⟨expired, idle⟩, kept⟩) | ⟨deleting, old⟩
  · exact .inl (.inl discarded)
  · exact .inl (.inr ⟨⟨by omega, idle⟩, kept⟩)
  · exact .inr ⟨deleting, fun g attempted => by have := old g attempted; omega⟩

theorem isGarbage_deleting {row : PendingUploadRow} {now g : Int}
    (deleting : row.upload.state = .deleting) (attempted : row.gcAttemptedAt = some g) :
    row.isGarbage now = true ↔ g < now - minute := by
  simp [PendingUploadRow.isGarbage, deleting, attempted]

/-- The tokens of the rows that are garbage by the claim of a turn, if none was claimed. -/
def Timetable.garbage (timetable : Timetable) (d : Database) (k : ℕ) : Finset Digest :=
  ((d.pendingUploads.select fun _ row => row.isGarbage (timetable.claimAt k)).map
    Prod.fst).toFinset

theorem Timetable.mem_garbage {timetable : Timetable} {d : Database} {k : ℕ} {t : Digest} :
    t ∈ timetable.garbage d k ↔ ∃ row, d.pendingUploads.find? t = some row ∧
      row.isGarbage (timetable.claimAt k) = true := by
  rw [garbage, List.mem_toFinset, Table.mem_keys_select]

/-- How many rows are garbage by the claim of a turn, if none was claimed. -/
def Timetable.known (timetable : Timetable) (d : Database) (k : ℕ) : ℕ :=
  (timetable.garbage d k).card

theorem Timetable.garbage_mono (timetable : Timetable) (d : Database) :
    Monotone (timetable.garbage d) := by
  intro j k after t member
  obtain ⟨row, found, garbage⟩ := mem_garbage.mp member
  exact mem_garbage.mpr ⟨row, found, isGarbage_mono (timetable.claimAt_mono after) garbage⟩

namespace Conditions
variable {c : Conditions} {d : Database} {blobs : Table String Blob} {k : ℕ} {t : Digest}
  {w w' : Database × Table String Blob}

/-- The end of a turn that claims rows. -/
def deleted (c : Conditions) (k : ℕ) (w : Database × Table String Blob) :
    Standing Db storage :=
  ((deleteCandidates (w.1.candidates (c.round k))).under (c.fate k)
    ⟨1, w.1.claimed (c.round k), w.2⟩).2

/-- Another turn follows if rows are claimed. -/
theorem turns_succ : c.turns d blobs (k + 1) = some w' ↔
    ∃ w, c.turns d blobs k = some w ∧ c.fate k 0 = .done ∧ w.1.candidates (c.round k) ≠ [] ∧
      w' = ((c.deleted k w).state, (c.deleted k w).service) := by
  rw [turns, Option.bind_eq_some_iff]
  refine exists_congr fun w => and_congr_right fun _ => ?_
  rw [turn, cleanupTurn_under]
  cases c.fate k 0 with
  | done =>
      by_cases idle : w.1.candidates (c.round k) = []
      · simp [idle]
      · dsimp only
        rw [if_neg idle, if_pos rfl, Option.some.injEq]
        exact ⟨fun same => ⟨rfl, idle, same.symm⟩, fun all => all.2.2.symm⟩
  | lost => simp
  | failed => simp

/-- A turn deletes rows, and claims some of those that it leaves. -/
theorem find?_deleted (c : Conditions) (k : ℕ) (w : Database × Table String Blob) (t : Digest) :
    (c.deleted k w).state.pendingUploads.find? t =
        (w.1.claimed (c.round k)).pendingUploads.find? t ∨
      t ∈ (w.1.candidates (c.round k)).map Prod.fst ∧
        (c.deleted k w).state.pendingUploads.find? t = none :=
  deleteCandidates_trims (c.fate k) ⟨1, w.1.claimed (c.round k), w.2⟩ _ t

/-- A row after a turn is a claimed row, or one that the turn has left alone. -/
theorem deleted_row {row : PendingUploadRow}
    (found : (c.deleted k w).state.pendingUploads.find? t = some row) :
    ∃ row', w.1.pendingUploads.find? t = some row' ∧
      (t ∈ (w.1.candidates (c.round k)).map Prod.fst ∧
          row = { row'.withState .deleting with gcAttemptedAt := some (c.claimAt k) } ∨
        t ∉ (w.1.candidates (c.round k)).map Prod.fst ∧ row = row') := by
  rcases find?_deleted c k w t with same | ⟨-, gone⟩
  · rw [same, find?_claimed, Option.map_eq_some_iff] at found
    obtain ⟨row', before, rfl⟩ := found
    refine ⟨row', before, ?_⟩
    by_cases named : t ∈ (w.1.candidates (c.round k)).map Prod.fst
    · exact .inl ⟨named, if_pos named⟩
    · exact .inr ⟨named, if_neg named⟩
  · rw [gone] at found
    cases found

/-- The tokens that a turn claims. -/
def attempts (c : Conditions) (d : Database) (blobs : Table String Blob) (k : ℕ) :
    Finset Digest :=
  match c.turns d blobs k with
  | none => ∅
  | some w => ((w.1.candidates (c.round k)).map Prod.fst).toFinset

theorem mem_attempts : t ∈ c.attempts d blobs k ↔
    ∃ w, c.turns d blobs k = some w ∧ t ∈ (w.1.candidates (c.round k)).map Prod.fst := by
  unfold attempts
  cases c.turns d blobs k with
  | none => simp
  | some w => simp

/-- The loop ends with a turn that claims nothing. -/
theorem returns_of_idle (idle : c.attempts d blobs k = ∅) : c.Returns d blobs := by
  refine ⟨k + 1, Option.eq_none_iff_forall_ne_some.mpr fun w' follows => ?_⟩
  obtain ⟨w, now, -, some, -⟩ := turns_succ.mp follows
  obtain ⟨candidate, picked⟩ := List.exists_mem_of_ne_nil _ some
  have claimed := mem_attempts.mpr ⟨w, now, List.mem_map_of_mem picked⟩
  rw [idle] at claimed
  cases claimed

/-- A row is what it was at the start, or what the last claim of it has made of it. -/
theorem turns_row {row : PendingUploadRow} (here : c.turns d blobs k = some w)
    (found : w.1.pendingUploads.find? t = some row) :
    ∃ first, d.pendingUploads.find? t = some first ∧
      ((∀ j < k, t ∉ c.attempts d blobs j) ∧ row = first ∨
        ∃ j < k, t ∈ c.attempts d blobs j ∧ (∀ i < k, t ∈ c.attempts d blobs i → i ≤ j) ∧
          row.upload.state = .deleting ∧ row.gcAttemptedAt = some (c.claimAt j)) := by
  induction k generalizing w row with
  | zero =>
      obtain rfl := Option.some.inj here
      exact ⟨row, found, .inl ⟨fun _ never => absurd never (Nat.not_lt_zero _), rfl⟩⟩
  | succ k ih =>
      obtain ⟨w₀, before, -, -, rfl⟩ := turns_succ.mp here
      obtain ⟨row', found', change⟩ := deleted_row found
      obtain ⟨first, start, past⟩ := ih before found'
      refine ⟨first, start, ?_⟩
      rcases change with ⟨named, rfl⟩ | ⟨left, rfl⟩
      · refine .inr ⟨k, Nat.lt_succ_self k, mem_attempts.mpr ⟨w₀, before, named⟩, ?_, rfl, rfl⟩
        exact fun i within _ => Nat.le_of_lt_succ within
      · have now : t ∉ c.attempts d blobs k := by
          intro claimed
          obtain ⟨w₁, before', named⟩ := mem_attempts.mp claimed
          obtain rfl := Option.some.inj (before'.symm.trans before)
          exact left named
        rcases past with ⟨never, same⟩ | ⟨j, earlier, claimed, last, rest⟩
        · refine .inl ⟨fun j within => ?_, same⟩
          rcases Nat.lt_succ_iff_lt_or_eq.mp within with within | rfl
          · exact never j within
          · exact now
        · refine .inr ⟨j, Nat.lt_succ_of_lt earlier, claimed, fun i within again => ?_, rest⟩
          rcases Nat.lt_succ_iff_lt_or_eq.mp within with within | rfl
          · exact last i within again
          · exact absurd again now

/-- What is claimed is garbage. -/
theorem claimed_garbage (named : t ∈ (d.candidates (c.round k)).map Prod.fst) :
    ∃ row, d.pendingUploads.find? t = some row ∧ row.isGarbage (c.claimAt k) = true := by
  rw [candidates_tokens] at named
  obtain ⟨e, picked, rfl⟩ := List.mem_map.mp named
  exact ⟨e.2, mem_garbage picked⟩

theorem attempts_garbage (k : ℕ) : c.attempts d blobs k ⊆ c.garbage d k := by
  induction k using Nat.strong_induction_on with
  | _ k ih =>
      intro t claimed
      obtain ⟨w, here, named⟩ := mem_attempts.mp claimed
      obtain ⟨row, found, garbage⟩ := claimed_garbage named
      obtain ⟨first, start, ⟨-, rfl⟩ | ⟨j, earlier, before, -⟩⟩ := turns_row here found
      · exact Timetable.mem_garbage.mpr ⟨row, start, garbage⟩
      · exact c.garbage_mono d earlier.le (ih j earlier before)

/-- A row can be claimed if it was garbage, and no claim of the last minute has taken it. -/
theorem isGarbage_iff {row : PendingUploadRow} (here : c.turns d blobs k = some w)
    (found : w.1.pendingUploads.find? t = some row) :
    row.isGarbage (c.claimAt k) = true ↔ t ∈ c.garbage d k ∧
      ∀ j ∈ Retries.earlier c.claimAt minute k, t ∉ c.attempts d blobs j := by
  obtain ⟨first, start, ⟨never, rfl⟩ | ⟨j, earlier, claimed, last, deleting, attempted⟩⟩ :=
    turns_row here found
  · constructor
    · intro garbage
      refine ⟨Timetable.mem_garbage.mpr ⟨row, start, garbage⟩, fun j before => never j ?_⟩
      exact ((Retries.mem_earlier _ _).mp before).1
    · rintro ⟨member, -⟩
      obtain ⟨row', start', garbage⟩ := Timetable.mem_garbage.mp member
      obtain rfl := Option.some.inj (start.symm.trans start')
      exact garbage
  · rw [isGarbage_deleting deleting attempted]
    constructor
    · intro old
      refine ⟨c.garbage_mono d earlier.le (attempts_garbage j claimed), fun i before again => ?_⟩
      obtain ⟨within, close⟩ := (Retries.mem_earlier _ _).mp before
      have later := c.claimAt_mono (last i within again)
      omega
    · rintro ⟨-, alone⟩
      by_contra recent
      refine alone j ((Retries.mem_earlier _ _).mpr ⟨earlier, ?_⟩) claimed
      omega

/-- The tokens of all pending uploads. -/
def tokens (d : Database) : Finset Digest := (d.pendingUploads.rows.map Prod.fst).toFinset

theorem mem_tokens : t ∈ tokens d ↔ ∃ row, d.pendingUploads.find? t = some row := by
  rw [tokens, List.mem_toFinset, List.mem_map]
  constructor
  · rintro ⟨e, present, rfl⟩
    exact ⟨e.2, Table.mem_rows.mp present⟩
  · rintro ⟨row, found⟩
    exact ⟨(t, row), Table.mem_rows.mpr found, rfl⟩

/-- The tokens of the rows that there are before a turn. -/
def alive (c : Conditions) (d : Database) (blobs : Table String Blob) (k : ℕ) :
    Finset Digest :=
  match c.turns d blobs k with
  | none => ∅
  | some w => tokens w.1

theorem mem_alive : t ∈ c.alive d blobs k ↔ ∃ w row, c.turns d blobs k = some w ∧
    w.1.pendingUploads.find? t = some row := by
  unfold alive
  cases c.turns d blobs k with
  | none => simp
  | some w => simp [mem_tokens]

theorem alive_antitone : Antitone (c.alive d blobs) := by
  refine antitone_nat_of_succ_le fun k t member => ?_
  obtain ⟨w, row, here, found⟩ := mem_alive.mp member
  obtain ⟨w₀, before, -, -, rfl⟩ := turns_succ.mp here
  obtain ⟨row', found', -⟩ := deleted_row found
  exact mem_alive.mpr ⟨w₀, row', before, found'⟩

/-- The rows that a turn can claim. -/
abbrev free (c : Conditions) (d : Database) (blobs : Table String Blob) : ℕ → Finset Digest :=
  Retries.free c.claimAt minute (c.garbage d) (c.alive d blobs) (c.attempts d blobs)

theorem mem_free (here : c.turns d blobs k = some w) : t ∈ c.free d blobs k ↔
    ∃ row, w.1.pendingUploads.find? t = some row ∧ row.isGarbage (c.claimAt k) = true := by
  rw [free, Retries.free, Retries.remaining, Finset.mem_sdiff, Finset.mem_inter, mem_alive,
    Finset.mem_biUnion]
  constructor
  · rintro ⟨⟨member, w', row, here', found⟩, alone⟩
    obtain rfl := Option.some.inj (here'.symm.trans here)
    refine ⟨row, found, (isGarbage_iff here found).mpr ⟨member, fun j before claimed => ?_⟩⟩
    exact alone ⟨j, before, claimed⟩
  · rintro ⟨row, found, garbage⟩
    obtain ⟨member, alone⟩ := (isGarbage_iff here found).mp garbage
    refine ⟨⟨member, w, row, here, found⟩, ?_⟩
    rintro ⟨j, before, claimed⟩
    exact alone j before claimed

/-- The turns of a clean-up attempt to delete garbage that has been left alone. -/
theorem attempts_turns (c : Conditions) (d : Database) (blobs : Table String Blob) :
    Retries.Turns c.claimAt minute (c.garbage d) (c.alive d blobs) (c.attempts d blobs) where
  mono := c.claimAt_mono
  grows := c.garbage_mono d
  only_go := alive_antitone
  within k t claimed := by
    obtain ⟨w, here, named⟩ := mem_attempts.mp claimed
    exact (mem_free here).mpr (claimed_garbage named)

theorem nodup_candidates (d : Database) (round : Round) :
    ((d.candidates round).map Prod.fst).Nodup := by
  rw [candidates_tokens, Database.garbage]
  refine List.Nodup.sublist ((List.take_sublist _ _).map Prod.fst) ?_
  exact ((List.perm_insertionSort _ _).map Prod.fst).nodup_iff.mpr (Table.nodup_select _ _)

/-- A claim takes as many unlocked rows as it may. -/
theorem length_candidates (d : Database) (round : Round) : (d.candidates round).length =
    min 32 (d.pendingUploads.select fun t row =>
      row.isGarbage round.now && !round.skipped.contains t).length := by
  rw [Database.candidates, List.length_map, Database.garbage, List.length_take,
    List.length_insertionSort]

theorem attempts_fullTurns (d : Database) (blobs : Table String Blob)
    (unlocked : ∀ k, c.skipped k = []) :
    Retries.FullTurns 32 c.claimAt minute (c.garbage d) (c.alive d blobs)
      (c.attempts d blobs) where
  toTurns := c.attempts_turns d blobs
  card k := by
    cases here : c.turns d blobs k with
    | none => simp [attempts, Retries.free, Retries.remaining, alive, here]
    | some w =>
        have all : c.free d blobs k = ((w.1.pendingUploads.select fun t row =>
            row.isGarbage (c.round k).now && !(c.round k).skipped.contains t).map
              Prod.fst).toFinset := by
          ext t
          rw [mem_free here, List.mem_toFinset, Table.mem_keys_select]
          simp [round, unlocked]
        change _ = min 32 (c.free d blobs k).card
        rw [attempts, here, all, List.toFinset_card_of_nodup (nodup_candidates _ _),
          List.toFinset_card_of_nodup (Table.nodup_select _ _), List.length_map, List.length_map,
          length_candidates]

/-- A turn whose calls succeed leaves fewer rows. -/
theorem tokens_lt (here : c.turns d blobs k = some w) (next : c.turns d blobs (k + 1) = some w')
    (done : ∀ i, c.fate k i = .done) : (tokens w'.1).card < (tokens w.1).card := by
  obtain ⟨w₀, here', -, some, rfl⟩ := turns_succ.mp next
  obtain rfl := Option.some.inj (here'.symm.trans here)
  obtain ⟨candidate, picked⟩ := List.exists_mem_of_ne_nil _ some
  have named := List.mem_map_of_mem (f := Prod.fst) picked
  obtain ⟨row, found, -⟩ := claimed_garbage named
  refine Finset.card_lt_card (Finset.ssubset_iff_of_subset ?_ |>.mpr ⟨candidate.1, ?_, ?_⟩)
  · intro t present
    obtain ⟨row', found'⟩ := mem_tokens.mp present
    obtain ⟨row₀, before, -⟩ := deleted_row found'
    exact mem_tokens.mpr ⟨row₀, before⟩
  · exact mem_tokens.mpr ⟨row, found⟩
  · intro present
    obtain ⟨row', found'⟩ := mem_tokens.mp present
    have gone : (c.deleted k w₀).state.pendingUploads.find? candidate.1 = none := by
      refine deleteCandidates_deleted _ _ _ (fun i _ => done i) named fun row'' found'' => ?_
      rw [find?_claimed, found, Option.map_some, if_pos named] at found''
      cases found''
      rfl
    rw [gone] at found'
    cases found'

/-- Deletes that succeed end the loop. -/
theorem returns_of_done {first : ℕ} (done : ∀ k, first ≤ k → ∀ i, c.fate k i = .done) :
    c.Returns d blobs := by
  by_contra forever
  have goes (k : ℕ) : ∃ w, c.turns d blobs k = some w :=
    Option.ne_none_iff_exists'.mp fun ends => forever ⟨k, ends⟩
  have fewer (m : ℕ) : ∀ w w', c.turns d blobs first = some w →
      c.turns d blobs (first + m) = some w' → (tokens w'.1).card + m ≤ (tokens w.1).card := by
    induction m with
    | zero =>
        intro w w' here here'
        obtain rfl := Option.some.inj (here.symm.trans here')
        exact Nat.le_refl _
    | succ m ih =>
        intro w w' here next
        obtain ⟨w₀, before⟩ := goes (first + m)
        have step := tokens_lt before next (done _ (Nat.le_add_right _ _))
        have rest := ih w w₀ here before
        omega
  obtain ⟨w, here⟩ := goes first
  obtain ⟨w', last⟩ := goes (first + ((tokens w.1).card + 1))
  have := fewer _ w w' here last
  omega

/-- A row that can be claimed and is not locked gives the turn something to claim. -/
theorem attempts_nonempty (member : t ∈ c.free d blobs k) (unlocked : t ∉ c.skipped k) :
    (c.attempts d blobs k).Nonempty := by
  have present := (Finset.mem_inter.mp (Finset.mem_sdiff.mp member).1).2
  obtain ⟨w, -, here, -⟩ := mem_alive.mp present
  obtain ⟨row, found, garbage⟩ := (mem_free here).mp member
  have some : 0 < (w.1.candidates (c.round k)).length := by
    rw [length_candidates]
    refine Nat.lt_min.mpr ⟨by decide, List.length_pos_of_mem (a := (t, row)) ?_⟩
    exact Table.mem_select.mpr ⟨found, by simp [round, garbage, unlocked]⟩
  obtain ⟨candidate, picked⟩ := List.exists_mem_of_length_pos some
  exact ⟨candidate.1, mem_attempts.mpr ⟨w, here, List.mem_map_of_mem picked⟩⟩

theorem attempts_unlocked (claimed : t ∈ c.attempts d blobs k) : t ∉ c.skipped k := by
  obtain ⟨w, -, named⟩ := mem_attempts.mp claimed
  rw [candidates_tokens, List.mem_map] at named
  obtain ⟨e, picked, rfl⟩ := named
  have kept := (Table.mem_select.mp
    ((List.mem_insertionSort _).mp (List.mem_of_mem_take picked))).2
  simp only [Bool.and_eq_true, Bool.not_eq_true', List.contains_eq_mem,
    decide_eq_false_iff_not] at kept
  exact kept.2

/-- No delete succeeds. -/
structure Fails (c : Conditions) : Prop where
  claims : ∀ k, c.fate k 0 = .done
  fails : ∀ k i, c.fate k (i + 1) ≠ .done

theorem Fails.deleted_eq (fails : c.Fails) (k : ℕ) (w : Database × Table String Blob) :
    (c.deleted k w).state = w.1.claimed (c.round k) :=
  deleteCandidates_kept _ _ _ fun i later => by
    obtain ⟨i, rfl⟩ := Nat.exists_eq_add_of_le' later
    exact fails.fails k i

theorem Fails.garbage_subset (fails : c.Fails) (here : c.turns d blobs k = some w) :
    c.garbage d k ⊆ c.alive d blobs k := by
  have stays (n : ℕ) : ∀ w, c.turns d blobs n = some w → ∀ t row,
      d.pendingUploads.find? t = some row → ∃ row', w.1.pendingUploads.find? t = some row' := by
    induction n with
    | zero =>
        intro w start t row found
        obtain rfl := Option.some.inj start
        exact ⟨row, found⟩
    | succ n ih =>
        intro w next t row found
        obtain ⟨w₀, before, -, -, rfl⟩ := turns_succ.mp next
        obtain ⟨row', found'⟩ := ih w₀ before t row found
        rw [fails.deleted_eq, find?_claimed, found']
        exact ⟨_, rfl⟩
  intro t member
  obtain ⟨row, found, -⟩ := Timetable.mem_garbage.mp member
  obtain ⟨row', found'⟩ := stays k w here t row found
  exact mem_alive.mpr ⟨w, row', here, found'⟩

/-- The loop goes on if every turn finds something to claim while no row goes. -/
theorem Fails.not_returns (fails : c.Fails) (busy : ∀ k,
      (∀ j ≤ k, c.garbage d j ⊆ c.alive d blobs j) → (c.attempts d blobs k).Nonempty) :
    ¬ c.Returns d blobs := by
  have goes (n : ℕ) : ∀ k ≤ n, ∃ w, c.turns d blobs k = some w := by
    induction n with
    | zero =>
        intro k first
        obtain rfl := Nat.le_zero.mp first
        exact ⟨(d, blobs), rfl⟩
    | succ n ih =>
        intro k within
        rcases Nat.le_succ_iff.mp within with within | rfl
        · exact ih k within
        · obtain ⟨t, claimed⟩ := busy n fun j sooner => by
            obtain ⟨w, here⟩ := ih j sooner
            exact fails.garbage_subset here
          obtain ⟨w, here, named⟩ := mem_attempts.mp claimed
          refine ⟨_, turns_succ.mpr ⟨w, here, fails.claims n, fun idle => ?_, rfl⟩⟩
          rw [idle] at named
          cases named
  rintro ⟨k, ends⟩
  obtain ⟨w, here⟩ := goes k k (Nat.le_refl k)
  rw [ends] at here
  cases here

/-- Without locks the loop goes on if no turn has used up its quota. -/
theorem Fails.not_returns_unlocked (fails : c.Fails) (unlocked : ∀ k, c.skipped k = [])
    (left : ∀ k, 0 < Retries.quota c.claimAt minute 32 (c.known d) k) :
    ¬ c.Returns d blobs := by
  refine fails.not_returns fun k stay => Finset.card_pos.mp ?_
  have full := (attempts_fullTurns d blobs unlocked).card_eq stay
  have more := left k
  change ((c.attempts d blobs k).card : ℤ) = Retries.quota c.claimAt minute 32 (c.known d) k at full
  omega

end Conditions

/-- The conditions under which no delete succeeds, and no row is locked. -/
def Timetable.failing (timetable : Timetable) : Conditions where
  toTimetable := timetable
  skipped _ := []
  fate _ i := if i = 0 then .done else .failed

theorem Timetable.failing_fails (timetable : Timetable) : timetable.failing.Fails where
  claims _ := rfl
  fails _ _ := fun done => nomatch done

/-- The conditions under which no delete succeeds, and all rows but one are locked. -/
def Timetable.locking (timetable : Timetable) (d : Database) (pick : ℕ → Digest) :
    Conditions where
  toTimetable := timetable
  skipped k := (d.pendingUploads.rows.map Prod.fst).filter (· ≠ pick k)
  fate _ i := if i = 0 then .done else .failed

theorem Timetable.locking_fails (timetable : Timetable) (d : Database) (pick : ℕ → Digest) :
    (timetable.locking d pick).Fails where
  claims _ := rfl
  fails _ _ := fun done => nomatch done

/-- The loop goes on if each turn is left a row that the last minute has not claimed. -/
theorem Timetable.locking_goes (timetable : Timetable) (d : Database)
    (blobs : Table String Blob) {pick : ℕ → Digest} (picks : ∀ k, pick k ∈ timetable.garbage d k ∧
      ∀ j ∈ Retries.earlier timetable.claimAt minute k, pick j ≠ pick k) :
    ¬ (timetable.locking d pick).Returns d blobs := by
  have only (k : ℕ) : (timetable.locking d pick).attempts d blobs k ⊆ {pick k} := by
    intro t claimed
    have unlocked := Conditions.attempts_unlocked claimed
    obtain ⟨row, found, -⟩ := mem_garbage.mp (Conditions.attempts_garbage k claimed)
    by_contra other
    refine unlocked (List.mem_filter.mpr ⟨?_, by simpa using other⟩)
    exact List.mem_map_of_mem (f := Prod.fst) (Table.mem_rows.mpr found)
  refine (timetable.locking_fails d pick).not_returns fun k stay => ?_
  obtain ⟨member, other⟩ := picks k
  refine Conditions.attempts_nonempty (t := pick k) ?_ (by simp [locking])
  refine Finset.mem_sdiff.mpr ⟨Finset.mem_inter.mpr ⟨member, stay k (Nat.le_refl k) member⟩, ?_⟩
  rw [Finset.mem_biUnion]
  rintro ⟨j, before, claimed⟩
  exact other j before (Finset.mem_singleton.mp (only j claimed)).symm

section Returns
variable (timetable : Timetable) (d : Database) (blobs : Table String Blob)

/-- The clean-up returns, whatever rows are locked and whatever comes of its calls. -/
def Timetable.Returns : Prop :=
  ∀ c : Conditions, c.toTimetable = timetable → c.Returns d blobs

/-- The clean-up returns whatever comes of its calls, if no row is locked. -/
def Timetable.ReturnsUnlocked : Prop :=
  ∀ c : Conditions, c.toTimetable = timetable → (∀ k, c.skipped k = []) → c.Returns d blobs

theorem Timetable.returns_iff : timetable.Returns d blobs ↔
    ∃ k, timetable.known d k ≤ (Retries.earlier timetable.claimAt minute k).card := by
  constructor
  · intro returns
    by_contra many
    push Not at many
    exact timetable.locking_goes d blobs (Retries.pick_spec many) (returns _ rfl)
  · rintro ⟨k, few⟩ c rfl
    by_contra forever
    have busy (j : ℕ) : (c.attempts d blobs j).Nonempty :=
      Finset.nonempty_iff_ne_empty.mpr fun idle => forever (Conditions.returns_of_idle idle)
    have left := (c.attempts_turns d blobs).card_earlier_lt fun j (_ : j ≤ k) => busy j
    exact absurd few (Nat.not_le_of_lt left)

theorem Timetable.returnsUnlocked_iff : timetable.ReturnsUnlocked d blobs ↔
    ∃ k, Retries.quota timetable.claimAt minute 32 (timetable.known d) k ≤ 0 := by
  constructor
  · intro returns
    by_contra left
    push Not at left
    exact timetable.failing_fails.not_returns_unlocked (fun _ => rfl) left
      (returns timetable.failing rfl fun _ => rfl)
  · rintro ⟨k, none⟩ c rfl unlocked
    by_contra forever
    have busy : 0 < (c.attempts d blobs k).card := Finset.card_pos.mpr
      (Finset.nonempty_iff_ne_empty.mpr fun idle => forever (Conditions.returns_of_idle idle))
    have most := (Conditions.attempts_fullTurns d blobs unlocked).card_le k
    change ((c.attempts d blobs k).card : ℤ) ≤
      Retries.quota c.claimAt minute 32 (c.known d) k at most
    omega

/-- Each of so many rows can be left a turn of its own unless so many turns come soon. -/
theorem Timetable.returns_iff_window {m : ℕ} (steady : ∀ k, timetable.known d k = m) :
    timetable.Returns d blobs ↔
      ∃ a, timetable.claimAt (a + m) ≤ timetable.claimAt a + minute := by
  rw [returns_iff, ← Retries.exists_le_card_earlier timetable.claimAt_mono (by decide)]
  simp only [steady]

/-- Without locks one turn claims all of few rows. -/
theorem Timetable.returnsUnlocked_iff_window {m : ℕ} (some : 0 < m) (few : m ≤ 32)
    (steady : ∀ k, timetable.known d k = m) : timetable.ReturnsUnlocked d blobs ↔
      ∃ a, timetable.claimAt (a + 1) ≤ timetable.claimAt a + minute := by
  rw [returnsUnlocked_iff, Retries.exists_quota_le timetable.claimAt_mono few some steady]

end Returns

/-- When the clean-up of a set of pending uploads returns. -/
structure CleanupReturns (timetable : Timetable) (d : Database) (blobs : Table String Blob) :
    Prop where
  exactly : timetable.Returns d blobs ↔
    ∃ k, timetable.known d k ≤ (Retries.earlier timetable.claimAt minute k).card
  settled : ∀ m, (∀ k, timetable.known d k = m) → (timetable.Returns d blobs ↔
    ∃ a, timetable.claimAt (a + m) ≤ timetable.claimAt a + minute)
  unlocked : timetable.ReturnsUnlocked d blobs ↔
    ∃ k, Retries.quota timetable.claimAt minute 32 (timetable.known d) k ≤ 0
  few : ∀ m, 0 < m → m ≤ 32 → (∀ k, timetable.known d k = m) →
    (timetable.ReturnsUnlocked d blobs ↔
      ∃ a, timetable.claimAt (a + 1) ≤ timetable.claimAt a + minute)
  deleting : ∀ c : Conditions, c.toTimetable = timetable →
    (∃ first, ∀ k, first ≤ k → ∀ i, c.fate k i = .done) → c.Returns d blobs

theorem cleanup_returns_iff (timetable : Timetable) (d : Database) (blobs : Table String Blob) :
    CleanupReturns timetable d blobs where
  exactly := timetable.returns_iff d blobs
  settled m steady := timetable.returns_iff_window d blobs steady
  unlocked := timetable.returnsUnlocked_iff d blobs
  few m some fits steady := timetable.returnsUnlocked_iff_window d blobs some fits steady
  deleting := by
    rintro c - ⟨first, done⟩
    exact Conditions.returns_of_done done

/-- Two rows and turns of 40 seconds: locks can leave each turn a row that the turn before has
not claimed, but without locks the first turn claims both. -/
example (timetable : Timetable) (turns : timetable.lasts = fun _ => 40 * 1000000) (d : Database)
    (two : ∀ k, timetable.known d k = 2) :
    ¬ timetable.Returns d ∅ ∧ timetable.ReturnsUnlocked d ∅ := by
  have every (k : ℕ) : timetable.claimAt k = timetable.start + k * 40000000 := by
    simp [Timetable.claimAt, turns]
  constructor
  · rw [timetable.returns_iff_window d ∅ two]
    rintro ⟨a, close⟩
    rw [every, every, minute] at close
    push_cast at close
    omega
  · rw [timetable.returnsUnlocked_iff_window d ∅ (by decide) (by decide) two]
    refine ⟨0, ?_⟩
    rw [every, every, minute]
    push_cast
    omega

/-- Turns of 61 seconds. -/
def slowTimetable : Timetable where
  start := 0
  lasts _ := 61 * 1000000

def discardedDatabase : Database :=
  { newDatabase with
    users := (∅ : Table UserId User).put demoOwner ⟨"owner", "Owner", none⟩
    pendingUploads := (∅ : Table Digest PendingUploadRow).put demoToken
      ⟨{ demoUpload with state := .discarded }, 0, hour, none⟩ }

/-- One upload that the object storage does not delete. -/
theorem cleanup_goes_on : discardedDatabase.Valid ∧
    ∀ blobs, ¬ slowTimetable.failing.Returns discardedDatabase blobs := by
  refine ⟨by constructor <;> decide, fun blobs => ?_⟩
  refine slowTimetable.failing_fails.not_returns_unlocked (fun _ => rfl) ?_
  by_contra none
  push Not at none
  obtain ⟨a, close⟩ := (Retries.exists_quota_le slowTimetable.claimAt_mono (m := 1)
    (by decide) (by decide) fun _ => rfl).mp none
  have turn : (slowTimetable.lasts a : Int) = 61 * 1000000 := rfl
  rw [Timetable.claimAt, Timetable.claimAt, Finset.sum_range_succ, turn, minute] at close
  omega

end Xotero
