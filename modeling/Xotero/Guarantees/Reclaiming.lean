import Xotero.Foundation.Hosting
import Xotero.Guarantees.Cleanup
import Xotero.Guarantees.Orphans

/-!
The start of a server that finds only uploads that have expired: it leaves no pending row,
and of all that was put in the object storage what registrations have taken over.
-/

namespace Xotero

open Process (Standing)
open Conditions (tokens mem_tokens)

/-- A lone statement changes pending uploads only. -/
theorem upload_only {q : Sql} (alone : q.isUploadStatement) (d : Database) :
    (q.writes d).foldl Database.apply d =
      { d with pendingUploads := ((q.writes d).foldl Database.apply d).pendingUploads } := by
  have only (ws : List Write) (d : Database)
      (uploads : ∀ w ∈ ws, ∃ token row, w = .pendingUpload token row) :
      ws.foldl Database.apply d =
        { d with pendingUploads := (ws.foldl Database.apply d).pendingUploads } := by
    induction ws generalizing d with
    | nil => rfl
    | cons w ws ih =>
        obtain ⟨token, row, rfl⟩ := uploads w List.mem_cons_self
        exact ih _ fun w mem => uploads w (List.mem_cons_of_mem _ mem)
  exact only _ d fun w mem => writes_of_upload alone mem

/-- Rows go, each with what is stored at its key, and nothing else happens. -/
structure Swept (d : Database) (v : Table String Blob) (d' : Database) (v' : Table String Blob) :
    Prop where
  rows : ∀ t row, d'.pendingUploads.find? t = some row → d.pendingUploads.find? t = some row
  gone : ∀ t row, d.pendingUploads.find? t = some row → d'.pendingUploads.find? t = none →
    v'.find? row.upload.blobKey = none
  kept : ∀ key, (∀ t row, d.pendingUploads.find? t = some row → row.upload.blobKey = key →
    d'.pendingUploads.find? t = some row) → v'.find? key = v.find? key
  emptied : ∀ key, v.find? key = none → v'.find? key = none
  only : d' = { d with pendingUploads := d'.pendingUploads }

section Swept
variable {d d' d'' : Database} {v v' v'' : Table String Blob}

theorem Swept.refl (d : Database) (v : Table String Blob) : Swept d v d v where
  rows _ _ found := found
  gone t row found absent := by
    rw [found] at absent
    cases absent
  kept _ _ := rfl
  emptied _ absent := absent
  only := rfl

theorem Swept.trans (h : Swept d v d' v') (h' : Swept d' v' d'' v'') : Swept d v d'' v'' where
  rows t row found := h.rows t row (h'.rows t row found)
  gone t row found absent := by
    cases between : d'.pendingUploads.find? t with
    | none => exact h'.emptied _ (h.gone t row found between)
    | some row' =>
        obtain rfl := Option.some.inj (found.symm.trans (h.rows t row' between))
        exact h'.gone t row between absent
  kept key named := by
    have first := h.kept key fun t row found same => h'.rows t row (named t row found same)
    refine (h'.kept key fun t row found same => ?_).trans first
    exact named t row (h.rows t row found) same
  emptied key absent := h'.emptied key (h.emptied key absent)
  only := by rw [h'.only, h.only]

end Swept

/-! ### One turn -/

section Turn
variable {fate : ℕ → Fate} (done : ∀ i, fate i = .done) {σ : Standing Db storage}

theorem deleteCandidate_only (candidate : Digest × String) :
    ((deleteCandidate candidate).under fate σ).2.state = { σ.state with
      pendingUploads := ((deleteCandidate candidate).under fate σ).2.state.pendingUploads } := by
  rw [deleteCandidate_state]
  split
  · exact upload_only rfl σ.state
  · rfl

theorem deleteCandidates_only (garbage : List (Digest × String)) :
    ((deleteCandidates garbage).under fate σ).2.state = { σ.state with
      pendingUploads := ((deleteCandidates garbage).under fate σ).2.state.pendingUploads } := by
  induction garbage generalizing σ with
  | nil => rfl
  | cons candidate garbage ih =>
      rw [deleteCandidates_cons_state, ih, deleteCandidate_only]

include done

theorem deleteCandidate_service (candidate : Digest × String) :
    ((deleteCandidate candidate).under fate σ).2.service =
      Table.erase σ.service candidate.2 := by
  rw [deleteCandidate, Process.under_bind, callStorage_under, done]
  show ((statement (.deletePendingUploadGarbage candidate.1) >>= fun _ =>
    (return () : Process Db storage Unit)).under fate _).2.service = _
  rw [Process.under_bind, statement_under, done]
  rfl

theorem deleteCandidates_service (garbage : List (Digest × String)) :
    ((deleteCandidates garbage).under fate σ).2.service =
      garbage.foldl (fun v candidate => Table.erase v candidate.2) σ.service := by
  induction garbage generalizing σ with
  | nil => rfl
  | cons candidate garbage ih =>
      rw [deleteCandidates_cons_state, ih, deleteCandidate_service done]
      rfl

end Turn

/-- Nothing is locked, and every row may go. -/
structure AllGarbage (d : Database) (round : Round) : Prop where
  unlocked : round.skipped = []
  rows : ∀ t row, d.pendingUploads.find? t = some row → row.isGarbage round.now = true

section Garbage
variable {d : Database} {round : Round}

theorem card_tokens (d : Database) : (tokens d).card = d.pendingUploads.rows.length := by
  rw [tokens, List.toFinset_card_of_nodup (Table.nodup_keys _), List.length_map]

theorem AllGarbage.mono {d' : Database} (h : AllGarbage d round)
    (rows : ∀ t row, d'.pendingUploads.find? t = some row →
      d.pendingUploads.find? t = some row) : AllGarbage d' round :=
  ⟨h.unlocked, fun t row found => h.rows t row (rows t row found)⟩

theorem claimed_of_idle (idle : d.candidates round = []) : d.claimed round = d := by
  rw [Database.candidates, List.map_eq_nil_iff] at idle
  rw [Database.claimed, Sql.writes, idle]
  rfl

/-- A claim takes as many rows as it may. -/
theorem AllGarbage.length_candidates (all : AllGarbage d round) :
    (d.candidates round).length = min 32 (tokens d).card := by
  have every : (d.pendingUploads.select fun t row =>
      row.isGarbage round.now && !round.skipped.contains t) = d.pendingUploads.rows := by
    refine List.filter_eq_self.mpr fun e mem => ?_
    simp [all.unlocked, all.rows e.1 e.2 (Table.mem_rows.mp mem)]
  rw [Conditions.length_candidates, every, card_tokens]

/-- What a claim names is a row with its key. -/
theorem mem_candidates {t : Digest} {key : String} (mem : (t, key) ∈ d.candidates round) :
    ∃ row, d.pendingUploads.find? t = some row ∧ row.upload.blobKey = key := by
  obtain ⟨e, picked, same⟩ := List.mem_map.mp mem
  cases same
  exact ⟨e.2, (mem_garbage picked).1, rfl⟩

end Garbage

section Turns
variable {fate : ℕ → Fate} (done : ∀ i, fate i = .done) {d : Database} {v : Table String Blob}
  {round : Round} {n : ℕ}
include done

/-- The rows that a turn claims go, and the others stay. -/
theorem find?_cleaned (t : Digest) :
    ((deleteCandidates (d.candidates round)).under fate
        ⟨n, d.claimed round, v⟩).2.state.pendingUploads.find? t =
      if t ∈ (d.candidates round).map Prod.fst then none else d.pendingUploads.find? t := by
  by_cases named : t ∈ (d.candidates round).map Prod.fst
  · rw [if_pos named]
    refine deleteCandidates_deleted _ _ _ (fun i _ => done i) named fun row found => ?_
    rw [find?_claimed] at found
    obtain ⟨row', -, rfl⟩ := Option.map_eq_some_iff.mp found
    rw [if_pos named]
    rfl
  · rw [if_neg named]
    have left := deleteCandidates_trims fate ⟨n, d.claimed round, v⟩ (d.candidates round) t
    rw [left.resolve_right fun both => named both.1, find?_claimed]
    cases d.pendingUploads.find? t with
    | none => rfl
    | some row => exact congrArg some (if_neg named)

theorem find?_cleaned_service (key : String) :
    Table.find? ((deleteCandidates (d.candidates round)).under fate
        ⟨n, d.claimed round, v⟩).2.service key =
      if key ∈ (d.candidates round).map Prod.snd then none else v.find? key := by
  rw [deleteCandidates_service done]
  exact Table.find?_foldl_erase Prod.snd (d.candidates round) v key

/-- A turn sweeps. -/
theorem cleaned_swept : Swept d v
    ((deleteCandidates (d.candidates round)).under fate ⟨n, d.claimed round, v⟩).2.state
    ((deleteCandidates (d.candidates round)).under fate ⟨n, d.claimed round, v⟩).2.service where
  rows t row found := by
    rw [find?_cleaned done] at found
    split at found
    · cases found
    · exact found
  gone t row found absent := by
    rw [find?_cleaned done, found] at absent
    split at absent
    · rename_i named
      obtain ⟨⟨t', key⟩, picked, rfl⟩ := List.mem_map.mp named
      obtain ⟨row', found', rfl⟩ := mem_candidates picked
      obtain rfl := Option.some.inj (found.symm.trans found')
      rw [find?_cleaned_service done, if_pos (List.mem_map_of_mem (f := Prod.snd) picked)]
    · cases absent
  kept key named := by
    rw [find?_cleaned_service done, if_neg]
    intro deleted
    obtain ⟨⟨t, key'⟩, picked, rfl⟩ := List.mem_map.mp deleted
    obtain ⟨row, found, same⟩ := mem_candidates picked
    have there := named t row found same
    rw [find?_cleaned done, if_pos (List.mem_map_of_mem (f := Prod.fst) picked)] at there
    cases there
  emptied key absent := by
    rw [find?_cleaned_service done]
    split
    · rfl
    · exact absent
  only := by
    rw [deleteCandidates_only, Database.claimed, upload_only rfl d]

theorem card_cleaned (all : AllGarbage d round) :
    (tokens ((deleteCandidates (d.candidates round)).under fate
        ⟨n, d.claimed round, v⟩).2.state).card ≤ (tokens d).card - 32 := by
  have within : ((d.candidates round).map Prod.fst).toFinset ⊆ tokens d := by
    intro t mem
    obtain ⟨⟨t, key⟩, picked, rfl⟩ := List.mem_map.mp (List.mem_toFinset.mp mem)
    obtain ⟨row, found, -⟩ := mem_candidates picked
    exact mem_tokens.mpr ⟨row, found⟩
  have left : tokens ((deleteCandidates (d.candidates round)).under fate
      ⟨n, d.claimed round, v⟩).2.state ⊆
        tokens d \ ((d.candidates round).map Prod.fst).toFinset := by
    intro t mem
    obtain ⟨row, found⟩ := mem_tokens.mp mem
    rw [find?_cleaned done] at found
    split at found
    · cases found
    · rename_i other
      exact Finset.mem_sdiff.mpr ⟨mem_tokens.mpr ⟨row, found⟩, by simpa using other⟩
  have fewer := Finset.card_le_card left
  rw [Finset.card_sdiff_of_subset within,
    List.toFinset_card_of_nodup (Conditions.nodup_candidates d round), List.length_map,
    all.length_candidates] at fewer
  omega

/-- The loop, with a turn for every 32 rows. -/
theorem cleanup_swept (rounds : List Round) (all : ∀ round ∈ rounds, AllGarbage d round) :
    ∃ calls d' v', (cleanupPendingUploads rounds).under fate ⟨n, d, v⟩ =
        ((), ⟨calls, d', v'⟩) ∧ Swept d v d' v' ∧
      (tokens d').card ≤ (tokens d).card - 32 * rounds.length := by
  induction rounds generalizing n d v with
  | nil => exact ⟨n, d, v, rfl, .refl d v, Nat.le_refl _⟩
  | cons round rounds ih =>
      have here := all round List.mem_cons_self
      rw [cleanupPendingUploads_cons, Process.under_bind, cleanupTurn_under, done]
      dsimp only
      by_cases idle : d.candidates round = []
      · have none : (tokens d).card = 0 := by
          have length := here.length_candidates
          rw [idle, List.length_nil] at length
          omega
        rw [if_pos idle, claimed_of_idle idle]
        exact ⟨n + 1, d, v, rfl, .refl d v, by omega⟩
      · rw [if_neg idle]
        have turn := @cleaned_swept fate done d v round (n + 1)
        have fewer := card_cleaned (v := v) (n := n + 1) done here
        obtain ⟨calls, d', v', rest, swept, left⟩ := ih fun round' mem =>
          (all round' (List.mem_cons_of_mem _ mem)).mono turn.rows
        refine ⟨calls, d', v', rest, turn.trans swept, ?_⟩
        rw [List.length_cons]
        omega

end Turns

/-! ### The start of a server -/

/-- The upload has expired, and no claim of its row is younger than a minute. -/
structure PendingUploadRow.Stale (row : PendingUploadRow) (now : Int) : Prop where
  expired : row.expiresAt ≤ now
  attempted : ∀ g ∈ row.gcAttemptedAt, g < now - minute

theorem PendingUploadRow.Stale.isGarbage {row : PendingUploadRow} {now : Int}
    (h : row.Stale now) (idle : row.upload.state ≠ .uploading) : row.isGarbage now = true := by
  have dead : row.live now = false := decide_eq_false (Int.not_lt.mpr h.expired)
  by_cases deleting : row.upload.state = .deleting
  · have old : (row.gcAttemptedAt.all fun g => g < now - minute) = true := by
      rw [Option.all_eq_true]
      exact fun g attempted => decide_eq_true (h.attempted g attempted)
    simp [PendingUploadRow.isGarbage, deleting, old]
  · simp [PendingUploadRow.isGarbage, dead, idle, deleting]

/-- The rows once the server has reset those that an earlier one has left uploading. -/
def Database.interrupted (d : Database) : Database :=
  (Sql.resetInterruptedPendingUploads.writes d).foldl Database.apply d

section Start
variable {d : Database} {round : Round}

theorem interrupted_row {t : Digest} {row : PendingUploadRow}
    (found : d.interrupted.pendingUploads.find? t = some row) :
    row.upload.state ≠ .uploading ∧ ∃ row', d.pendingUploads.find? t = some row' ∧
      row.upload.blobKey = row'.upload.blobKey ∧ row.expiresAt = row'.expiresAt ∧
      row.gcAttemptedAt = row'.gcAttemptedAt := by
  rw [Database.interrupted, find?_resetInterruptedPendingUploads] at found
  obtain ⟨row', before, rfl⟩ := Option.map_eq_some_iff.mp found
  by_cases uploading : row'.upload.state = .uploading
  · rw [if_pos uploading]
    exact ⟨nofun, row', before, rfl, rfl, rfl⟩
  · rw [if_neg uploading]
    exact ⟨uploading, row', before, rfl, rfl, rfl⟩

theorem interrupted_tokens (d : Database) : tokens d.interrupted = tokens d := by
  ext t
  rw [mem_tokens, mem_tokens, Database.interrupted, find?_resetInterruptedPendingUploads]
  cases d.pendingUploads.find? t <;> simp

/-- Once every upload has expired, the start of a server removes all of them, with what
is stored for them, and nothing else. -/
theorem startUp_reclaims {fate : ℕ → Fate} (done : ∀ i, fate i = .done) {rounds : List Round}
    (unlocked : ∀ round ∈ rounds, round.skipped = [])
    (stale : ∀ round ∈ rounds, ∀ t row, d.pendingUploads.find? t = some row →
      row.Stale round.now)
    (enough : d.pendingUploads.rows.length ≤ 32 * rounds.length) (n : ℕ)
    (v : Table String Blob) :
    ∃ calls v', (startUp rounds).under fate ⟨n, d, v⟩ =
        ((), ⟨calls, { d with pendingUploads := ∅ }, v'⟩) ∧
      (∀ t row, d.pendingUploads.find? t = some row →
        Table.find? v' row.upload.blobKey = none) ∧
      ∀ key, (∀ t row, d.pendingUploads.find? t = some row → row.upload.blobKey ≠ key) →
        Table.find? v' key = v.find? key := by
  have all : ∀ round ∈ rounds, AllGarbage d.interrupted round := by
    intro round mem
    refine ⟨unlocked round mem, fun t row found => ?_⟩
    obtain ⟨idle, row', before, -, expires, attempted⟩ := interrupted_row found
    have old := stale round mem t row' before
    exact PendingUploadRow.Stale.isGarbage ⟨expires ▸ old.expired, attempted ▸ old.attempted⟩ idle
  obtain ⟨calls, d', v', run, swept, left⟩ :=
    @cleanup_swept fate done d.interrupted v (n + 1) rounds all
  have zero : (tokens d').card = 0 := by
    rw [interrupted_tokens, card_tokens d] at left
    omega
  have absent (t : Digest) : d'.pendingUploads.find? t = none := by
    cases found : d'.pendingUploads.find? t with
    | none => rfl
    | some row =>
        have mem : t ∈ tokens d' := mem_tokens.mpr ⟨row, found⟩
        rw [Finset.card_eq_zero.mp zero] at mem
        cases mem
  have after : d' = { d with pendingUploads := ∅ } := by
    rw [swept.only, Table.eq_empty absent, Database.interrupted, upload_only rfl d]
  refine ⟨calls, v', ?_, fun t row found => ?_, fun key unnamed => ?_⟩
  · rw [startUp, Process.under_bind, statement_under, done, ← after]
    exact run
  · have reset : d.interrupted.pendingUploads.find? t = _ :=
      find?_resetInterruptedPendingUploads.trans (congrArg (Option.map _) found)
    rw [Option.map_some] at reset
    have gone := swept.gone t _ reset (absent t)
    split at gone <;> exact gone
  · refine swept.kept key fun t row found same => ?_
    obtain ⟨-, row', before, key', -, -⟩ := interrupted_row found
    exact absurd (key'.symm.trans same) (unnamed t row' before)

end Start

/-! ### Whole runs -/

/-- What is stored has been put. -/
theorem put_of_stored {calls : List StorageOp} {key : String}
    (stored : (Table.find? (calls.foldr storage.apply (∅ : Table String Blob)) key).isSome) :
    ∃ bytes contentType, .put key bytes contentType ∈ calls := by
  induction calls with
  | nil => cases stored
  | cons op calls ih =>
      have earlier (before : (Table.find? (calls.foldr storage.apply (∅ : Table String Blob))
          key).isSome) : ∃ bytes contentType, .put key bytes contentType ∈ op :: calls := by
        obtain ⟨bytes, contentType, mem⟩ := ih before
        exact ⟨bytes, contentType, List.mem_cons_of_mem _ mem⟩
      cases op with
      | put key' bytes contentType =>
          by_cases same : key = key'
          · exact ⟨bytes, contentType, same ▸ List.mem_cons_self⟩
          · refine earlier ?_
            exact (congrArg Option.isSome (Table.find?_put_ne _ _ same)).symm.trans stored
      | delete key' =>
          by_cases same : key = key'
          · subst same
            cases (congrArg Option.isSome (Table.find?_erase_self _ _)).symm.trans stored
          · refine earlier ?_
            exact (congrArg Option.isSome (Table.find?_erase_ne _ same)).symm.trans stored

section Run
variable {digests : Digests} {config : Config} {ι π : Type} [DecidableEq ι] [DecidableEq π]
  {d : Database} {w : Machine (uploadHost digests config) ι π}
  {es : List (Event (server digests config))}

/-- What is stored is named by a row, or a registration has taken it over. -/
theorem tracked_of_run {v : Table String Blob} (valid : d.Valid) (settled : NoUploads d)
    (run : Machine.Run (Machine.idle d v) es w) (once : DrawnOnce es) :
    Tracked (w.point es) := by
  obtain ⟨⟨γ, after⟩, -⟩ := Machine.Run.kept .refl run ⟨_, careful_idle settled⟩
    (fun job m later _ => careful_spawned job m later)
    (fun job m first _ => careful_booted job m first)
    (clients_careful valid once)
  exact after.inv

/-- What registrations have taken over is stored. -/
theorem accounted_of_run {v : Table String Blob} (valid : d.Valid) (settled : NoUploads d)
    (run : Machine.Run (Machine.idle d v) es w) (once : DrawnOnce es) :
    Accounted (⟨es, w.session.state, w.service⟩ : Moment (uploadPlant digests config)) := by
  have first : Machine.Within (Machine.idle d v : Machine (uploadHost digests config) ι π)
      (World.idle d v) := @Machine.within_idle _ _ _ (uploadHost digests config) ι π d v
  obtain ⟨u, world, within⟩ := run.world first
  have all : DrawnOnce (es ++ []) := (List.append_nil es).symm ▸ once
  obtain ⟨kept, -, -⟩ := kept_of_run valid settled world .refl all
  have inv : Accounted (⟨es, u.session.state, u.service⟩ : Moment (uploadPlant digests config)) :=
    kept.inv
  rwa [within.session, within.service] at inv

/-- Start a server anew, whatever servers and clients have done before, once all uploads
have expired: if its calls succeed, no pending upload is left and the object storage holds
exactly what registrations have taken over, byte for byte as before; so the attachments
keep their bytes, and nothing else is stored. -/
theorem storage_reclaimed (valid : d.Valid) (settled : NoUploads d)
    (run : Machine.Run (Machine.idle d (∅ : Table String Blob)) es w) (once : DrawnOnce es)
    {rounds : List Round} (unlocked : ∀ round ∈ rounds, round.skipped = [])
    (stale : ∀ round ∈ rounds, ∀ t row, w.session.state.pendingUploads.find? t = some row →
      row.Stale round.now)
    (enough : w.session.state.pendingUploads.rows.length ≤ 32 * rounds.length) :
    ∃ calls v', (startUp rounds).under (fun _ => .done) ⟨0, w.session.state, w.service⟩ =
        ((), ⟨calls, { w.session.state with pendingUploads := ∅ }, v'⟩) ∧
      (∀ key, (Table.find? v' key).isSome ↔ TakenOver es key) ∧
      (∀ key, TakenOver es key → Table.find? v' key = Table.find? w.service key) ∧
      ∀ L key f, w.session.state.file.find? (L, key) = some f →
        d.file.find? (L, key) = some f ∨ f.Held digests v' := by
  have tracked := tracked_of_run valid settled run once
  have accounted := accounted_of_run valid settled run once
  have service : w.service = w.calls.foldr storage.apply (∅ : Table String Blob) :=
    run.service_eq rfl
  obtain ⟨calls, v', starts, gone, kept⟩ :=
    startUp_reclaims (fun _ => rfl) unlocked stale enough 0 w.service
  have spared (key : String) (taken : TakenOver es key) :
      Table.find? v' key = Table.find? w.service key := by
    obtain ⟨e, mem, L, itemKey, t', f, writes, rfl⟩ := taken
    refine kept f.blobKey fun t row found same => ?_
    have made := accounted.written e mem L itemKey t' f writes
    obtain ⟨rfl, -⟩ := once.made_apart made (accounted.made t row found) same.symm
    have gone := (accounted.consumed t' (writes.consumed mem)).1
    cases gone.symm.trans found
  have held (L : LibraryId) (itemKey : String) (f : File) (e : Event (server digests config))
      (t : Digest) (mem : e ∈ es) (writes : WritesFile L itemKey t f e) : f.Held digests v' := by
    obtain ⟨blob, stored, rest⟩ := (accounted.stored_of_consumed (writes.consumed mem)
      (accounted.written e mem L itemKey t f writes)).held
    exact ⟨blob, (spared f.blobKey ⟨e, mem, L, itemKey, t, f, writes, rfl⟩).trans stored, rest⟩
  refine ⟨calls, v', starts, fun key => ⟨fun stored => ?_, fun taken => ?_⟩, spared, ?_⟩
  · by_contra untaken
    have unnamed (t : Digest) (row : PendingUploadRow)
        (found : w.session.state.pendingUploads.find? t = some row) :
        row.upload.blobKey ≠ key := by
      intro same
      rw [← same, gone t row found] at stored
      cases stored
    rw [kept key unnamed] at stored
    obtain ⟨bytes, contentType, put⟩ := put_of_stored (service ▸ stored)
    obtain ⟨t, row, found, same⟩ :=
      (tracked.named key bytes contentType put stored).resolve_left untaken
    exact unnamed t row found same
  · obtain ⟨e, mem, L, itemKey, t, f, writes, rfl⟩ := taken
    obtain ⟨blob, stored, -⟩ := held L itemKey f e t mem writes
    exact Option.isSome_of_eq_some stored
  · intro L itemKey f found
    refine (file_written run.session (starts_idle valid) found).imp_right ?_
    intro written
    obtain ⟨e, mem, t, writes⟩ := written
    exact held L itemKey f e t mem writes

end Run

set_option maxRecDepth 8000 in
theorem demoPut_alone :
    ((uploadPlant demoDigests demoConfig).process (.uploadPut demoPut)).alone
        (pendingDatabase .authorized) (∅ : Table String Blob) =
      (pendingDatabase .uploaded, (∅ : Table String Blob).put demoUpload.blobKey
        ⟨demoBody, "application/octet-stream"⟩) := rfl

/-- An upload that has been stored, and is never registered. -/
theorem demoUploaded_runs : ∃ (es : List (Event demoServer)) (w : DemoMachine),
    Machine.Run demoIdle es w ∧ DrawnOnce es ∧
    w.session.state = pendingDatabase .uploaded ∧
    (Table.find? w.service demoUpload.blobKey).isSome ∧ ∀ key, ¬ TakenOver es key := by
  have admitted : Machine.Run demoIdle [] demoAdmitted :=
    Machine.Run.refl.snoc (.enter (H := uploadHost demoDigests demoConfig)
      (Request.authorizeUpload demoAuthorize) trivial)
  obtain ⟨es, authorized, stmts⟩ := Machine.Run.commits (w := demoAdmitted)
    (a := (.authorization (.authorized "00112233445566778899aabbccddeeff" false) : Reply))
    (s := attachmentDatabase)
      (t := pendingDatabase .authorized) rfl () 10 List.mem_cons_self rfl rfl
    (pendingDatabase_valid .authorized)
  have spawned : Machine.Run demoAuthorized [] (demoAuthorized.set () _) :=
    Machine.Run.refl.snoc (.spawn () (UploadJob.uploadPut demoPut) rfl
      (by rintro ⟨rounds, same⟩; cases same) rfl)
  obtain ⟨es', w, uploaded, idle, service, -, autos⟩ := Machine.Run.alone
    (w := demoAuthorized.set () (some ((uploadPlant demoDigests demoConfig).process
      (.uploadPut demoPut)))) (s := pendingDatabase .authorized) rfl () rfl demoPut_fits
  have after := demoPut_alone
  refine ⟨_, w, (admitted.trans authorized).trans (spawned.trans uploaded), ?_, ?_, ?_, ?_⟩
  · refine (demoAuthorize_once fun e mem => ⟨_, stmts e mem⟩).later fun e mem => ?_
    obtain ⟨_, _, _, rfl⟩ := autos e mem
    rfl
  · rw [idle]
    exact congrArg Prod.fst after
  · rw [service]
    exact congrArg (fun both => (Table.find? both.2 demoUpload.blobKey).isSome) after
  · intro key taken
    obtain ⟨e, mem, L, itemKey, t, f, writes, -⟩ := taken
    rcases List.mem_append.mp mem with mem | mem
    · rcases List.mem_append.mp mem with mem | mem
      · cases mem
      · rcases List.mem_append.mp mem with mem | mem
        · obtain ⟨_, _, _, rfl⟩ := stmts e mem
          cases writes
        · obtain rfl := List.mem_singleton.mp mem
          cases writes
    · rcases List.mem_append.mp mem with mem | mem
      · cases mem
      · obtain ⟨_, _, _, rfl⟩ := autos e mem
        cases writes

/-- Its bytes and its row go. -/
theorem storage_reclaimed_expired : ∃ (es : List (Event demoServer)) (w : DemoMachine),
    Machine.Run demoIdle es w ∧ (Table.find? w.service demoUpload.blobKey).isSome ∧
    ∃ calls v', (startUp [⟨hour, []⟩]).under (fun _ => .done) ⟨0, w.session.state, w.service⟩ =
        ((), ⟨calls, attachmentDatabase, v'⟩) ∧
      ∀ key, Table.find? v' key = none := by
  obtain ⟨es, w, run, once, state, stored, untaken⟩ := demoUploaded_runs
  have stale : ∀ round ∈ ([⟨hour, []⟩] : List Round), ∀ t row,
      w.session.state.pendingUploads.find? t = some row → row.Stale round.now := by
    intro round mem t row found
    obtain rfl := List.mem_singleton.mp mem
    rw [state] at found
    by_cases same : t = demoToken
    · subst same
      cases found.symm.trans (withPending_find? _)
      exact ⟨Int.le_refl hour, nofun⟩
    · cases found.symm.trans (Table.find?_put_ne _ _ same)
  obtain ⟨calls, v', starts, exact, -, -⟩ := storage_reclaimed attachmentDatabase_valid
    (fun _ => rfl) run once (fun round mem => List.mem_singleton.mp mem ▸ rfl) stale
    (by rw [state]; decide)
  refine ⟨es, w, run, stored, calls, v', ?_, fun key => ?_⟩
  · rw [starts, state]
    rfl
  · refine Option.not_isSome_iff_eq_none.mp fun left => untaken key ((exact key).mp left)

end Xotero
