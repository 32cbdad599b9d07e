import Mathlib.Data.List.Infix
import Xotero.Guarantees.Blobs

/-!
No candidate is orphaned: while one server runs at a time, the bytes that an
upload has stored are named by a pending row until a registration takes them
over or a deletion has taken effect. Only whoever has claimed a token puts its
bytes, and a row that has left `authorized` and `uploading` never returns there.
-/

namespace Xotero

/-! ### What becomes of a row -/

/-- Bytes may still be put for the row. -/
def PendingUploadRow.Active (row : PendingUploadRow) : Prop :=
  row.upload.state = .authorized ∨ row.upload.state = .uploading

/-- The row goes on with its candidate, and becomes active only from active. -/
def PendingUploadRow.Settles (row row' : PendingUploadRow) : Prop :=
  row'.upload.candidate = row.upload.candidate ∧ (row'.Active → row.Active)

section Rows
variable {d : Database} {t : Digest} {q : Sql} {row row' : PendingUploadRow}

theorem PendingUploadRow.Settles.refl (row : PendingUploadRow) : row.Settles row := ⟨rfl, id⟩

theorem settles_update {token : Digest} {p : PendingUploadRow → Bool}
    {f : PendingUploadRow → Option PendingUploadRow}
    (h : ∀ row row', p row = true → f row = some row' → row.Settles row')
    (after : ((updatePendingUpload d token p f).foldl Database.apply d).pendingUploads.find? t =
      some row') : ∃ row, d.pendingUploads.find? t = some row ∧ row.Settles row' := by
  rw [find?_updatePendingUpload] at after
  split at after
  · rename_i same
    obtain ⟨row, found, kept⟩ := Option.bind_eq_some_iff.mp after
    refine ⟨row, same ▸ found, ?_⟩
    split at kept
    · rename_i holds
      exact h row row' holds kept
    · obtain rfl := Option.some.inj kept
      exact .refl row
  · exact ⟨row', after, .refl row'⟩

theorem settles_active {state : PendingUploadState} (active : row.Active) :
    row.Settles (row.withState state) :=
  ⟨rfl, fun _ => active⟩

/-- A lone statement makes no row, and revives none. -/
theorem upload_settles (h : q.isUploadStatement)
    (after : ((q.writes d).foldl Database.apply d).pendingUploads.find? t = some row') :
    ∃ row, d.pendingUploads.find? t = some row ∧ row.Settles row' := by
  cases q with
  | claimPendingUpload token now =>
      refine settles_update (fun row row' holds same => ?_) after
      obtain rfl := Option.some.inj same
      exact settles_active (.inl (by simp at holds; exact holds.1))
  | discardPendingUpload token =>
      refine settles_update (fun row row' holds same => ?_) after
      obtain rfl := Option.some.inj same
      exact settles_active (.inr (by simpa using holds))
  | resetPendingUpload token now =>
      refine settles_update (fun row row' holds same => ?_) after
      obtain rfl := Option.some.inj same
      exact settles_active (.inr (by simpa using holds))
  | markPendingUploadUploaded token now =>
      refine settles_update (fun row row' holds same => ?_) after
      obtain rfl := Option.some.inj same
      exact settles_active (.inr (by simp at holds; exact holds.1))
  | deletePendingUploadGarbage token =>
      refine settles_update (fun _ _ _ same => ?_) after
      cases same
  | resetInterruptedPendingUploads =>
      rw [find?_resetInterruptedPendingUploads] at after
      obtain ⟨row, found, rfl⟩ := Option.map_eq_some_iff.mp after
      refine ⟨row, found, ?_⟩
      split
      · rename_i uploading
        exact settles_active (.inr uploading)
      · exact .refl row
  | claimPendingUploadGarbage limit now skipped =>
      rw [find?_claimPendingUploadGarbage] at after
      obtain ⟨row, found, rfl⟩ := Option.map_eq_some_iff.mp after
      refine ⟨row, found, ?_⟩
      split
      · exact ⟨rfl, fun active => by rcases active with same | same <;> cases same⟩
      · exact .refl row
  | _ => simp [Sql.isUploadStatement] at h

/-- Only the collector removes a row. -/
theorem upload_removes (h : q.isUploadStatement) (found : d.pendingUploads.find? t = some row)
    (after : ((q.writes d).foldl Database.apply d).pendingUploads.find? t = none) :
    q = .deletePendingUploadGarbage t := by
  have update {token : Digest} {p : PendingUploadRow → Bool}
      {f : PendingUploadRow → PendingUploadRow}
      (after : ((updatePendingUpload d token p fun row => some (f row)).foldl Database.apply
        d).pendingUploads.find? t = none) : False := by
    rw [find?_updatePendingUpload] at after
    split at after
    · rename_i same
      rw [← same, found, Option.bind_some] at after
      split at after <;> cases after
    · cases found.symm.trans after
  cases q with
  | claimPendingUpload | discardPendingUpload | resetPendingUpload | markPendingUploadUploaded =>
      exact (update after).elim
  | deletePendingUploadGarbage token =>
      simp only [Sql.writes, find?_updatePendingUpload] at after
      split at after
      · rename_i same
        rw [same]
      · cases found.symm.trans after
  | resetInterruptedPendingUploads =>
      rw [find?_resetInterruptedPendingUploads, found] at after
      cases after
  | claimPendingUploadGarbage limit now skipped =>
      rw [find?_claimPendingUploadGarbage, found] at after
      cases after
  | _ => simp [Sql.isUploadStatement] at h

/-- The statements with which whoever has claimed the token gives it up. -/
def Sql.GivesUp (q : Sql) (t : Digest) : Prop :=
  q = .discardPendingUpload t ∨ (∃ now, q = .resetPendingUpload t now) ∨
    (∃ now, q = .markPendingUploadUploaded t now) ∨ q = .resetInterruptedPendingUploads

/-- All others leave a row that is uploading as it is. -/
theorem upload_keeps_uploading (h : q.isUploadStatement)
    (found : d.pendingUploads.find? t = some row) (uploading : row.upload.state = .uploading)
    (kept : ¬ q.GivesUp t) :
    ((q.writes d).foldl Database.apply d).pendingUploads.find? t = some row := by
  have update {token : Digest} {p : PendingUploadRow → Bool}
      {f : PendingUploadRow → Option PendingUploadRow} (apart : t = token → p row = false) :
      ((updatePendingUpload d token p f).foldl Database.apply d).pendingUploads.find? t =
        some row := by
    rw [find?_updatePendingUpload]
    split
    · rename_i same
      rw [← same, found, Option.bind_some, apart same]
      rfl
    · exact found
  cases q with
  | claimPendingUpload token now => exact update fun _ => by simp [uploading]
  | deletePendingUploadGarbage token => exact update fun _ => by simp [uploading]
  | discardPendingUpload token => exact update fun same => absurd (.inl (same ▸ rfl)) kept
  | resetPendingUpload token now =>
      exact update fun same => absurd (.inr (.inl ⟨now, same ▸ rfl⟩)) kept
  | markPendingUploadUploaded token now =>
      exact update fun same => absurd (.inr (.inr (.inl ⟨now, same ▸ rfl⟩))) kept
  | resetInterruptedPendingUploads => exact absurd (.inr (.inr (.inr rfl))) kept
  | claimPendingUploadGarbage limit now skipped =>
      rw [find?_claimPendingUploadGarbage, found, Option.map_some, if_neg]
      intro named
      obtain ⟨⟨t', row'⟩, garbage, rfl⟩ := List.mem_map.mp (List.contains_iff_mem.mp named)
      obtain ⟨found', dead⟩ := mem_garbage garbage
      obtain rfl := Option.some.inj (found.symm.trans found')
      simp [PendingUploadRow.isGarbage, uploading] at dead
  | _ => simp [Sql.isUploadStatement] at h

end Rows

/-! ### The custody of tokens -/

section Custody
variable {digests : Digests} {config : Config} {m m' : Point (uploadPlant digests config)}
  {t : Digest} {c : Candidate}

/-- A registration has taken over the bytes at the key. -/
def TakenOver (events : List (Event (server digests config))) (key : String) : Prop :=
  ∃ e ∈ events, ∃ L itemKey t f, WritesFile L itemKey t f e ∧ f.blobKey = key

/-- No bytes will ever be put for the token again. -/
structure Past (m : Point (uploadPlant digests config)) (t : Digest) : Prop where
  made : ∃ c, Made m.events t c
  row : ∀ row, m.state.pendingUploads.find? t = some row → ¬ row.Active

/-- What is put is named or taken over as long as it is stored. -/
structure Tracked (m : Point (uploadPlant digests config)) : Prop where
  once : DrawnOnce m.events
  made : ∀ t row, m.state.pendingUploads.find? t = some row → Made m.events t row.upload.candidate
  named : ∀ key bytes contentType, .put key bytes contentType ∈ m.calls →
    (Table.find? m.service key).isSome → TakenOver m.events key ∨
      ∃ t row, m.state.pendingUploads.find? t = some row ∧ row.upload.blobKey = key

/-- The bytes of the token are gone for good. -/
structure Cleared (m : Point (uploadPlant digests config)) (t : Digest) (c : Candidate) : Prop where
  made : Made m.events t c
  past : Past m t
  deleted : .delete c.blobKey ∈ m.calls
  absent : Table.find? m.service c.blobKey = none

/-- What no step undoes. -/
structure Leads (m m' : Point (uploadPlant digests config)) : Prop where
  later : m.events <+: m'.events
  calls : m.calls ⊆ m'.calls
  past : ∀ t, Past m t → Past m' t
  emptied : ∀ t c, Made m.events t c → Past m t → Table.find? m.service c.blobKey = none →
    Table.find? m'.service c.blobKey = none
  rows : ∀ t row, m.state.pendingUploads.find? t = some row →
    (∃ row', m'.state.pendingUploads.find? t = some row' ∧
      row'.upload.candidate = row.upload.candidate) ∨
    TakenOver (m'.events.drop m.events.length) row.upload.blobKey ∨
      Cleared m' t row.upload.candidate

theorem takenOver_mono {events events' : List (Event (server digests config))} {key : String}
    (h : TakenOver events key) (sub : events ⊆ events') : TakenOver events' key := by
  obtain ⟨e, mem, writes⟩ := h
  exact ⟨e, sub mem, writes⟩

theorem Leads.refl (m : Point (uploadPlant digests config)) : Leads m m :=
  ⟨List.prefix_refl _, List.Subset.refl _, fun _ past => past, fun _ _ _ _ absent => absent,
    fun _ row found => .inl ⟨row, found, rfl⟩⟩

theorem Leads.events (h : Leads m m') : m.events ⊆ m'.events := h.later.subset

theorem Leads.cleared (h : Leads m m') (cleared : Cleared m t c) : Cleared m' t c where
  made := cleared.made.mono h.events
  past := h.past t cleared.past
  deleted := h.calls cleared.deleted
  absent := h.emptied t c cleared.made cleared.past cleared.absent

theorem Leads.trans {m'' : Point (uploadPlant digests config)} (h : Leads m m')
    (h' : Leads m' m'') : Leads m m'' where
  later := h.later.trans h'.later
  calls := List.Subset.trans h.calls h'.calls
  past t past := h'.past t (h.past t past)
  emptied t c made past absent :=
    h'.emptied t c (made.mono h.events) (h.past t past) (h.emptied t c made past absent)
  rows t row found := by
    rcases h.rows t row found with ⟨row', found', same⟩ | taken | cleared
    · have key : row'.upload.blobKey = row.upload.blobKey := congrArg Candidate.blobKey same
      rcases h'.rows t row' found' with ⟨row'', found'', same'⟩ | taken | cleared
      · exact .inl ⟨row'', found'', same'.trans same⟩
      · refine .inr (.inl (key ▸ takenOver_mono taken ?_))
        exact (List.drop_sublist_drop_left _ h.later.length_le).subset
      · exact .inr (.inr (same ▸ cleared))
    · exact .inr (.inl (takenOver_mono taken (List.IsPrefix.drop h'.later _).subset))
    · exact .inr (.inr (h'.cleared cleared))

/-- Whoever has claimed a token has its row uploading. -/
def Claimed : Option Digest → Point (uploadPlant digests config) → Prop
  | none, _ => True
  | some t, m => ∃ row, m.state.pendingUploads.find? t = some row ∧ row.upload.state = .uploading

theorem Past.not_claimed (h : Past m t) : ¬ Claimed (some t) m := by
  rintro ⟨row, found, uploading⟩
  exact h.row row found (.inr uploading)

/-- One step of the database, by what it does to the rows: each goes on from one
that was there, or is new with a new token, and none goes but with its bytes. -/
theorem Tracked.step (h : Tracked m) (m' : Point (uploadPlant digests config))
    {ev : List (Event (uploadPlant digests config).system)}
    (events : m'.events = m.events ++ ev) (service : m'.service = m.service)
    (calls : m'.calls = m.calls) (once : DrawnOnce (m.events ++ ev))
    (rows : ∀ t row', m'.state.pendingUploads.find? t = some row' →
      (∃ row, m.state.pendingUploads.find? t = some row ∧ row.Settles row') ∨
        Made ev t row'.upload.candidate)
    (gone : ∀ t row, m.state.pendingUploads.find? t = some row →
      m'.state.pendingUploads.find? t = none →
        TakenOver ev row.upload.blobKey ∨ Cleared m t row.upload.candidate) :
    Tracked m' ∧ Leads m m' := by
  obtain ⟨events', state', service', calls'⟩ := m'
  dsimp only at events service calls
  subst events service calls
  have earlier : m.events ⊆ m.events ++ ev := List.subset_append_left _ _
  have fresh {t : Digest} {c : Candidate} (made : Made m.events t c) {row' : PendingUploadRow}
      (found : state'.pendingUploads.find? t = some row') :
      ∃ row, m.state.pendingUploads.find? t = some row ∧ row.Settles row' :=
    (rows t row' found).resolve_right (once.made_before made)
  have goes {t : Digest} {row : PendingUploadRow}
      (found : m.state.pendingUploads.find? t = some row) :
      (∃ row', state'.pendingUploads.find? t = some row' ∧
        row'.upload.candidate = row.upload.candidate) ∨
      TakenOver ev row.upload.blobKey ∨ Cleared m t row.upload.candidate := by
    rcases Option.eq_none_or_eq_some (state'.pendingUploads.find? t) with absent | ⟨row', found'⟩
    · exact .inr (gone t row found absent)
    · obtain ⟨row₀, found₀, settles⟩ := fresh (h.made t row found) found'
      obtain rfl := Option.some.inj (found.symm.trans found₀)
      exact .inl ⟨row', found', settles.1⟩
  have past {t : Digest} (past : Past m t) :
      Past (⟨m.events ++ ev, state', m.service, m.calls⟩ :
        Point (uploadPlant digests config)) t := by
    obtain ⟨c, made⟩ := past.made
    refine ⟨⟨c, made.mono earlier⟩, fun row' found active => ?_⟩
    obtain ⟨row, before, settles⟩ := fresh made found
    exact past.row row before (settles.2 active)
  refine ⟨⟨once, fun t row' found => ?_, fun key bytes contentType put stored => ?_⟩,
    List.prefix_append _ _, List.Subset.refl _, fun t => past, fun _ _ _ _ absent => absent,
    fun t row found => ?_⟩
  · rcases rows t row' found with ⟨row, before, settles⟩ | made
    · exact settles.1 ▸ (h.made t row before).mono earlier
    · exact made_append.mpr (.inr made)
  · rcases h.named key bytes contentType put stored with taken | ⟨t, row, found, rfl⟩
    · exact .inl (takenOver_mono taken earlier)
    · rcases goes found with ⟨row', found', same⟩ | taken | cleared
      · exact .inr ⟨t, row', found', congrArg Candidate.blobKey same⟩
      · exact .inl (takenOver_mono taken (List.subset_append_right _ _))
      · exact absurd stored (by
          rw [show Table.find? m.service row.upload.blobKey = none from cleared.absent]
          exact Bool.false_ne_true)
  · rcases goes found with there | taken | cleared
    · exact .inl there
    · have since : (m.events ++ ev).drop m.events.length = ev := List.drop_left
      exact .inr (.inl (since.symm ▸ taken))
    · exact .inr (.inr ⟨cleared.made.mono earlier, past cleared.past, cleared.deleted,
        cleared.absent⟩)

/-- A step without a commit leaves the database as it is. -/
theorem Tracked.quiet (h : Tracked m) {ev : List (Event (uploadPlant digests config).system)}
    (commits : ∀ r a d d', .commit r a d d' ∉ ev) :
    Tracked ⟨m.events ++ ev, m.state, m.service, m.calls⟩ ∧
      Leads m ⟨m.events ++ ev, m.state, m.service, m.calls⟩ := by
  refine h.step _ rfl rfl rfl (h.once.later fun e mem => ?_)
    (fun t row' found => .inl ⟨row', found, .refl row'⟩)
    fun t row found absent => nomatch found.symm.trans absent
  cases e with
  | commit r a d d' => exact absurd mem (commits r a d d')
  | stmt | drop | auto => rfl

/-- A statement that stands alone; the collector removes what is cleared. -/
theorem Tracked.wrote (h : Tracked m) {q : Sql} (alone : q.isUploadStatement)
    (removes : ∀ t, q = .deletePendingUploadGarbage t → ∃ c, Cleared m t c) :
    Tracked (m.wrote q) ∧ Leads m (m.wrote q) := by
  refine h.step _ rfl rfl rfl (h.once.later fun e mem => ?_)
    (fun t row' found => .inl (upload_settles alone found)) fun t row found absent => .inr ?_
  · obtain rfl := List.mem_singleton.mp mem
    rfl
  · obtain ⟨c, cleared⟩ := removes t (upload_removes alone found absent)
    exact h.once.made_unique (h.made t row found) cleared.made ▸ cleared

/-- A commit of the server; a registration has seen its row uploaded. -/
theorem Tracked.commit (h : Tracked m) {r : Request} {a : Reply} {d' : Database}
    (effect : PlainEffect digests r a m.state d')
    (once : DrawnOnce (m.events ++ [.commit r a m.state d']))
    (seen : ∀ t key access context now, r = .registerFile t key access context now → Past m t) :
    Tracked ⟨m.events ++ [.commit r a m.state d'], d', m.service, m.calls⟩ ∧
      Leads m ⟨m.events ++ [.commit r a m.state d'], d', m.service, m.calls⟩ ∧
      ∀ g, Claimed g m → Claimed g (⟨m.events ++ [.commit r a m.state d'], d', m.service, m.calls⟩ :
        Point (uploadPlant digests config)) := by
  have replaced (t₀ : Digest) (x : Option PendingUploadRow)
      (after : ∀ t, d'.pendingUploads.find? t =
        if t = t₀ then x else m.state.pendingUploads.find? t)
      (row : ∀ row', x = some row' →
        (∃ row, m.state.pendingUploads.find? t₀ = some row ∧ row.Settles row') ∨
          Made [Event.commit (S := server digests config) r a m.state d'] t₀ row'.upload.candidate)
      (gone : x = none → ∀ row, m.state.pendingUploads.find? t₀ = some row →
        TakenOver [Event.commit (S := server digests config) r a m.state d'] row.upload.blobKey)
      (free : ¬ Claimed (some t₀) m) :
      Tracked ⟨m.events ++ [.commit r a m.state d'], d', m.service, m.calls⟩ ∧
        Leads m ⟨m.events ++ [.commit r a m.state d'], d', m.service, m.calls⟩ ∧
        ∀ g, Claimed g m → Claimed g
          (⟨m.events ++ [.commit r a m.state d'], d', m.service, m.calls⟩ :
            Point (uploadPlant digests config)) := by
    have step := h.step ⟨m.events ++ [.commit r a m.state d'], d', m.service, m.calls⟩
      rfl rfl rfl once (fun t row' found => ?_) fun t before found absent => ?_
    · refine ⟨step.1, step.2, fun g claimed => ?_⟩
      cases g with
      | none => trivial
      | some t =>
          obtain ⟨before, found, uploading⟩ := claimed
          have apart : t ≠ t₀ := fun same => free (same ▸ ⟨before, found, uploading⟩)
          exact ⟨before, ((after t).trans (if_neg apart)).trans found, uploading⟩
    · rw [after] at found
      split at found
      · rename_i same
        exact same ▸ row row' found
      · exact .inl ⟨row', found, .refl row'⟩
    · rw [after] at absent
      split at absent
      · rename_i same
        exact .inl (gone absent before (same ▸ found))
      · cases found.symm.trans absent
  have unchanged (same : d'.pendingUploads = m.state.pendingUploads) :
      Tracked ⟨m.events ++ [.commit r a m.state d'], d', m.service, m.calls⟩ ∧
        Leads m ⟨m.events ++ [.commit r a m.state d'], d', m.service, m.calls⟩ ∧
        ∀ g, Claimed g m → Claimed g
          (⟨m.events ++ [.commit r a m.state d'], d', m.service, m.calls⟩ :
            Point (uploadPlant digests config)) := by
    have step := h.step ⟨m.events ++ [.commit r a m.state d'], d', m.service, m.calls⟩
      rfl rfl rfl once (fun t row' found => .inl ⟨row', same ▸ found, .refl row'⟩)
      fun t row found absent => ?_
    rotate_left
    · have absent : d'.pendingUploads.find? t = none := absent
      rw [same, found] at absent
      cases absent
    refine ⟨step.1, step.2, fun g claimed => ?_⟩
    cases g with
    | none => trivial
    | some t =>
        obtain ⟨row, found, uploading⟩ := claimed
        exact ⟨row, same.symm ▸ found, uploading⟩
  cases effect with
  | guarded committed => exact unchanged committed.pendingUploads
  | administered after => exact unchanged (after ▸ accounts_pendingUploads _)
  | @registered t₀ itemKey access context now o _ _ registered =>
      have past : Past m t₀ := seen _ _ _ _ _ rfl
      have discarded {row : PendingUploadRow}
          (found : m.state.pendingUploads.find? t₀ = some row)
          (after : d' = Database.withPending m.state t₀ (some (row.withState .discarded))) := by
        refine replaced t₀ (some (row.withState .discarded))
          (fun t => by rw [after]; exact withPending_find? _) (fun row' same => ?_)
          (fun absent => absurd absent (Option.some_ne_none _)) past.not_claimed
        obtain rfl := Option.some.inj same
        exact .inl ⟨row, found, rfl, fun active => by rcases active with same | same <;> cases same⟩
      cases registered with
      | expired found _ after => exact discarded found after
      | invalidItem presented _ _ after => exact discarded presented.found after
      | conflict presented _ _ _ after => exact discarded presented.found after
      | @done row presented authority item matching after =>
          have done : Registered (fun _ _ => True) t₀ itemKey access now m.state d' _ :=
            .done presented authority item matching after
          obtain ⟨-, row', found, -, file⟩ := done.taken
          refine replaced t₀ none (fun t => ?_)
            (fun _ same => absurd same.symm (Option.some_ne_none _)) (fun _ row'' found' => ?_)
            past.not_claimed
          · have kept : (Database.edit access.libraryId (m.state.version access.libraryId + 1)
                (m.state.setVersion access.libraryId (m.state.version access.libraryId + 1))
                (.register itemKey row.upload)).pendingUploads = m.state.pendingUploads := by simp
            rw [after, withPending_find?, kept]
          · obtain rfl := Option.some.inj (found.symm.trans found')
            exact ⟨_, List.mem_singleton.mpr rfl, _, _, _, _, .done rfl file, rfl⟩
  | @authorized r token id view _ _ authorized =>
      have after : d' = Database.withPending m.state (digests.sha256 token) _ := authorized.after
      refine replaced (digests.sha256 token) (some _)
        (fun t => by rw [after]; exact withPending_find? _) (fun row' same => .inr ?_)
        (fun absent => absurd absent (Option.some_ne_none _)) ?_
      · obtain rfl := Option.some.inj same
        exact ⟨r, token, _, _, _, id, List.mem_singleton.mpr rfl, rfl, authorized.candidate_eq, rfl⟩
      · rintro ⟨row, found, -⟩
        cases authorized.fresh.symm.trans found

/-- The bytes that whoever has claimed the token puts are named by its row. -/
theorem Tracked.put (h : Tracked m) {row : PendingUploadRow}
    (found : m.state.pendingUploads.find? t = some row) (uploading : row.upload.state = .uploading)
    (bytes : List UInt8) (contentType : String) :
    Tracked (m.called (.put row.upload.blobKey bytes contentType)) ∧
      Leads m (m.called (.put row.upload.blobKey bytes contentType)) := by
  refine ⟨⟨h.once, h.made, fun key bytes' contentType' put stored => ?_⟩,
    List.prefix_refl _, List.subset_cons_self _ _, fun t past => ⟨past.made, past.row⟩, ?_,
    fun t row found => .inl ⟨row, found, rfl⟩⟩
  · by_cases same : key = row.upload.blobKey
    · exact .inr ⟨t, row, found, same.symm⟩
    · refine h.named key bytes' contentType' ?_ ?_
      · rcases List.mem_cons.mp put with now | before
        · exact absurd (StorageOp.put.inj now).1 same
        · exact before
      · exact (Table.find?_put_ne m.service _ same) ▸ stored
  · intro t' c made past absent
    have apart : c.blobKey ≠ row.upload.blobKey := by
      intro same
      obtain ⟨rfl, -⟩ := h.once.made_apart made (h.made t row found) same
      exact past.not_claimed ⟨row, found, uploading⟩
    exact (Table.find?_put_ne m.service _ apart).trans absent

theorem Tracked.delete (h : Tracked m) (key : String) :
    Tracked (m.called (.delete key)) ∧ Leads m (m.called (.delete key)) := by
  have erased {key' : String} (absent : Table.find? m.service key' = none) :
      Table.find? (m.called (.delete key)).service key' = none := by
    by_cases same : key' = key
    · exact same ▸ Table.find?_erase_self ..
    · exact (Table.find?_erase_ne m.service same).trans absent
  refine ⟨⟨h.once, h.made, fun key' bytes contentType put stored => ?_⟩,
    List.prefix_refl _, List.subset_cons_self _ _, fun t past => ⟨past.made, past.row⟩,
    fun _ _ _ _ absent => erased absent, fun t row found => .inl ⟨row, found, rfl⟩⟩
  refine h.named key' bytes contentType ?_ ?_
  · exact (List.mem_cons.mp put).resolve_left nofun
  · rcases Option.eq_none_or_eq_some (Table.find? m.service key') with absent | ⟨blob, found⟩
    · rw [show Table.find? (m.called (.delete key)).service key' = none from erased absent]
        at stored
      cases stored
    · exact found ▸ rfl

theorem claimed_called {g : Option Digest} {op : StorageOp} (h : Claimed g m) :
    Claimed g (m.called op) := by
  cases g with
  | none => trivial
  | some t => exact h

/-- A row that the caller has been shown as uploaded is past its upload. -/
theorem Tracked.looked (h : Tracked m) {itemKey : String} {access : LibraryAccess} {now : Int}
    (seen : fileRegistration t itemKey access now m.state) : Past m t := by
  simp only [fileRegistration, Sql.eval, Option.any_map, Option.any_eq_true] at seen
  obtain ⟨row, live, uploaded⟩ := seen
  have found := (Option.filter_eq_some_iff.mp live).1
  refine ⟨⟨_, h.made t row found⟩, fun row' found' active => ?_⟩
  obtain rfl := Option.some.inj (found.symm.trans found')
  simp only [Bool.and_eq_true, decide_eq_true_eq] at uploaded
  rcases active with same | same <;> cases same.symm.trans uploaded.2

/-- Whoever claims a token has its row to itself. -/
def custody (digests : Digests) (config : Config) :
    Custody (uploadHost digests config) (Option Digest) where
  free := none
  inv := Tracked
  rely := Leads
  holds := Claimed
  apart g h := ∀ t, g = some t → h ≠ some t
  may _ _ := True
  after r m := match r with
    | .registerFile t _ _ _ _ => Past m t
    | _ => True
  refl := .refl
  trans := .trans
  symm apart t here there := apart t there here
  apart_free _ := nofun
  holds_free _ := trivial
  may_mono may _ := may
  after_mono {r m m'} past leads := by
    cases r with
    | registerFile t => exact leads.past t past
    | _ => trivial
  seen {r m} h seen := by
    cases r with
    | registerFile t =>
        obtain ⟨now, seen⟩ := seen
        exact h.looked seen
    | _ => trivial
  late {op m} h lasting _ := by
    obtain ⟨key, rfl⟩ := lasting
    obtain ⟨inv, rely⟩ := Tracked.delete h key
    exact ⟨inv, rely, fun _ => claimed_called⟩

/-- A lone statement gives up only what the process has claimed, and takes only
what nobody has. -/
theorem takes_wrote {solo : Bool} {g g' : Option Digest} {q : Sql} (h : Tracked m)
    (alone : q.isUploadStatement)
    (removes : ∀ t, q = .deletePendingUploadGarbage t → ∃ c, Cleared m t c)
    (own : solo = false → ∀ t, q.GivesUp t → g = some t) (held : Claimed g' (m.wrote q))
    (fewer : ∀ t, g' = some t → g = some t ∨ ¬ Claimed (some t) m) :
    (custody digests config).Takes solo g g' m (m.wrote q) := by
  obtain ⟨inv, rely⟩ := h.wrote alone removes
  refine ⟨inv, rely, held, fun shared other others apart => ⟨?_, fun t here there => ?_⟩⟩
  · cases other with
    | none => trivial
    | some t =>
        obtain ⟨row, found, uploading⟩ := others
        refine ⟨row, upload_keeps_uploading alone found uploading fun gives => ?_, uploading⟩
        exact apart t (own shared t gives) rfl
  · rcases fewer t here with mine | free
    · exact apart t mine there
    · exact free (there ▸ others)

end Custody

/-! ### The processes -/

section Processes
variable {digests : Digests} {config : Config} {m : Point (uploadPlant digests config)} {α : Type}
  {solo : Bool} {g : Option Digest}

/-- The process keeps to the custody, whatever it holds at its end. -/
abbrev Careful (digests : Digests) (config : Config) (solo : Bool) (p : Process Db storage α)
    (g : Option Digest) (m : Point (uploadPlant digests config)) : Prop :=
  p.Holds (custody digests config) solo (fun _ _ _ => True) g m

theorem careful_pure (a : α) : Careful digests config solo (pure a) g m := fun _ _ _ _ => trivial

/-- A lone statement that leaves what is claimed to whoever has claimed it. -/
theorem careful_statement {q : Sql} {f : Option q.Result → Process Db storage α}
    (alone : q.isUploadStatement) (keeps : ∀ t, ¬ q.GivesUp t)
    (removes : ∀ m', Leads m m' → ∀ t, q = .deletePendingUploadGarbage t → ∃ c, Cleared m' t c)
    (failed : Careful digests config solo (f none) g m)
    (done : ∀ m', Leads m m' → Tracked m' → Tracked (m'.wrote q) → Leads m' (m'.wrote q) →
      ∀ answer, answer = some (q.eval m'.state) ∨ answer = none →
        Careful digests config solo (f answer) g (m'.wrote q)) :
    Careful digests config solo (statement q >>= f) g m := by
  refine Process.holds_write (R := custody digests config) alone failed ?_
  intro m' r i held answer given
  obtain ⟨inv, rely⟩ := Tracked.wrote i alone (removes m' r)
  refine ⟨g, takes_wrote i alone (removes m' r) (fun _ t gives => absurd gives (keeps t)) ?_
    fun _ => .inl, done m' r i inv rely answer given⟩
  cases g with
  | none => trivial
  | some t =>
      obtain ⟨row, found, uploading⟩ := held
      exact ⟨row, upload_keeps_uploading alone found uploading (keeps t), uploading⟩

theorem takes_delete {m : Point (uploadPlant digests config)} (h : Tracked m) (held : Claimed g m)
    (key : String) :
    (custody digests config).Takes solo g g m (m.called (StorageOp.delete key)) := by
  obtain ⟨inv, rely⟩ := h.delete key
  exact ⟨inv, rely, claimed_called held, fun _ _ others apart => ⟨claimed_called others, apart⟩⟩

theorem careful_deleteCandidate {x : Digest × String}
    (past : ∃ c, Made m.events x.1 c ∧ c.blobKey = x.2 ∧ Past m x.1) :
    Careful digests config solo (deleteCandidate x) g m := by
  obtain ⟨c, made, key, past⟩ := past
  refine Process.holds_invoke (R := custody digests config) (fun _ => trivial) (careful_pure ())
    fun m' r i held done => ⟨g, takes_delete i held x.2, ?_⟩
  cases done with
  | false => exact careful_pure ()
  | true =>
      have leads : Leads m m' := r
      have rely : Leads m' (m'.called (.delete x.2)) := (Tracked.delete i x.2).2
      have cleared : Cleared (m'.called (.delete x.2)) x.1 c := {
        made := made.mono leads.events
        past := rely.past _ (leads.past _ past)
        deleted := key ▸ List.mem_cons_self
        absent := key ▸ Table.find?_erase_self .. }
      refine careful_statement rfl (by simp [Sql.GivesUp]) ?_ (careful_pure ())
        fun _ _ _ _ _ _ _ => careful_pure ()
      rintro m'' leads t same
      cases same
      exact ⟨c, leads.cleared cleared⟩

theorem careful_deleteCandidates {xs : List (Digest × String)}
    (past : ∀ x ∈ xs, ∃ c, Made m.events x.1 c ∧ c.blobKey = x.2 ∧ Past m x.1) :
    Careful digests config solo (deleteCandidates xs) g m := by
  induction xs generalizing g m with
  | nil => exact careful_pure ()
  | cons x xs ih =>
      have first := (@careful_deleteCandidate _ _ m solo g x (past x List.mem_cons_self)).frame
        (K := fun m => ∀ x ∈ xs, ∃ c, Made m.events x.1 c ∧ c.blobKey = x.2 ∧ Past m x.1) ?_
        fun x mem => past x (List.mem_cons_of_mem _ mem)
      · exact first.imp (fun _ g' m' known => ih known.2) |>.bind
      · intro m m' known leads x mem
        obtain ⟨c, made, key, past⟩ := known x mem
        exact ⟨c, made.mono (Leads.events leads), key, Leads.past leads _ past⟩

/-- What the collector has claimed is past its upload. -/
theorem past_of_claimed {limit : Nat} {now : Int} {skipped : List Digest}
    (h : Tracked (m.wrote (.claimPendingUploadGarbage limit now skipped)))
    {x : Digest × String}
    (mem : x ∈ (Sql.claimPendingUploadGarbage limit now skipped).eval m.state) :
    ∃ c, Made (m.wrote (.claimPendingUploadGarbage limit now skipped)).events x.1 c ∧
      c.blobKey = x.2 ∧ Past (m.wrote (.claimPendingUploadGarbage limit now skipped)) x.1 := by
  obtain ⟨row, key, after⟩ := find?_of_claimed mem
  have made := h.made x.1 _ after
  refine ⟨_, made, key, ⟨_, made⟩, fun row' found' active => ?_⟩
  obtain rfl := Option.some.inj (after.symm.trans found')
  rcases active with same | same <;> cases same

theorem careful_cleanupPendingUploads (rounds : List Round) (g : Option Digest)
    (m : Point (uploadPlant digests config)) :
    Careful digests config solo (cleanupPendingUploads rounds) g m := by
  induction rounds generalizing g m with
  | nil => exact careful_pure ()
  | cons round rounds ih =>
      refine careful_statement rfl (by simp [Sql.GivesUp]) (fun _ _ _ => nofun) (careful_pure ())
        fun m' _ _ i _ answer given => ?_
      split
      · exact careful_pure ()
      · exact careful_pure ()
      · rename_i garbage claimed
        obtain rfl := Option.some.inj (given.resolve_right nofun)
        refine ((careful_deleteCandidates fun x mem => past_of_claimed i mem).imp
          fun _ g m _ => ?_).bind
        exact ih g m

/-- A statement after which the process has nothing left, a round of the
collector, and the answer. -/
theorem careful_cleanup {q : Sql} {t : Digest} (alone : q.isUploadStatement)
    (removes : ∀ t, q ≠ .deletePendingUploadGarbage t) (own : ∀ t', q.GivesUp t' → t' = t)
    (rounds : List Round) (a : α) :
    Careful digests config solo (statement q >>= fun _ => cleanupPendingUploads rounds >>= fun _ =>
      pure a) (some t) m := by
  have cleanup (g : Option Digest) (m : Point (uploadPlant digests config)) :
      Careful digests config solo (cleanupPendingUploads rounds >>= fun _ => pure a) g m :=
    ((careful_cleanupPendingUploads rounds g m).imp fun _ g m _ => careful_pure a).bind
  refine Process.holds_write (R := custody digests config) alone (cleanup _ _)
    fun m' r i held answer given => ⟨none, ?_, cleanup _ _⟩
  exact takes_wrote i alone (fun t' same => absurd same (removes t'))
    (fun _ t' gives => congrArg some (own t' gives).symm) trivial nofun

/-- A claimed row is marked, unless it has expired. -/
theorem claimed_of_unmarked {t : Digest} {now : Int} (claimed : Claimed (some t) m)
    (unmarked : (Sql.markPendingUploadUploaded t now).eval m.state = false) :
    Claimed (some t) (m.wrote (.markPendingUploadUploaded t now)) := by
  obtain ⟨row, found, uploading⟩ := claimed
  refine ⟨row, (find?_updatePendingUpload _ _).trans ?_, uploading⟩
  have unmarked : Option.any _ (m.state.pendingUploads.find? t) = false := unmarked
  rw [found, Option.any_some] at unmarked
  rw [if_pos rfl, found, Option.bind_some, unmarked]
  rfl

/-- The bytes of a claimed token: its row is given up once they are stored, or
may be. -/
theorem careful_storeCandidate {t : Digest} {upload : PendingUpload} {bytes : List UInt8}
    (made : Made m.events t upload.candidate) (r : PutRequest) :
    Careful digests config solo (storeCandidate t upload bytes r) (some t) m := by
  have reset (m : Point (uploadPlant digests config)) :=
    @careful_cleanup _ _ m _ solo (.resetPendingUpload t r.finishedAt) t rfl
      nofun (by simp [Sql.GivesUp]) r.rounds serverError
  have discard (m : Point (uploadPlant digests config)) :=
    @careful_cleanup _ _ m _ solo (.discardPendingUpload t) t rfl
      nofun (by simp [Sql.GivesUp]) r.rounds
      (⟨409, "upload token already used"⟩ : UploadResponse)
  refine Process.holds_invoke (R := custody digests config) ?_ (reset _) ?_
  · rintro ⟨key, same⟩
    cases same
  · rintro m' leads i ⟨row, found, uploading⟩ done
    have leads : Leads m m' := leads
    have i : Tracked m' := i
    have same : row.upload.candidate = upload.candidate :=
      i.once.made_unique (i.made t row found) (made.mono leads.events)
    have key : upload.blobKey = row.upload.blobKey := (congrArg Candidate.blobKey same).symm
    obtain ⟨inv, rely⟩ := i.put found uploading bytes
      (if upload.compressed then "application/zip" else "application/octet-stream")
    refine ⟨some t, ⟨key ▸ inv, key ▸ rely, ⟨row, found, uploading⟩,
      fun _ _ others apart => ⟨claimed_called others, apart⟩⟩, ?_⟩
    cases done with
    | false => exact reset _
    | true =>
        refine Process.holds_write (R := custody digests config) rfl (careful_pure _)
          fun m _ i held answer given => ?_
        have gives : solo = false → ∀ t',
            (Sql.markPendingUploadUploaded t r.finishedAt).GivesUp t' → some t = some t' := by
          simp [Sql.GivesUp]
        rcases answer with _ | _ | _
        · exact ⟨none, takes_wrote i rfl nofun gives trivial nofun, careful_pure _⟩
        · have unmarked := Option.some.inj (given.resolve_right nofun)
          exact ⟨some t, takes_wrote i rfl nofun gives (claimed_of_unmarked held unmarked.symm)
            fun _ => .inl, discard _⟩
        · exact ⟨none, takes_wrote i rfl nofun gives trivial nofun, careful_pure _⟩

/-- A token that is claimed was authorized, so nobody had it. -/
theorem claimed_of_marked {t : Digest} {now : Int}
    (claims : (Sql.claimPendingUpload t now).eval m.state = true) :
    ¬ Claimed (some t) m ∧ Claimed (some t) (m.wrote (.claimPendingUpload t now)) := by
  have claims : Option.any _ (m.state.pendingUploads.find? t) = true := claims
  obtain ⟨row, found, holds⟩ := (Option.any_eq_true _ _).mp claims
  refine ⟨?_, row.withState .uploading, (find?_updatePendingUpload _ _).trans ?_, rfl⟩
  · rintro ⟨row', found', uploading⟩
    obtain rfl := Option.some.inj (found.symm.trans found')
    simp [uploading] at holds
  · rw [if_pos rfl, found, Option.bind_some, holds]
    rfl

theorem careful_uploadPut (r : PutRequest) (m : Point (uploadPlant digests config)) :
    Careful digests config solo (uploadPut digests config r) none m := by
  refine Process.holds_read (R := custody digests config) (q := Sql.pendingUpload _ _) nofun
    (careful_pure _) fun m₁ _ i₁ _ => ?_
  dsimp only
  split
  · exact careful_pure _
  · exact careful_pure _
  · rename_i upload found
    obtain ⟨row, live, rfl⟩ := Option.map_eq_some_iff.mp (Option.some.inj found)
    have made := Tracked.made i₁ _ row (Option.filter_eq_some_iff.mp live).1
    split
    · exact careful_pure _
    · refine Process.Holds.bind (Process.Holds.imp (Process.Holds.frame
        (K := fun m => Made m.events (digests.sha256 r.token) row.upload.candidate)
        (Process.holds_ofTxn (R := custody digests config) (avoids_authorized row.upload config)
          none m₁) (fun known rely => Made.mono known (Leads.events rely)) made) ?_)
      rintro allowed g m₂ ⟨rfl, made⟩
      split
      · exact careful_pure _
      · exact careful_pure _
      · split
        · exact careful_pure _
        · split
          · exact careful_pure _
          · refine Process.holds_write (R := custody digests config) rfl (careful_pure _)
              fun m₃ leads i₃ _ answer given => ?_
            have i₃ : Tracked m₃ := i₃
            rcases answer with _ | _ | _
            · exact ⟨none, takes_wrote i₃ rfl nofun (by simp [Sql.GivesUp]) trivial nofun,
                careful_pure _⟩
            · exact ⟨none, takes_wrote i₃ rfl nofun (by simp [Sql.GivesUp]) trivial nofun,
                careful_pure _⟩
            · have claims := Option.some.inj (given.resolve_right nofun)
              obtain ⟨free, mine⟩ := claimed_of_marked claims.symm
              refine ⟨some (digests.sha256 r.token), takes_wrote i₃ rfl nofun
                (by simp [Sql.GivesUp]) mine ?_, careful_storeCandidate ?_ r⟩
              · rintro t ⟨⟩
                exact .inr free
              · have wrote := i₃.wrote
                  (q := .claimPendingUpload (digests.sha256 r.token) r.claimedAt)
                  rfl nofun
                exact Made.mono made (List.Subset.trans (Leads.events leads) wrote.2.events)

theorem careful_startUp (rounds : List Round) (m : Point (uploadPlant digests config)) :
    Careful digests config true (startUp rounds) none m := by
  refine Process.holds_write (R := custody digests config) rfl (careful_pure ())
    fun m' _ i _ answer _ => ⟨none, takes_wrote i rfl nofun nofun trivial nofun, ?_⟩
  cases answer with
  | none => exact careful_pure ()
  | some done => exact careful_cleanupPendingUploads rounds none _

theorem careful_spawned (job : UploadJob) (m : Point (uploadPlant digests config))
    (later : ¬ (uploadHost digests config).boot job) :
    Careful digests config false ((uploadPlant digests config).process job) none m := by
  cases job with
  | uploadPut r => exact ((careful_uploadPut r m).imp fun a _ _ _ => careful_pure (some a)).bind
  | cleanup rounds =>
      exact ((careful_cleanupPendingUploads rounds none m).imp fun _ _ _ _ =>
        careful_pure none).bind
  | startUp rounds => exact absurd ⟨rounds, rfl⟩ later

theorem careful_booted (job : UploadJob) (m : Point (uploadPlant digests config))
    (first : (uploadHost digests config).boot job) :
    Careful digests config true ((uploadPlant digests config).process job) none m := by
  obtain ⟨rounds, rfl⟩ := first
  exact ((careful_startUp rounds m).imp fun _ _ _ _ => careful_pure none).bind

end Processes

/-! ### Runs -/

section Run
variable {digests : Digests} {config : Config} {ι π : Type} [DecidableEq ι] [DecidableEq π]
  {d : Database} {v : Table String Blob} {w w' : Machine (uploadHost digests config) ι π}
  {es es' : List (Event (server digests config))}

theorem clients_careful (valid : d.Valid) {all : List (Event (server digests config))}
    (once : DrawnOnce all) : Machine.Clients (custody digests config)
      (Session.idle d : Session (server digests config) ι) all := by
  intro es ev σ σ' v calls run step others here after h
  have h : Tracked ⟨es, σ.state, v, calls⟩ := h
  obtain ⟨rest, rfl⟩ := here
  have quiet (same : σ'.state = σ.state) (commits : ∀ r a d d', .commit r a d d' ∉ ev) :
      Tracked ⟨es ++ ev, σ'.state, v, calls⟩ ∧
        Leads ⟨es, σ.state, v, calls⟩ ⟨es ++ ev, σ'.state, v, calls⟩ ∧
        ∀ g, Claimed g (⟨es, σ.state, v, calls⟩ : Point (uploadPlant digests config)) →
          Claimed g (⟨es ++ ev, σ'.state, v, calls⟩ : Point (uploadPlant digests config)) := by
    rw [same]
    obtain ⟨inv, rely⟩ := h.quiet commits
    exact ⟨inv, rely, fun g held => by cases g <;> exact held⟩
  cases step with
  | start | query | drop | abort => exact quiet rfl (by simp)
  | @auto q alone free accepted => exact absurd rfl (List.ne_of_not_mem_cons (others q _ _))
  | commit here accepted =>
      obtain ⟨-, effect⟩ := commit_plainEffect (run.snoc (.commit here accepted))
        (starts_idle valid) (List.mem_append_right es List.mem_cons_self)
      refine h.commit effect once.earlier fun t key access context now same => ?_
      subst same
      exact after _ _ _ _ List.mem_cons_self

theorem tracked_idle (settled : NoUploads d) :
    Tracked (⟨[], d, v, []⟩ : Point (uploadPlant digests config)) where
  once := ⟨List.nodup_nil, List.nodup_nil⟩
  made t _ found := nomatch (settled t).symm.trans found
  named _ _ _ put := absurd put List.not_mem_nil

omit [DecidableEq ι] [DecidableEq π] in
theorem careful_idle (settled : NoUploads d) : Machine.Kept (custody digests config)
    (Machine.idle d v : Machine (uploadHost digests config) ι π) [] fun _ => none where
  inv := tracked_idle settled
  processes p x here := by cases here
  apart p p' x x' ne here := by cases here
  solo starting := by cases starting
  sent op mem := absurd mem List.not_mem_nil
  admitted r mem := absurd mem List.not_mem_nil
  requests c r x here := by cases here

/-- No candidate is orphaned: whatever one server does between its restarts, the
bytes that an upload has put are named by a pending row as long as they are
stored, unless a registration has taken them over. And a row goes only with such
a registration, or after a deletion of its bytes that has taken effect and that
nothing undoes. -/
theorem no_candidate_orphaned (valid : d.Valid) (settled : NoUploads d)
    (run : Machine.Run (Machine.idle d v) es w) (run' : Machine.Run w es' w')
    (once : DrawnOnce (es ++ es')) :
    (∀ key bytes contentType, .put key bytes contentType ∈ w'.calls →
      (Table.find? w'.service key).isSome → TakenOver (es ++ es') key ∨
        ∃ t row, w'.session.state.pendingUploads.find? t = some row ∧ row.upload.blobKey = key) ∧
    (∀ t row, w.session.state.pendingUploads.find? t = some row →
      (∃ row', w'.session.state.pendingUploads.find? t = some row' ∧
        row'.upload.candidate = row.upload.candidate) ∨
      TakenOver es' row.upload.blobKey ∨
      .delete row.upload.blobKey ∈ w'.calls ∧
        Table.find? w'.service row.upload.blobKey = none) := by
  have clients : Machine.Clients (custody digests config)
      (Session.idle d : Session (server digests config) ι) (es ++ es') :=
    clients_careful valid once
  obtain ⟨before, -⟩ := Machine.Run.kept .refl run ⟨_, careful_idle settled⟩
    (fun job m later _ => careful_spawned job m later)
    (fun job m first _ => careful_booted job m first)
    (clients.mono (List.prefix_append _ _))
  obtain ⟨⟨γ, after⟩, leads⟩ := Machine.Run.kept run run' before
    (fun job m later _ => careful_spawned job m later)
    (fun job m first _ => careful_booted job m first)
    clients
  refine ⟨Tracked.named after.inv, fun t row found => ?_⟩
  rcases Leads.rows leads t row found with there | taken | cleared
  · exact .inl there
  · have since : (es ++ es').drop es.length = es' := List.drop_left
    exact .inr (.inl (since ▸ taken))
  · exact .inr (.inr ⟨cleared.deleted, cleared.absent⟩)

end Run

abbrev DemoMachine := Machine (uploadHost demoDigests demoConfig) Unit Unit

def demoIdle : DemoMachine := .idle attachmentDatabase (∅ : Table String Blob)

def demoAdmitted : DemoMachine := { demoIdle with admitted := [.authorizeUpload demoAuthorize] }

def demoAuthorized : DemoMachine := demoAdmitted.around (.idle (pendingDatabase .authorized))

/-- An upload that has been stored, and not yet registered. -/
theorem demoStored_runs : ∃ (es es' : List (Event demoServer)) (w : DemoMachine),
    Machine.Run demoIdle es demoAuthorized ∧ Machine.Run demoAuthorized es' w ∧
    DrawnOnce (es ++ es') ∧
    .put demoUpload.blobKey demoBody "application/octet-stream" ∈ w.calls ∧
    (Table.find? w.service demoUpload.blobKey).isSome := by
  have admitted : Machine.Run demoIdle [] demoAdmitted :=
    Machine.Run.refl.snoc (.enter (H := uploadHost demoDigests demoConfig)
      (Request.authorizeUpload demoAuthorize) trivial)
  obtain ⟨es, authorized, stmts⟩ := Machine.Run.commits (w := demoAdmitted)
    (a := (.authorization (.authorized "00112233445566778899aabbccddeeff" false) : Reply))
    (s := attachmentDatabase)
      (t := pendingDatabase .authorized) rfl () 10 List.mem_cons_self rfl rfl
    (pendingDatabase_valid .authorized)
  have spawned : Machine.Run demoAuthorized [] (demoAuthorized.set () _) :=
    Machine.Run.refl.snoc (.spawn () (UploadJob.uploadPut demoPut) rfl
      (by rintro ⟨rounds, same⟩; cases same) rfl)
  obtain ⟨es', w', uploaded, -, service, calls, autos⟩ := Machine.Run.alone
    (w := demoAuthorized.set () (some ((uploadPlant demoDigests demoConfig).process
      (.uploadPut demoPut)))) (s := pendingDatabase .authorized) rfl () rfl demoPut_fits
  refine ⟨_, _, w', admitted.trans authorized, spawned.trans uploaded, ?_, ?_, ?_⟩
  · refine (demoAuthorize_once fun e mem => ⟨_, stmts e mem⟩).later fun e mem => ?_
    obtain ⟨_, _, _, rfl⟩ := autos e mem
    rfl
  · rw [calls]
    exact List.mem_append_left _ List.mem_cons_self
  · rw [service]
    rfl

/-- Its row names what is stored. -/
theorem no_candidate_orphaned_stored : ∃ (es : List (Event demoServer)) (w : DemoMachine),
    Machine.Run demoIdle es w ∧ (Table.find? w.service demoUpload.blobKey).isSome ∧
    (TakenOver es demoUpload.blobKey ∨ ∃ t row,
      w.session.state.pendingUploads.find? t = some row ∧
        row.upload.blobKey = demoUpload.blobKey) := by
  obtain ⟨es, es', w, authorized, stored, once, put, present⟩ := demoStored_runs
  have kept := no_candidate_orphaned attachmentDatabase_valid (fun _ => rfl) authorized stored once
  exact ⟨_, w, authorized.trans stored, present, kept.1 _ _ _ put present⟩

end Xotero
