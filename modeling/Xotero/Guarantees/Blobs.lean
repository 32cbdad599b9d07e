import Xotero.Guarantees.Attachments
import Xotero.Store.Candidates

/-!
A live attachment has its bytes: whatever uploads, registrations, collectors and
restarts do, the object storage goes on holding verified bytes for every file
row that a registration has written.
-/

namespace Xotero

section Discipline
variable {digests : Digests} {config : Config} {m m' : Moment (uploadPlant digests config)}
  {events : List (Event (server digests config))} {t : Digest} {c : Candidate}

/-- The token is never registered, now or later. -/
structure Doomed (m : Moment (uploadPlant digests config)) (t : Digest) : Prop where
  unregistered : ¬ Consumed m.events t
  row : ∀ row, m.state.pendingUploads.find? t = some row → row.Doomed

/-- What holds at every moment: the rows carry announced candidates, and what is
uploaded or registered is stored. -/
structure Accounted (m : Moment (uploadPlant digests config)) : Prop where
  once : DrawnOnce m.events
  made : ∀ t row, m.state.pendingUploads.find? t = some row → Made m.events t row.upload.candidate
  uploaded : ∀ t row, m.state.pendingUploads.find? t = some row →
    row.upload.state = .uploaded → Stored digests m.service row.upload.candidate
  consumed : ∀ t, Consumed m.events t → m.state.pendingUploads.find? t = none ∧
    ∃ c, Made m.events t c ∧ Stored digests m.service c
  written : ∀ e ∈ m.events, ∀ L key t f, WritesFile L key t f e → Made m.events t f.candidate

/-- What no step undoes: a doomed token stays doomed, and until then the bytes of
its candidate stay stored. -/
structure Follows (m m' : Moment (uploadPlant digests config)) : Prop where
  events : m.events ⊆ m'.events
  doomed : ∀ t c, Made m.events t c → Doomed m t → Doomed m' t
  stored : ∀ t c, Made m.events t c → Stored digests m.service c → ¬ Doomed m' t →
    Stored digests m'.service c

/-- Bytes are put only where they verify, and deleted only where the token is
doomed. -/
def MayCall (op : StorageOp) (m : Moment (uploadPlant digests config)) : Prop :=
  match op with
  | .put key bytes _ => ∃ t c, Made m.events t c ∧ c.blobKey = key ∧ c.Verifies digests bytes
  | .delete key => ∃ t c, Made m.events t c ∧ c.blobKey = key ∧ Doomed m t

theorem Doomed.row_of {row : PendingUploadRow} (h : Doomed m t)
    (found : m.state.pendingUploads.find? t = some row)
    (live : row.upload.state = .uploading ∨ row.upload.state = .uploaded) : False := by
  have doomed := h.row row found
  simp only [PendingUploadRow.Doomed] at doomed
  grind

theorem Accounted.row_made (h : Accounted m) {row : PendingUploadRow}
    (found : m.state.pendingUploads.find? t = some row) (made : Made m.events t c) :
    row.upload.candidate = c :=
  h.once.made_unique (h.made t row found) made

theorem Accounted.unregistered (h : Accounted m) {row : PendingUploadRow}
    (found : m.state.pendingUploads.find? t = some row) : ¬ Consumed m.events t := by
  intro consumed
  rw [(h.consumed t consumed).1] at found
  cases found

theorem Accounted.doomed (h : Accounted m) {row : PendingUploadRow}
    (found : m.state.pendingUploads.find? t = some row) (doomed : row.Doomed) : Doomed m t where
  unregistered := h.unregistered found
  row row' found' := by
    obtain rfl := Option.some.inj (found.symm.trans found')
    exact doomed

theorem Accounted.stored_of_consumed (h : Accounted m) (consumed : Consumed m.events t)
    (made : Made m.events t c) : Stored digests m.service c := by
  obtain ⟨-, c', made', stored⟩ := h.consumed t consumed
  exact h.once.made_unique made' made ▸ stored

/-- A call that may be made leaves stored what is not doomed. -/
theorem Accounted.stored_apply (h : Accounted m) {op : StorageOp} (may : MayCall op m)
    (made : Made m.events t c) (live : ¬ Doomed m t) (stored : Stored digests m.service c) :
    Stored digests (storage.apply op m.service) c := by
  obtain ⟨blob, found, verifies⟩ := stored
  cases op with
  | put key bytes contentType =>
      obtain ⟨t', c', made', rfl, verified⟩ := may
      by_cases same : c.blobKey = c'.blobKey
      · obtain ⟨-, rfl⟩ := h.once.made_apart made made' same
        exact ⟨⟨bytes, contentType⟩, Table.find?_put_self .., verified⟩
      · exact ⟨blob, (Table.find?_put_ne _ _ same).trans found, verifies⟩
  | delete key =>
      obtain ⟨t', c', made', rfl, doomed⟩ := may
      have apart : c.blobKey ≠ c'.blobKey := by
        intro same
        obtain ⟨rfl, -⟩ := h.once.made_apart made made' same
        exact live doomed
      exact ⟨blob, (Table.find?_erase_ne _ apart).trans found, verifies⟩

theorem Accounted.called (h : Accounted m) {op : StorageOp} (may : MayCall op m) :
    Accounted (m.called op) ∧ Follows m (m.called op) := by
  refine ⟨{ h with uploaded := ?_, consumed := ?_ }, ⟨fun _ mem => mem, ?_, ?_⟩⟩
  · intro t row found uploaded
    have live : ¬ Doomed m t := fun doomed => doomed.row_of found (.inr uploaded)
    exact h.stored_apply may (h.made t row found) live (h.uploaded t row found uploaded)
  · intro t consumed
    obtain ⟨gone, c, made, stored⟩ := h.consumed t consumed
    exact ⟨gone, c, made,
      h.stored_apply may made (fun doomed => doomed.unregistered consumed) stored⟩
  · exact fun t c _ doomed => ⟨doomed.unregistered, doomed.row⟩
  · exact fun t c made stored live =>
      h.stored_apply may made (fun doomed => live ⟨doomed.unregistered, doomed.row⟩) stored

theorem Follows.refl (m : Moment (uploadPlant digests config)) : Follows m m :=
  ⟨fun _ mem => mem, fun _ _ _ doomed => doomed, fun _ _ _ stored _ => stored⟩

theorem Follows.trans {m'' : Moment (uploadPlant digests config)} (h : Follows m m')
    (h' : Follows m' m'') : Follows m m'' where
  events := List.Subset.trans h.events h'.events
  doomed t c made doomed := h'.doomed t c (made.mono h.events) (h.doomed t c made doomed)
  stored t c made stored live := by
    have made' := made.mono h.events
    have live' : ¬ Doomed m' t := fun doomed => live (h'.doomed t c made' doomed)
    exact h'.stored t c made' (h.stored t c made stored live') live

theorem Follows.mayCall (h : Follows m m') {op : StorageOp} (may : MayCall op m) :
    MayCall op m' := by
  cases op with
  | put key bytes contentType =>
      obtain ⟨t, c, made, facts⟩ := may
      exact ⟨t, c, made.mono h.events, facts⟩
  | delete key =>
      obtain ⟨t, c, made, same, doomed⟩ := may
      exact ⟨t, c, made.mono h.events, same, h.doomed t c made doomed⟩

/-- What uploads, collectors and restarts may do beside the server. -/
def discipline (digests : Digests) (config : Config) : Discipline (uploadPlant digests config) where
  inv := Accounted
  rely := Follows
  may := MayCall
  refl := .refl
  trans := .trans
  may_mono may h := h.mayCall may
  called h may := h.called may

/-- One step of the database, by what it does to the rows: each goes on from one
that was there, or is new with a new token. -/
theorem Accounted.step (h : Accounted m) {ev : List (Event (uploadPlant digests config).system)}
    (events : m'.events = m.events ++ ev) (service : m'.service = m.service)
    (once : DrawnOnce (m.events ++ ev))
    (rows : ∀ t, Evolves (∃ row, m.state.pendingUploads.find? t = some row ∧
          Stored digests m.service row.upload.candidate)
        (m.state.pendingUploads.find? t) (m'.state.pendingUploads.find? t) ∨
      ∃ row, m'.state.pendingUploads.find? t = some row ∧ Made ev t row.upload.candidate ∧
        row.upload.state = .authorized)
    (consumed : ∀ t, Consumed ev t → m'.state.pendingUploads.find? t = none ∧
      ∃ row, m.state.pendingUploads.find? t = some row ∧ row.upload.state = .uploaded)
    (written : ∀ e ∈ ev, ∀ L key t f, WritesFile L key t f e → Made m.events t f.candidate) :
    Accounted m' ∧ Follows m m' := by
  obtain ⟨events', state', service'⟩ := m'
  dsimp only at events service
  subst events service
  have fresh {t : Digest} {c : Candidate} (made : Made m.events t c)
      {row' : PendingUploadRow} (found : state'.pendingUploads.find? t = some row') :
      ∃ row, m.state.pendingUploads.find? t = some row ∧ row.Becomes
        (∃ row, m.state.pendingUploads.find? t = some row ∧
          Stored digests m.service row.upload.candidate) row' := by
    cases rows t with
    | inl evolves => exact evolves row' found
    | inr new =>
        obtain ⟨_, _, new, _⟩ := new
        exact absurd new (once.made_before made)
  have keeps {t : Digest} {row' : PendingUploadRow}
      (found : state'.pendingUploads.find? t = some row') :
      Made (m.events ++ ev) t row'.upload.candidate ∧
        (row'.upload.state = .uploaded → Stored digests m.service row'.upload.candidate) := by
    cases rows t with
    | inl evolves =>
        obtain ⟨row, before, becomes⟩ := evolves row' found
        rw [becomes.candidate]
        refine ⟨(h.made t row before).mono (List.subset_append_left _ _), fun uploaded => ?_⟩
        rcases becomes.uploaded uploaded with already | ⟨row₂, before₂, stored⟩
        · exact h.uploaded t row before already
        · obtain rfl := Option.some.inj (before.symm.trans before₂)
          exact stored
    | inr new =>
        obtain ⟨row, found', made, state⟩ := new
        obtain rfl := Option.some.inj (found.symm.trans found')
        exact ⟨made_append.mpr (.inr made), fun uploaded => nomatch state.symm.trans uploaded⟩
  refine ⟨⟨once, fun t row found => (keeps found).1, fun t row found => (keeps found).2, ?_, ?_⟩,
    List.subset_append_left _ _, ?_, fun _ _ _ stored _ => stored⟩
  · intro t done
    rcases consumed_append.mp done with before | now
    · obtain ⟨gone, c, made, stored⟩ := h.consumed t before
      refine ⟨?_, c, made.mono (List.subset_append_left _ _), stored⟩
      refine Option.eq_none_iff_forall_ne_some.mpr fun row' found => ?_
      obtain ⟨row, found, -⟩ := fresh made found
      cases gone.symm.trans found
    · obtain ⟨gone, row, found, uploaded⟩ := consumed t now
      exact ⟨gone, _, (h.made t row found).mono (List.subset_append_left _ _),
        h.uploaded t row found uploaded⟩
  · intro e mem L key t f writes
    refine Made.mono ?_ (List.subset_append_left _ _)
    rcases List.mem_append.mp mem with before | now
    · exact h.written e before L key t f writes
    · exact written e now L key t f writes
  · intro t c made doomed
    refine ⟨fun done => ?_, fun row' found => ?_⟩
    · rcases consumed_append.mp done with before | now
      · exact doomed.unregistered before
      · obtain ⟨-, row, found, uploaded⟩ := consumed t now
        exact doomed.row_of found (.inr uploaded)
    · obtain ⟨row, before, becomes⟩ := fresh made found
      exact becomes.doomed (doomed.row row before)

/-- A step without a commit leaves the database as it is. -/
theorem Accounted.quiet (h : Accounted m) {ev : List (Event (uploadPlant digests config).system)}
    (commits : ∀ r a d d', .commit r a d d' ∉ ev) :
    Accounted ⟨m.events ++ ev, m.state, m.service⟩ ∧
      Follows m ⟨m.events ++ ev, m.state, m.service⟩ := by
  refine h.step rfl rfl (h.once.later fun e mem => ?_) (fun t => .inl .refl) ?_ ?_
  · cases e with
    | commit r a d d' => exact absurd mem (commits r a d d')
    | stmt | drop | auto => rfl
  · rintro t ⟨itemKey, access, context, now, n, d, d', mem⟩
    exact absurd mem (commits _ _ _ _)
  · intro e mem L key t f writes
    cases writes
    exact absurd mem (commits _ _ _ _)

/-- A statement that stands alone; `marks` is what one that marks a row needs. -/
theorem Accounted.wrote (h : Accounted m) {q : Sql} (alone : q.isUploadStatement)
    (marks : ∀ t now, q = .markPendingUploadUploaded t now → ∀ row,
      m.state.pendingUploads.find? t = some row → row.upload.state = .uploading →
        Stored digests m.service row.upload.candidate) :
    Accounted (m.wrote q) ∧ Follows m (m.wrote q) := by
  refine h.step rfl rfl (h.once.later fun e mem => ?_) (fun t => .inl ?_) ?_ ?_
  · obtain rfl := List.mem_singleton.mp mem
    rfl
  · intro row' found
    obtain ⟨row, before, becomes⟩ := upload_evolves alone m.state t row' found
    refine ⟨row, before, becomes.candidate, becomes.doomed, fun uploaded => ?_⟩
    refine (becomes.uploaded uploaded).imp_right ?_
    rintro ⟨now, same, row, found, uploading⟩
    exact ⟨row, found, marks t now same row found uploading⟩
  · rintro t ⟨itemKey, access, context, now, n, d, d', mem⟩
    cases List.mem_singleton.mp mem
  · intro e mem L key t f writes
    cases writes
    cases List.mem_singleton.mp mem

/-- A registration that is done takes over the candidate of its row. -/
theorem Registered.taken {P : PendingUpload → Database → Prop} {key : String}
    {access : LibraryAccess} {now n : Int} {d d' : Database}
    (h : Registered P t key access now d d' (.done n)) :
    d'.pendingUploads.find? t = none ∧ ∃ row, d.pendingUploads.find? t = some row ∧
      row.upload.state = .uploaded ∧
      d'.file.find? (access.libraryId, key) = some (registeredFile row.upload n) := by
  cases h with
  | @done row presented _ _ _ after =>
      subst after
      refine ⟨(withPending_find? _).trans (if_pos rfl), row, presented.found,
        presented.uploaded, ?_⟩
      exact Table.find?_put_self ..

/-- A commit of the server. -/
theorem Accounted.commit (h : Accounted m) {r : Request} {a : Reply} {d' : Database}
    (effect : PlainEffect digests r a m.state d')
    (once : DrawnOnce (m.events ++ [.commit r a m.state d'])) :
    Accounted ⟨m.events ++ [.commit r a m.state d'], d', m.service⟩ ∧
      Follows m ⟨m.events ++ [.commit r a m.state d'], d', m.service⟩ := by
  refine h.step rfl rfl once (fun t => ?_) ?_ ?_
  · cases effect with
    | guarded committed => exact .inl (committed.pendingUploads ▸ .refl)
    | registered registered => exact .inl (registered.evolves t)
    | administered after => exact .inl (after ▸ accounts_pendingUploads _ ▸ .refl)
    | @authorized r token id view _ _ authorized =>
        have after : d' = Database.withPending m.state (digests.sha256 token) _ := authorized.after
        subst after
        by_cases same : t = digests.sha256 token
        · refine .inr ⟨_, (withPending_find? _).trans (if_pos same), ?_, rfl⟩
          exact ⟨r, token, _, _, _, id, List.mem_singleton.mpr rfl, same.symm,
            authorized.candidate_eq, rfl⟩
        · exact .inl (((withPending_find? _).trans (if_neg same)) ▸ .refl)
  · rintro t ⟨itemKey, access, context, now, n, d₁, d₂, mem⟩
    cases List.mem_singleton.mp mem
    cases effect with
    | registered registered =>
        obtain ⟨gone, row, found, uploaded, -⟩ := registered.taken
        exact ⟨gone, row, found, uploaded⟩
  · intro e mem L key t f writes
    obtain rfl := List.mem_singleton.mp mem
    cases writes with
    | done library row =>
        subst library
        cases effect with
        | registered registered =>
            obtain ⟨-, before, found, -, after⟩ := registered.taken
            obtain rfl := Option.some.inj (row.symm.trans after)
            exact h.made _ before found

end Discipline

/-! ### The processes -/

section Processes
variable {digests : Digests} {config : Config} {m : Moment (uploadPlant digests config)}
  {α : Type}

/-- The process keeps to the discipline, however it ends. -/
abbrev Sound (digests : Digests) (config : Config) (p : Process Db storage α)
    (m : Moment (uploadPlant digests config)) : Prop :=
  p.Keeps (discipline digests config) (fun _ _ => True) m

theorem sound_pure (a : α) (m : Moment (uploadPlant digests config)) :
    Sound digests config (pure a) m :=
  fun _ _ _ => trivial

/-- A lone statement that marks no row. -/
theorem sound_statement {q : Sql} {f : Option q.Result → Process Db storage α}
    (alone : q.isUploadStatement) (other : ∀ t now, q ≠ .markPendingUploadUploaded t now)
    (failed : Sound digests config (f none) m)
    (done : ∀ m', Follows m m' → Accounted m' → Accounted (m'.wrote q) → Follows m' (m'.wrote q) →
      Sound digests config (f (some (q.eval m'.state))) (m'.wrote q)) :
    Sound digests config (statement q >>= f) m := by
  have step (m' : Moment (uploadPlant digests config)) (i : Accounted m') :=
    i.wrote alone fun t now same => absurd same (other t now)
  exact Process.keeps_write alone failed (fun m' _ i => step m' i)
    fun m' r i => done m' r i (step m' i).1 (step m' i).2

theorem sound_deleteCandidate {x : Digest × String} (may : MayCall (.delete x.2) m) :
    Sound digests config (deleteCandidate x) m := by
  refine Process.keeps_invoke (R := discipline digests config) may (sound_pure _ _) fun m' _ _ => ?_
  exact sound_statement rfl (fun _ _ => nofun) (sound_pure _ _) fun _ _ _ _ _ => sound_pure _ _

theorem sound_deleteCandidates {xs : List (Digest × String)}
    (may : ∀ x ∈ xs, MayCall (.delete x.2) m) :
    Sound digests config (deleteCandidates xs) m := by
  induction xs generalizing m with
  | nil => exact sound_pure _ _
  | cons x xs ih =>
      have rest (m' : Moment (uploadPlant digests config)) (r : Follows m m') :
          ∀ x ∈ xs, MayCall (.delete x.2) m' :=
        fun x mem => r.mayCall (may x (List.mem_cons_of_mem _ mem))
      have first := (sound_deleteCandidate (may x List.mem_cons_self)).frame
        (K := fun m => ∀ x ∈ xs, MayCall (.delete x.2) m)
        (fun known r x mem => Follows.mayCall r (known x mem)) (rest m (.refl m))
      exact first.imp (fun _ m' known => ih known.2) |>.bind

/-- What the collector has claimed is doomed. -/
theorem mayDelete_of_claimed {limit : Nat} {now : Int} {skipped : List Digest}
    (h : Accounted (m.wrote (.claimPendingUploadGarbage limit now skipped)))
    {x : Digest × String}
    (mem : x ∈ (Sql.claimPendingUploadGarbage limit now skipped).eval m.state) :
    MayCall (.delete x.2) (m.wrote (.claimPendingUploadGarbage limit now skipped)) := by
  obtain ⟨row, key, after⟩ := find?_of_claimed mem
  exact ⟨x.1, _, h.made x.1 _ after, key, h.doomed after (.inr rfl)⟩

theorem sound_cleanupPendingUploads (rounds : List Round)
    (m : Moment (uploadPlant digests config)) :
    Sound digests config (cleanupPendingUploads rounds) m := by
  induction rounds generalizing m with
  | nil => exact sound_pure _ _
  | cons round rounds ih =>
      refine sound_statement rfl (fun _ _ => nofun) (sound_pure _ _) fun m' _ _ i _ => ?_
      split
      · exact sound_pure _ _
      · exact sound_pure _ _
      · rename_i garbage claimed
        obtain rfl := Option.some.inj claimed
        have deletes := sound_deleteCandidates fun x mem => mayDelete_of_claimed i mem
        exact (deletes.imp fun _ m _ => ih m).bind

/-- A lone statement, a round of the collector, and the answer. -/
theorem sound_cleanup {q : Sql} (alone : q.isUploadStatement)
    (other : ∀ t now, q ≠ .markPendingUploadUploaded t now) (rounds : List Round) (a : α)
    (m : Moment (uploadPlant digests config)) :
    Sound digests config (statement q >>= fun _ => cleanupPendingUploads rounds >>= fun _ =>
      pure a) m := by
  have cleanup (m : Moment (uploadPlant digests config)) :
      Sound digests config (cleanupPendingUploads rounds >>= fun _ => pure a) m :=
    ((sound_cleanupPendingUploads rounds m).imp fun _ m _ => sound_pure a m).bind
  exact sound_statement alone other (cleanup _) fun _ _ _ _ _ => cleanup _

/-- The bytes of the candidate have been put, and are there unless the token is
doomed. -/
theorem sound_mark {t : Digest} {c : Candidate} (made : Made m.events t c)
    (stored : ¬ Doomed m t → Stored digests m.service c) {now : Int}
    {f : Option Bool → Process Db storage α}
    (answers : ∀ answer m, Sound digests config (f answer) m) :
    Sound digests config (statement (.markPendingUploadUploaded t now) >>= f) m := by
  refine Process.keeps_write (R := discipline digests config) rfl (answers none _) ?_
    fun m' _ _ => answers (some _) _
  intro m' r i
  refine i.wrote rfl fun t' now' same row found uploading => ?_
  cases same
  have live : ¬ Doomed m' t := fun doomed => doomed.row_of found (.inl uploading)
  rw [i.row_made found (made.mono r.events)]
  exact r.stored t c made (stored fun doomed => live (r.doomed t c made doomed)) live

/-- The bytes of a claimed token: put, and marked only once they are stored. -/
theorem sound_storeCandidate {t : Digest} {upload : PendingUpload} {bytes : List UInt8}
    (made : Made m.events t upload.candidate) (verified : upload.candidate.Verifies digests bytes)
    (r : PutRequest) : Sound digests config (storeCandidate t upload bytes r) m := by
  refine Process.keeps_invoke (R := discipline digests config) ⟨t, _, made, rfl, verified⟩ ?_ ?_
  · refine sound_cleanup rfl ?_ _ _ _
    exact fun _ _ => nofun
  · intro m' rely _
    have stored (contentType : String) : Stored digests
        (m'.called (.put upload.blobKey bytes contentType)).service upload.candidate :=
      ⟨_, Table.find?_put_self m'.service upload.blobKey ⟨bytes, contentType⟩, verified⟩
    refine sound_mark (m := m'.called _) (c := upload.candidate) (made.mono rely.events)
      (fun _ => stored _) fun answer m => ?_
    split
    · exact sound_pure _ _
    · refine sound_cleanup rfl ?_ _ _ _
      exact fun _ _ => nofun
    · exact sound_pure _ _

theorem avoids_authorized (upload : PendingUpload) (config : Config) :
    (upload.authorized config).Avoids fun q : Sql => q.isUploadStatement = true := by
  have lookups : (upload.authorized config).Avoids fun q : Sql => ¬ q.isLookup := by
    refine Txn.avoids_bind (avoids_resolve _ _ _) fun authority => ?_
    cases authority with
    | none => trivial
    | some authority => exact avoids_allows _ _ _
  refine lookups.mono fun q upload => ?_
  cases q <;> simp_all [Sql.isLookup, Sql.isUploadStatement]

theorem sound_uploadPut (r : PutRequest) (m : Moment (uploadPlant digests config)) :
    Sound digests config (uploadPut digests config r) m := by
  refine Process.keeps_read (R := discipline digests config) (q := Sql.pendingUpload _ _) nofun
    (sound_pure _ _) fun m₁ _ i₁ => ?_
  dsimp only
  split
  · exact sound_pure _ _
  · exact sound_pure _ _
  · rename_i upload found
    obtain ⟨row, live, rfl⟩ := Option.map_eq_some_iff.mp (Option.some.inj found)
    have made := i₁.made _ row (Option.filter_eq_some_iff.mp live).1
    split
    · exact sound_pure _ _
    · refine Process.Keeps.bind (Process.Keeps.imp (Process.Keeps.frame
        (K := fun m => Made m.events (digests.sha256 r.token) row.upload.candidate)
        (Process.keeps_ofTxn (R := discipline digests config)
          (avoids_authorized row.upload config) m₁)
        (fun known rely => known.mono rely.events) made) ?_)
      intro allowed m₂ made
      have made := made.2
      split
      · exact sound_pure _ _
      · exact sound_pure _ _
      · split
        · exact sound_pure _ _
        · split
          · exact sound_pure _ _
          · rename_i bytes _ matching
            have verified := matchesBytes_iff.mp (by simpa using matching)
            refine sound_statement rfl ?_ (sound_pure _ _) fun m₃ rely _ _ wrote => ?_
            · exact fun _ _ => nofun
            · split
              · exact sound_pure _ _
              · exact sound_pure _ _
              · exact sound_storeCandidate ((made.mono rely.events).mono wrote.events) verified r

theorem sound_job (job : UploadJob) (m : Moment (uploadPlant digests config)) :
    Sound digests config ((uploadPlant digests config).process job) m := by
  cases job with
  | uploadPut r => exact ((sound_uploadPut r m).imp fun a m _ => sound_pure (some a) m).bind
  | cleanup rounds =>
      exact ((sound_cleanupPendingUploads rounds m).imp fun _ m _ => sound_pure none m).bind
  | startUp rounds =>
      have sound : Sound digests config (startUp rounds) m := by
        refine sound_statement rfl ?_ (sound_pure _ _) fun _ _ _ _ _ =>
          sound_cleanupPendingUploads rounds _
        exact fun _ _ => nofun
      exact (sound.imp fun _ m _ => sound_pure none m).bind

end Processes

/-! ### Runs -/

section Run
variable {digests : Digests} {config : Config} {ι π : Type} [DecidableEq ι] [DecidableEq π]
  {d : Database} {v : Table String Blob} {w w' : World (uploadPlant digests config) ι π}
  {es es' : List (Event (server digests config))}

theorem clients_keep (valid : d.Valid) {all : List (Event (server digests config))}
    (once : DrawnOnce all) : World.Clients (discipline digests config)
      (Session.idle d : Session (server digests config) ι) all := by
  intro es ev σ σ' v run step others here h
  have h : Accounted ⟨es, σ.state, v⟩ := h
  obtain ⟨rest, rfl⟩ := here
  cases step with
  | start | query | drop | abort => exact h.quiet (by simp)
  | @auto q alone free accepted => exact absurd rfl (List.ne_of_not_mem_cons (others q _ _))
  | commit here accepted =>
      obtain ⟨-, effect⟩ := commit_plainEffect (run.snoc (.commit here accepted))
        (starts_idle valid) (List.mem_append_right es List.mem_cons_self)
      exact h.commit effect once.earlier

/-- A database that has no upload under way. -/
def NoUploads (d : Database) : Prop := ∀ t, d.pendingUploads.find? t = none

omit [DecidableEq ι] [DecidableEq π] in
theorem kept_idle (settled : NoUploads d) : World.Kept (discipline digests config)
    (World.idle d v : World (uploadPlant digests config) ι π) [] where
  inv := by
    refine ⟨⟨List.nodup_nil, List.nodup_nil⟩, ?_, ?_, ?_, fun _ mem => absurd mem List.not_mem_nil⟩
    · exact fun t row found => nomatch (settled t).symm.trans found
    · exact fun t row found => nomatch (settled t).symm.trans found
    · rintro t ⟨_, _, _, _, _, _, _, mem⟩
      exact absurd mem List.not_mem_nil
  processes := nofun
  sent := nofun

theorem kept_of_run (valid : d.Valid) (settled : NoUploads d)
    (run : World.Run (World.idle d v) es w) (run' : World.Run w es' w')
    (once : DrawnOnce (es ++ es')) :
    w.Kept (discipline digests config) es ∧ w'.Kept (discipline digests config) (es ++ es') ∧
      Follows (w.moment es) (w'.moment (es ++ es')) := by
  have clients : World.Clients (discipline digests config)
      (Session.idle d : Session (server digests config) ι) (es ++ es') := clients_keep valid once
  have before := (World.Run.kept .refl run (kept_idle settled) (fun job m _ => sound_job job m)
    (clients.mono (List.prefix_append _ _))).1
  have after := run.kept run' before (fun job m _ => sound_job job m) clients
  exact ⟨before, after.1, after.2⟩

/-- The object storage holds the bytes of the file: as many as it says, and with
its digest. -/
def File.Held (digests : Digests) (blobs : Table String Blob) (f : File) : Prop :=
  ∃ blob, blobs.find? f.blobKey = some blob ∧ blob.bytes.length = f.filesize ∧
    eqIgnoreAsciiCase (digests.md5Hex blob.bytes) f.blobMd5 = true

theorem toLowercase_toLowercase (s : String) : toLowercase (toLowercase s) = toLowercase s := by
  have again (c : Char) : c.toLower.toLower = c.toLower := by
    unfold Char.toLower
    grind
  simp only [toLowercase, String.toList_ofList, List.map_map]
  exact congrArg _ (List.map_congr_left fun c _ => again c)

theorem Stored.held {blobs : Table String Blob} {f : File}
    (h : Stored digests blobs f.candidate) : f.Held digests blobs := by
  obtain ⟨blob, found, length, digest⟩ := h
  refine ⟨blob, found, length, ?_⟩
  simp [eqIgnoreAsciiCase, digest, toLowercase_toLowercase, File.candidate]

/-- A file row that is not as it was has been written by a registration. -/
theorem file_written {σ₀ σ : Session (server digests config) ι} (run : Session.Run σ₀ es σ)
    (starts : Starts σ₀) {L : LibraryId} {key : String} {f : File}
    (found : σ.state.file.find? (L, key) = some f) :
    σ₀.state.file.find? (L, key) = some f ∨ ∃ e ∈ es, ∃ t, WritesFile L key t f e := by
  induction run generalizing f with
  | refl => exact .inl found
  | @snoc es ev σ σ' run step ih =>
      have earlier : σ.state.file.find? (L, key) = some f →
          σ₀.state.file.find? (L, key) = some f ∨ ∃ e ∈ es ++ ev, ∃ t, WritesFile L key t f e := by
        intro found
        refine (ih found).imp_right ?_
        rintro ⟨e, mem, written⟩
        exact ⟨e, List.mem_append_left _ mem, written⟩
      rcases step.moves with same | ⟨e, mem, moved⟩
      · exact earlier (same ▸ found)
      · have mem := List.mem_append_right es mem
        by_cases registers : Registers L key e
        · cases registers with
          | done library =>
              cases moved
              exact .inr ⟨_, mem, _, .done library found⟩
        · exact earlier ((change_of_event (run.snoc step) starts L e mem _ _ moved).file registers
            found)

/-- A live attachment has its verified bytes, however uploads, registrations,
collectors and restarts interleave: a registration that is done writes a file
row whose bytes stay held, no deletion is ever sent for them, and every row in
place is from before the run or so written. A token whose upload is discarded or
claimed for deletion is never registered. -/
theorem live_attachments_held (valid : d.Valid) (settled : NoUploads d)
    (run : World.Run (World.idle d v) es w) (run' : World.Run w es' w')
    (once : DrawnOnce (es ++ es')) :
    (∀ t key access context now n a b, .commit (Request.registerFile t key access context now)
        (Reply.registration (.done n)) a b ∈ es ++ es' →
      ∃ f, b.file.find? (access.libraryId, key) = some f ∧ f.Held digests w'.service ∧
        StorageOp.delete f.blobKey ∉ w'.sent ∧
        ∀ p next, w'.running p ≠ some (.call (.delete f.blobKey) next)) ∧
    (∀ L key f, w'.session.state.file.find? (L, key) = some f →
      d.file.find? (L, key) = some f ∨ ∃ e ∈ es ++ es', ∃ t, WritesFile L key t f e) ∧
    (∀ t row, w.session.state.pendingUploads.find? t = some row → row.Doomed →
      ¬ Consumed (es ++ es') t) := by
  obtain ⟨before, after, follows⟩ := kept_of_run valid settled run run' once
  have starts : Starts (Session.idle d : Session (server digests config) ι) := starts_idle valid
  have inv : Accounted (w'.moment (es ++ es')) := after.inv
  refine ⟨?_, ?_, ?_⟩
  · intro t key access context now n a b mem
    cases (commit_plainEffect (run.trans run').session starts mem).2 with
    | registered registered =>
        obtain ⟨-, row, -, -, found⟩ := registered.taken
        have consumed : Consumed (es ++ es') t := ⟨_, _, _, _, _, _, _, mem⟩
        have made : Made (es ++ es') t (registeredFile row.upload n).candidate :=
          inv.written _ mem _ _ _ _ (.done rfl found)
        have spared : ¬ MayCall (.delete (registeredFile row.upload n).blobKey)
            (w'.moment (es ++ es')) := by
          rintro ⟨t', c, made', same, doomed⟩
          obtain ⟨rfl, -⟩ := inv.once.made_apart made made' same.symm
          exact doomed.unregistered consumed
        refine ⟨_, found, (inv.stored_of_consumed consumed made).held,
          fun sent => spared (after.sent _ sent), fun p next running => ?_⟩
        exact spared (after.processes p _ running _ (.refl _) inv).1
  · exact fun L key f found => file_written (run.trans run').session starts found
  · intro t row found doomed
    have inv₀ : Accounted (w.moment es) := before.inv
    exact (follows.doomed t _ (inv₀.made t row found) (inv₀.doomed found doomed)).unregistered

end Run

/-! ### A first upload, with its bytes -/

def demoPut : PutRequest where
  token := "00112233445566778899aabbccddeeff"
  body := .ok demoBody
  lookedUpAt := 1
  claimedAt := 1
  finishedAt := 2
  rounds := []

set_option maxRecDepth 8000 in
theorem demoPut_fits : ((uploadPlant demoDigests demoConfig).process (.uploadPut demoPut)).Fits
    demoServer (pendingDatabase .authorized) := by
  have stmts : ((uploadPlant demoDigests demoConfig).process (.uploadPut demoPut)).stmts
      (pendingDatabase .authorized) = [
        (Sql.pendingUpload demoToken 1, pendingDatabase .authorized),
        (Sql.bootstrapPrincipal demoOwner, pendingDatabase .authorized),
        (Sql.claimPendingUpload demoToken 1, pendingDatabase .authorized),
        (Sql.markPendingUploadUploaded demoToken 2, pendingDatabase .uploading)] := rfl
  rw [Process.Fits, stmts]
  simp only [List.forall_mem_cons]
  refine ⟨.inr ⟨nofun, fun _ => rfl⟩, .inr ⟨nofun, fun _ => rfl⟩,
    .inl ⟨rfl, pendingDatabase_valid .uploading⟩, .inl ⟨rfl, pendingDatabase_valid .uploaded⟩, ?_⟩
  simp

abbrev DemoWorld := World (uploadPlant demoDigests demoConfig) Unit Unit

def demoStart : DemoWorld := .idle attachmentDatabase (∅ : Table String Blob)

def demoDone : Event demoServer :=
  .commit demoRegister (.registration (.done 1)) (pendingDatabase .uploaded) registeredDatabase

theorem demoAuthorize_once {es : List (Event demoServer)}
    (stmts : ∀ e ∈ es, ∃ r q v, e = .stmt r q v) :
    DrawnOnce (es ++ [.commit (.authorizeUpload demoAuthorize)
      (.authorization (.authorized "00112233445566778899aabbccddeeff" false)) attachmentDatabase
      (pendingDatabase .authorized)]) := by
  have nothing : es.filterMap drawn = [] := List.filterMap_eq_nil_iff.mpr fun e mem => by
    obtain ⟨_, _, _, rfl⟩ := stmts e mem
    rfl
  constructor <;> simp [List.filterMap_append, nothing, drawn, demoAuthorize]

/-- An upload from its authorization to its registration. -/
theorem demoBlob_runs : ∃ (es : List (Event demoServer)) (w : DemoWorld),
    World.Run demoStart (es ++ [demoDone]) w ∧ DrawnOnce (es ++ [demoDone]) := by
  obtain ⟨es₁, run₁, stmts₁⟩ := demoAuthorize_runs (ι := Unit) ()
  obtain ⟨es₂, run₂, autos₂⟩ := World.Run.alone (P := uploadPlant demoDigests demoConfig)
    (ι := Unit) (∅ : Table String Blob) [] (fun _ => none) () demoPut_fits
  obtain ⟨es₃, run₃, stmts₃⟩ := demoRegister_runs (ι := Unit) ()
  have quiet {es : List (Event demoServer)} (stmts : ∀ e ∈ es, ∃ r q v, e = .stmt r q v)
      {r : Request} {a : Reply} {d d' : Database} :
      ∀ q s s', .auto q s s' ∉ es ++ [.commit r a d d'] := by
    intro q s s' mem
    rcases List.mem_append.mp mem with mem | mem
    · obtain ⟨_, _, _, same⟩ := stmts _ mem
      cases same
    · cases List.mem_singleton.mp mem
  have authorized : World.Run demoStart _ _ := World.Run.ofSession run₁ (quiet stmts₁)
  have spawned := authorized.snoc
    (.spawn (P := uploadPlant demoDigests demoConfig) () (UploadJob.uploadPut demoPut) rfl)
  have uploaded := spawned.trans run₂
  have registered := uploaded.trans (World.Run.ofSession run₃ (quiet stmts₃))
  let first : List (Event demoServer) := es₁ ++ [.commit (.authorizeUpload demoAuthorize)
    (.authorization (.authorized "00112233445566778899aabbccddeeff" false)) attachmentDatabase
    (pendingDatabase .authorized)]
  have once : DrawnOnce first := demoAuthorize_once stmts₁
  have same (es : List (Event demoServer)) :
      first ++ [] ++ es ++ (es₃ ++ [demoDone]) = first ++ (es ++ es₃) ++ [demoDone] := by simp
  refine ⟨_, _, same es₂ ▸ registered, ?_⟩
  rw [List.append_assoc]
  refine once.later fun e mem => ?_
  rcases List.mem_append.mp mem with mem | mem
  · rcases List.mem_append.mp mem with mem | mem
    · obtain ⟨_, _, _, rfl⟩ := autos₂ e mem
      rfl
    · obtain ⟨_, _, _, rfl⟩ := stmts₃ e mem
      rfl
  · obtain rfl := List.mem_singleton.mp mem
    rfl

/-- The file registered in that run, with its bytes. -/
theorem live_attachments_held_upload : ∃ w : DemoWorld, (∃ es, World.Run demoStart es w) ∧
    ∃ f, registeredDatabase.file.find? (newLibrary, "FILE2345") = some f ∧
      f.Held demoDigests w.service := by
  obtain ⟨es, w, run, once⟩ := demoBlob_runs
  have once : DrawnOnce (es ++ [demoDone] ++ []) := (List.append_nil _).symm ▸ once
  have held := live_attachments_held attachmentDatabase_valid (fun _ => rfl) run .refl once
  obtain ⟨f, found, held, -⟩ := held.1 demoToken "FILE2345" demoAccess demoContext 3 1 _ _
    (List.mem_append_left _ (List.mem_append_right _ List.mem_cons_self))
  exact ⟨w, ⟨_, run⟩, f, found, held⟩

end Xotero
