import Xotero.Handlers.UploadPut
import Xotero.Store.Uploads

/-!
The candidates of a run: the bytes that authorizations have announced, each
under a token and at a key of its own, and what the rows of their tokens may
still become.
-/

namespace Xotero

open Session (Run)

/-- Where the bytes of an upload go, and what they are checked against. -/
structure Candidate where
  blobKey : String
  md5 : String
  filesize : Int
  deriving DecidableEq

def PendingUpload.candidate (upload : PendingUpload) : Candidate :=
  ⟨upload.blobKey, upload.uploadMd5, upload.filesize⟩

def File.candidate (file : File) : Candidate := ⟨file.blobKey, file.blobMd5, file.filesize⟩

def AuthorizeRequest.candidate (r : AuthorizeRequest) (candidateId : String) : Candidate :=
  ⟨uploadStorageKey r.access.libraryId candidateId, r.zipMd5.getD r.md5, r.integer "filesize"⟩

/-- The bytes have the length of the candidate and its digest. -/
def Candidate.Verifies (digests : Digests) (c : Candidate) (bytes : List UInt8) : Prop :=
  bytes.length = c.filesize ∧ digests.md5Hex bytes = toLowercase c.md5

theorem matchesBytes_iff {digests : Digests} {upload : PendingUpload} {bytes : List UInt8} :
    upload.matchesBytes digests bytes = true ↔ upload.candidate.Verifies digests bytes := by
  simp [PendingUpload.matchesBytes, Candidate.Verifies, PendingUpload.candidate]

/-- The storage holds bytes of the candidate. -/
def Stored (digests : Digests) (blobs : Table String Blob) (c : Candidate) : Prop :=
  ∃ blob, blobs.find? c.blobKey = some blob ∧ c.Verifies digests blob.bytes

/-- The object key tells the candidate: a number has no slash in it. -/
theorem uploadStorageKey_injective {L L' : LibraryId} {id id' : String}
    (h : uploadStorageKey L id = uploadStorageKey L' id') : id = id' := by
  have digits (L : LibraryId) : ∀ c ∈ (toString L.get).toList, (decide (c ≠ '/')) = true := by
    intro c mem
    obtain ⟨n, hn⟩ := Int.eq_ofNat_of_zero_le (Int.le_of_lt L.positive)
    rw [hn] at mem
    have digit : c.isDigit = true := by
      have mem : c ∈ (Nat.repr n).toList := mem
      rw [Nat.repr_eq_ofList_toDigits, String.toList_ofList] at mem
      exact Nat.isDigit_of_mem_toDigits (by decide) (by decide) mem
    exact decide_eq_true fun same => by simp [same] at digit
  have chars := congrArg String.toList h
  simp only [uploadStorageKey, String.toList_append, List.append_assoc] at chars
  have tails := List.append_cancel_left chars
  have cut (L : LibraryId) (rest : List Char) :
      ((toString L.get).toList ++ ("/uploads/".toList ++ rest)).takeWhile (· ≠ '/') =
        (toString L.get).toList := by
    rw [List.takeWhile_append_of_pos (digits L)]
    simp
  have number : (toString L.get).toList = (toString L'.get).toList := by
    rw [← cut L id.toList, tails, cut L' id'.toList]
  rw [number] at tails
  exact String.toList_injective (List.append_cancel_left (List.append_cancel_left tails))

/-- Values that do not repeat come from one place. -/
theorem eq_of_nodup_filterMap {α β : Type} {f : α → Option β} {l : List α}
    (h : (l.filterMap f).Nodup) {a b : α} (ha : a ∈ l) (hb : b ∈ l) {x : β} (fa : f a = some x)
    (fb : f b = some x) : a = b := by
  have apart : l.Pairwise fun a b => f a = some x → f b = some x → a = b :=
    (List.pairwise_filterMap.mp h).imp fun other fa fb => absurd rfl (other x fa x fb)
  exact apart.forall_of_forall_of_flip (fun _ _ _ _ => rfl)
    (apart.imp fun same fb fa => (same fa fb).symm) ha hb fa fb

/-! ### What may become of a row -/

/-- The bytes of the row are for the collector. -/
def PendingUploadRow.Doomed (row : PendingUploadRow) : Prop :=
  row.upload.state = .discarded ∨ row.upload.state = .deleting

/-- The row goes on with its candidate, stays doomed once it is, and counts as
uploaded only where it was or is `marked`. -/
structure PendingUploadRow.Becomes (marked : Prop) (row row' : PendingUploadRow) : Prop where
  candidate : row'.upload.candidate = row.upload.candidate
  doomed : row.Doomed → row'.Doomed
  uploaded : row'.upload.state = .uploaded → row.upload.state = .uploaded ∨ marked

theorem PendingUploadRow.Becomes.refl {marked : Prop} (row : PendingUploadRow) :
    row.Becomes marked row :=
  ⟨rfl, id, .inl⟩

theorem PendingUploadRow.becomes_withState {marked : Prop} {row row' : PendingUploadRow}
    (state : PendingUploadState) (upload : row'.upload = (row.withState state).upload)
    (doomed : row.Doomed → state = .discarded ∨ state = .deleting)
    (uploaded : state = .uploaded → marked) : row.Becomes marked row' where
  candidate := by rw [upload]; rfl
  doomed h := by rw [PendingUploadRow.Doomed, upload]; exact doomed h
  uploaded h := by rw [upload] at h; exact .inr (uploaded h)

/-- Every row that is there afterwards was there before. -/
def Evolves (marked : Prop) (before after : Option PendingUploadRow) : Prop :=
  ∀ row', after = some row' → ∃ row, before = some row ∧ row.Becomes marked row'

section Evolves
variable {marked : Prop} {before : Option PendingUploadRow} {d d' : Database} {t : Digest}

theorem Evolves.refl : Evolves marked before before :=
  fun row' found => ⟨row', found, .refl row'⟩

theorem Evolves.gone : Evolves marked before none := fun _ found => nomatch found

theorem Evolves.some {row row' : PendingUploadRow} (h : row.Becomes marked row') :
    Evolves marked (some row) (some row') := by
  rintro _ ⟨⟩
  exact ⟨row, rfl, h⟩

theorem evolves_map {p : PendingUploadRow → Prop} [DecidablePred p]
    {g : PendingUploadRow → PendingUploadRow} (h : ∀ row, p row → row.Becomes marked (g row)) :
    Evolves marked before (before.map fun row => if p row then g row else row) := by
  intro row' found
  obtain ⟨row, rfl, rfl⟩ := Option.map_eq_some_iff.mp found
  refine ⟨row, rfl, ?_⟩
  split
  case isTrue holds => exact h row holds
  case isFalse => exact .refl row

theorem evolves_update {token : Digest} {p : PendingUploadRow → Bool}
    {f : PendingUploadRow → Option PendingUploadRow}
    (h : ∀ row, t = token → d.pendingUploads.find? t = some row → p row = true →
      Evolves marked (some row) (f row)) :
    Evolves marked (d.pendingUploads.find? t)
      (((updatePendingUpload d token p f).foldl Database.apply d).pendingUploads.find? t) := by
  rw [find?_updatePendingUpload]
  split
  case isFalse => exact .refl
  case isTrue same =>
      intro row' found
      obtain ⟨row, before, kept⟩ := Option.bind_eq_some_iff.mp found
      rw [same, before]
      split at kept
      case isTrue holds => exact h row same (same ▸ before) holds row' kept
      case isFalse =>
          obtain rfl := Option.some.inj kept
          exact ⟨row, rfl, .refl row⟩

/-- A lone statement marks one row, which was `uploading`. -/
def Sql.Marks (q : Sql) (t : Digest) (d : Database) : Prop :=
  ∃ now, q = .markPendingUploadUploaded t now ∧
    ∃ row, d.pendingUploads.find? t = some row ∧ row.upload.state = .uploading

theorem upload_evolves {q : Sql} (h : q.isUploadStatement) (d : Database) (t : Digest) :
    Evolves (q.Marks t d) (d.pendingUploads.find? t)
      (((q.writes d).foldl Database.apply d).pendingUploads.find? t) := by
  have move {row : PendingUploadRow} {state : PendingUploadState} {marked : Prop}
      (active : row.upload.state = .authorized ∨ row.upload.state = .uploading)
      (uploaded : state = .uploaded → marked) :
      Evolves marked (some row) (some (row.withState state)) := by
    refine .some (row.becomes_withState state rfl (fun doomed => ?_) uploaded)
    simp only [PendingUploadRow.Doomed] at doomed
    grind
  cases q with
  | claimPendingUpload token now =>
      refine evolves_update fun row _ _ holds => move ?_ nofun
      exact .inl (by simp at holds; exact holds.1)
  | discardPendingUpload token =>
      refine evolves_update fun row _ _ holds => move ?_ nofun
      exact .inr (by simpa using holds)
  | resetPendingUpload token now =>
      refine evolves_update fun row _ _ holds => move (.inr (by simpa using holds)) ?_
      split <;> exact nofun
  | markPendingUploadUploaded token now =>
      refine evolves_update fun row same found holds => ?_
      have uploading : row.upload.state = .uploading := by simp at holds; exact holds.1
      exact move (.inr uploading) fun _ => ⟨now, same ▸ rfl, row, found, uploading⟩
  | deletePendingUploadGarbage token => exact evolves_update fun _ _ _ _ => .gone
  | resetInterruptedPendingUploads =>
      rw [find?_resetInterruptedPendingUploads]
      refine evolves_map fun row uploading => row.becomes_withState .authorized rfl ?_ nofun
      intro doomed
      simp [PendingUploadRow.Doomed, uploading] at doomed
  | claimPendingUploadGarbage limit now skipped =>
      rw [find?_claimPendingUploadGarbage]
      exact evolves_map fun row _ => row.becomes_withState .deleting rfl (fun _ => .inr rfl) nofun
  | _ => simp [Sql.isUploadStatement] at h

theorem evolves_withPending {token : Digest} {row : Option PendingUploadRow}
    (h : Evolves marked (d.pendingUploads.find? token) row) :
    Evolves marked (d.pendingUploads.find? t)
      ((d.withPending token row).pendingUploads.find? t) := by
  rw [withPending_find?]
  split
  case isTrue same => exact same ▸ h
  case isFalse => exact .refl

theorem Registered.evolves {P : PendingUpload → Database → Prop} {token : Digest}
    {itemKey : String} {access : LibraryAccess} {now : Int} {o : FileRegistrationOutcome}
    (h : Registered P token itemKey access now d d' o) (t : Digest) :
    Evolves marked (d.pendingUploads.find? t) (d'.pendingUploads.find? t) := by
  obtain ⟨row, left, found, after, discarded | gone⟩ := h.pending
  · rw [after, discarded]
    exact evolves_withPending (found ▸ .some
      (row.becomes_withState .discarded rfl (fun _ => .inl rfl) nofun))
  · rw [after, gone]
    exact evolves_withPending .gone

end Evolves

/-! ### What the events of a run have made -/

section Events
variable {digests : Digests} {config : Config}
    {events events' : List (Event (server digests config))}
  {e : Event (server digests config)} {t t' : Digest} {c c' : Candidate}

/-- The random values of an authorization: the digest of its token, and the id
of its candidate. -/
def drawn : Event (server digests config) → Option (Digest × String)
  | .commit (Request.authorizeUpload r) (Reply.authorization (.authorized token _)) _ _ =>
      r.candidateId.map fun id => (digests.sha256 token, id)
  | _ => none

/-- Random values do not repeat. -/
structure DrawnOnce (events : List (Event (server digests config))) : Prop where
  tokens : ((events.filterMap drawn).map Prod.fst).Nodup
  candidates : ((events.filterMap drawn).map Prod.snd).Nodup

/-- An authorization of the token has announced the candidate. -/
def Made (events : List (Event (server digests config))) (t : Digest) (c : Candidate) : Prop :=
  ∃ r token compressed d d' id, .commit (Request.authorizeUpload r)
      (Reply.authorization (.authorized token compressed)) d d' ∈ events ∧
    digests.sha256 token = t ∧ r.candidateId = some id ∧ c = r.candidate id

/-- The upload of the token has been registered. -/
def Consumed (events : List (Event (server digests config))) (t : Digest) : Prop :=
  ∃ itemKey access context now n d d', .commit
    (Request.registerFile t itemKey access context now) (Reply.registration (.done n)) d d' ∈ events

/-- The registration of `t` has written the row `f` for the attachment `key`. -/
inductive WritesFile (L : LibraryId) (key : String) (t : Digest) (f : File) :
    Event (server digests config) → Prop where
  | done {access : LibraryAccess} {context : RequestContext} {now n : Int} {d d' : Database}
      (library : access.libraryId = L) (row : d'.file.find? (L, key) = some f) :
      WritesFile L key t f (.commit (Request.registerFile t key access context now)
        (Reply.registration (.done n)) d d')

theorem made_append : Made (events ++ events') t c ↔ Made events t c ∨ Made events' t c := by
  simp only [Made, List.mem_append]
  grind

theorem consumed_append :
    Consumed (events ++ events') t ↔ Consumed events t ∨ Consumed events' t := by
  simp only [Consumed, List.mem_append]
  grind

theorem WritesFile.consumed {L : LibraryId} {key : String} {f : File}
    (h : WritesFile L key t f e) (mem : e ∈ events) : Consumed events t := by
  cases h
  exact ⟨_, _, _, _, _, _, _, mem⟩

theorem Made.mono (h : Made events t c) (sub : events ⊆ events') : Made events' t c := by
  obtain ⟨r, token, compressed, d, d', id, mem, facts⟩ := h
  exact ⟨r, token, compressed, d, d', id, sub mem, facts⟩

theorem Consumed.mono (h : Consumed events t) (sub : events ⊆ events') : Consumed events' t := by
  obtain ⟨itemKey, access, context, now, n, d, d', mem⟩ := h
  exact ⟨itemKey, access, context, now, n, d, d', sub mem⟩

theorem Made.drawn (h : Made events t c) : ∃ e ∈ events, ∃ id, drawn e = some (t, id) ∧
    ∃ r, c = AuthorizeRequest.candidate r id ∧
      ∃ a d d', e = .commit (.authorizeUpload r) a d d' := by
  obtain ⟨r, token, compressed, d, d', id, mem, rfl, drew, rfl⟩ := h
  refine ⟨_, mem, id, ?_, r, rfl, _, d, d', rfl⟩
  simp only [Xotero.drawn, drew, Option.map_some]

theorem DrawnOnce.earlier (h : DrawnOnce (events ++ events')) : DrawnOnce events where
  tokens := h.tokens.sublist (((List.sublist_append_left _ _).filterMap _).map _)
  candidates := h.candidates.sublist (((List.sublist_append_left _ _).filterMap _).map _)

/-- Events that draw nothing. -/
theorem DrawnOnce.later (h : DrawnOnce events) (nothing : ∀ e ∈ events', drawn e = none) :
    DrawnOnce (events ++ events') := by
  have same : (events ++ events').filterMap drawn = events.filterMap drawn := by
    rw [List.filterMap_append, List.filterMap_eq_nil_iff.mpr nothing, List.append_nil]
  exact ⟨same ▸ h.tokens, same ▸ h.candidates⟩

/-- One token announces one candidate. -/
theorem DrawnOnce.made_unique (once : DrawnOnce events) (h : Made events t c)
    (h' : Made events t c') : c = c' := by
  obtain ⟨e, mem, id, drew, r, rfl, a, d, d', rfl⟩ := h.drawn
  obtain ⟨e', mem', id', drew', r', rfl, a', d₁, d₁', rfl⟩ := h'.drawn
  have tokens := once.tokens
  rw [List.map_filterMap] at tokens
  have same := eq_of_nodup_filterMap tokens mem mem' (x := t) (by rw [drew]; rfl)
    (by rw [drew']; rfl)
  cases same
  cases drew.symm.trans drew'
  rfl

/-- Two candidates at one key are one, of one token. -/
theorem DrawnOnce.made_apart (once : DrawnOnce events) (h : Made events t c)
    (h' : Made events t' c') (key : c.blobKey = c'.blobKey) : t = t' ∧ c = c' := by
  obtain ⟨e, mem, id, drew, r, rfl, a, d, d', rfl⟩ := h.drawn
  obtain ⟨e', mem', id', drew', r', rfl, a', d₁, d₁', rfl⟩ := h'.drawn
  obtain rfl : id = id' := uploadStorageKey_injective key
  have candidates := once.candidates
  rw [List.map_filterMap] at candidates
  have same := eq_of_nodup_filterMap candidates mem mem' (x := id) (by rw [drew]; rfl)
    (by rw [drew']; rfl)
  cases same
  cases drew.symm.trans drew'
  exact ⟨rfl, rfl⟩

/-- What has been announced is not announced again. -/
theorem DrawnOnce.made_before (once : DrawnOnce (events ++ events')) (h : Made events t c) :
    ¬ Made events' t c' := by
  intro h'
  obtain ⟨e, mem, id, drew, -⟩ := h.drawn
  obtain ⟨e', mem', id', drew', -⟩ := h'.drawn
  have tokens := once.tokens
  rw [List.filterMap_append, List.map_append] at tokens
  refine List.disjoint_of_nodup_append tokens (a := t) ?_ ?_
  · exact List.mem_map.mpr ⟨_, List.mem_filterMap.mpr ⟨e, mem, drew⟩, rfl⟩
  · exact List.mem_map.mpr ⟨_, List.mem_filterMap.mpr ⟨e', mem', drew'⟩, rfl⟩

end Events

end Xotero
