import Xotero.Guarantees.Blobs
import Xotero.Handlers.Downloads

/-!
What is downloaded is what was uploaded: the redirect for an attachment leads to
bytes that an authorization of an upload for this attachment has announced, for
as long as anyone may follow it.
-/

namespace Xotero

open Session (Run)

/-- The answer for a file row. -/
def redirect (url : String) (f : File) : FileResponse :=
  ⟨302, [("location", headerValue url),
    ("zotero-file-modification-time", headerValue (toString f.mtime)),
    ("zotero-file-md5", headerValue f.blobMd5),
    ("zotero-file-size", headerValue (toString f.filesize)),
    ("zotero-file-compressed", headerValue (if f.compressed then "Yes" else "No"))]⟩

section
variable {presign : String → Option String} {L : LibraryId} {key : String} {d d' : Database}
  {response : FileResponse}

theorem validKey_of_redirect
    (served : (Handlers.fileGet presign L key).run d = some (d', response))
    (found : response.status = 302) : validKey key = true := by
  rw [Handlers.fileGet] at served
  split at served
  · cases served
    cases found
  · rename_i valid
    simpa using valid

/-- A redirect is for the row of the file. -/
theorem row_of_redirect (served : (Handlers.fileGet presign L key).run d = some (d', response))
    (found : response.status = 302) : ∃ f url, d.file.find? (L, key) = some f ∧
      presign f.blobKey = some url ∧ response = redirect url f := by
  rw [Handlers.fileGet] at served
  split at served
  · cases served
    cases found
  · rw [Txn.run_bind] at served
    obtain ⟨⟨d₁, row⟩, first, rest⟩ := Option.bind_eq_some_iff.mp served
    obtain ⟨-, rfl⟩ := execute_run first
    dsimp only at rest
    split at rest
    · cases rest
      cases found
    · rename_i found' seen
      split at rest
      · cases rest
        cases found
      · rename_i url signed
        cases rest
        simp only [Sql.eval] at seen
        split at seen
        · rename_i f o is_f is_o
          split at seen
          · cases seen
            exact ⟨f, url, is_f, signed, rfl⟩
          · cases seen
        · cases seen

end

section World
variable {digests : Digests} {config : Config} {ι π : Type} [DecidableEq ι] [DecidableEq π]
  {d : Database} {v : Table String Blob} {es es' : List (Event (server digests config))}
  {w w' : World (uploadPlant digests config) ι π}

/-- The row of a file, by the authorization of its upload. -/
def AuthorizeRequest.file (r : AuthorizeRequest) (candidateId : String) (version : Int) : File where
  blobKey := uploadStorageKey r.access.libraryId candidateId
  md5 := r.md5
  blobMd5 := r.zipMd5.getD r.md5
  filename := (r.form.get "filename").getD ""
  filesize := r.integer "filesize"
  mtime := r.integer "mtime"
  compressed := r.compressed
  version := version

/-- A row that a registration of the run has written. -/
theorem file_of_authorization {σ₀ σ : Session (server digests config) ι} (run : Run σ₀ es σ)
    (starts : Starts σ₀) (settled : NoUploads σ₀.state) {L : LibraryId} {key : String} {t : Digest}
    {f : File} {e : Event (server digests config)} (mem : e ∈ es)
    (writes : WritesFile L key t f e) :
    ∃ r token candidateId view upload,
      AuthorizedBy digests es t r token candidateId view upload ∧
        r.access.libraryId = L ∧ r.key = key ∧ f = r.file candidateId f.version := by
  cases writes with
  | @done access context now n d₁ d₂ library row =>
      subst library
      obtain ⟨es₁, σ₁, run₁, rfl, earlier⟩ := run.before mem .commit
      cases (commit_plainEffect run starts mem).2 with
      | registered registered =>
          obtain ⟨-, row', found, -, after⟩ := registered.taken
          obtain rfl := Option.some.inj (row.symm.trans after)
          cases registered with
          | done presented =>
              obtain rfl := Option.some.inj (found.symm.trans presented.found)
              obtain ⟨r, token, candidateId, view, origin⟩ :=
                authorizedBy_of_run run₁ starts (settled t) row' found
              have upload := origin.upload_eq
              refine ⟨r, token, candidateId, view, row'.upload, origin.mono earlier.subset,
                ?_, ?_, ?_⟩
              · exact (congrArg PendingUpload.libraryId upload).symm.trans presented.library
              · exact (congrArg PendingUpload.itemKey upload).symm.trans presented.item
              · rw [upload]
                rfl

/-- No two attachments have their bytes at one key. -/
theorem place_of_blobKey {σ₀ σ : Session (server digests config) ι} (run : Run σ₀ es σ)
    (starts : Starts σ₀) (settled : NoUploads σ₀.state) (once : DrawnOnce es) {L L' : LibraryId}
    {key key' : String} {t t' : Digest} {f f' : File} {e e' : Event (server digests config)}
    (mem : e ∈ es) (writes : WritesFile L key t f e) (mem' : e' ∈ es)
    (writes' : WritesFile L' key' t' f' e') (same : f'.blobKey = f.blobKey) :
    L' = L ∧ key' = key := by
  obtain ⟨r, token, id, view, upload, origin, library, item, row⟩ :=
    file_of_authorization run starts settled mem writes
  obtain ⟨r', token', id', view', upload', origin', library', item', row'⟩ :=
    file_of_authorization run starts settled mem' writes'
  rw [row, row'] at same
  obtain rfl := uploadStorageKey_injective same
  obtain ⟨d, d', commit, authorized⟩ := origin.committed
  obtain ⟨d₁, d₁', commit', authorized'⟩ := origin'.committed
  have candidates := once.candidates
  rw [List.map_filterMap] at candidates
  have one := eq_of_nodup_filterMap candidates commit commit' (x := id')
    (by simp only [drawn, authorized.candidate_eq, Option.map_some])
    (by simp only [drawn, authorized'.candidate_eq, Option.map_some])
  cases one
  exact ⟨library'.symm.trans library, item'.symm.trans item⟩

/-- Nothing may delete the bytes of a registered candidate. -/
theorem Accounted.spared {m : Moment (uploadPlant digests config)} (h : Accounted m) {t : Digest}
    {c : Candidate} (consumed : Consumed m.events t) (made : Made m.events t c) :
    ¬ MayCall (.delete c.blobKey) m := by
  intro may
  obtain ⟨t', c', made', same, doomed⟩ := may
  obtain ⟨rfl, -⟩ := h.once.made_apart made made' same.symm
  exact doomed.unregistered consumed

omit [DecidableEq ι] [DecidableEq π] in
/-- What a registration has written is held, and nothing is about to delete it. -/
theorem kept_of_written {w : World (uploadPlant digests config) ι π}
    (h : w.Kept (discipline digests config) es) {e : Event (server digests config)} (mem : e ∈ es)
    {L : LibraryId} {key : String} {t : Digest} {f : File} (writes : WritesFile L key t f e) :
    Stored digests w.service f.candidate ∧ StorageOp.delete f.blobKey ∉ w.sent ∧
      ∀ p next, w.running p ≠ some (.call (.delete f.blobKey) next) := by
  have inv : Accounted (w.moment es) := h.inv
  have consumed : Consumed es t := writes.consumed mem
  have made : Made es t f.candidate := inv.written e mem L key t f writes
  have spared := inv.spared consumed made
  refine ⟨inv.stored_of_consumed consumed made, fun sent => spared (h.sent _ sent), ?_⟩
  intro p next running
  exact spared (h.processes p _ running _ (.refl _) h.inv).1

/-- Whatever uploads, registrations, collectors and restarts do: a redirect is for
the upload of one authorization, for this very attachment, and says what that
announced; and whoever follows it, now or at any later time, gets bytes of the
announced size and digest, which nothing is about to delete. -/
theorem download_is_upload (presign : String → Option String) (valid : d.Valid)
    (settled : NoUploads d) (noFiles : ∀ k, d.file.find? k = none)
    (run : World.Run (World.idle d v) es w) (run' : World.Run w es' w')
    (once : DrawnOnce (es ++ es')) {L : LibraryId} {key : String} {d' : Database}
    {response : FileResponse}
    (served : (Handlers.fileGet presign L key).run w.session.state = some (d', response))
    (found : response.status = 302) :
    ∃ r token candidateId view upload url f,
      AuthorizedBy digests es (digests.sha256 token) r token candidateId view upload ∧
      r.access.libraryId = L ∧ r.key = key ∧ f = r.file candidateId f.version ∧
      presign f.blobKey = some url ∧ response = redirect url f ∧
      (∃ blob, w'.service.find? f.blobKey = some blob ∧
        blob.bytes.length = r.integer "filesize" ∧
        digests.md5Hex blob.bytes = toLowercase (r.zipMd5.getD r.md5)) ∧
      StorageOp.delete f.blobKey ∉ w'.sent ∧
      ∀ p next, w'.running p ≠ some (.call (.delete f.blobKey) next) := by
  obtain ⟨f, url, is_f, signed, rfl⟩ := row_of_redirect served found
  have starts : Starts (Session.idle d : Session (server digests config) ι) := starts_idle valid
  obtain ⟨-, after, -⟩ := kept_of_run valid settled run run' once
  have absent : ¬ d.file.find? (L, key) = some f := by simp [noFiles]
  obtain ⟨e, mem, t, writes⟩ := (file_written run.session starts is_f).resolve_left absent
  obtain ⟨r, token, candidateId, view, upload, origin, library, item, same⟩ :=
    file_of_authorization run.session starts settled mem writes
  obtain ⟨⟨blob, stored, length, digest⟩, kept⟩ :=
    kept_of_written after (List.mem_append_left es' mem) writes
  refine ⟨r, token, candidateId, view, upload, url, f, origin.token_eq ▸ origin, library, item,
    same, signed, rfl, ⟨blob, stored, ?_, ?_⟩, kept⟩
  · rw [length, File.candidate, same]
    rfl
  · rw [digest, File.candidate, same]
    rfl

end World

/-- Without an event the database stays. -/
theorem state_of_silent {S : System Db} {ι : Type} [DecidableEq ι] {σ σ' : Session S ι}
    {es : List (Event S)} (run : Run σ es σ') (silent : es = []) : σ'.state = σ.state := by
  induction run with
  | refl => rfl
  | snoc run step ih =>
      obtain ⟨before, last⟩ := List.append_eq_nil_iff.mp silent
      rw [← ih before]
      refine step.moves.resolve_right fun moved => ?_
      obtain ⟨e, mem, -⟩ := moved
      rw [last] at mem
      exact List.not_mem_nil mem

/-- The first upload, downloaded. -/
theorem download_is_upload_first : ∃ (w : DemoWorld) (url : String) (f : File) (blob : Blob),
    (∃ es, World.Run demoStart es w) ∧
    (Handlers.fileGet (fun key => some ("https://bucket.example/" ++ key)) newLibrary
      "FILE2345").run w.session.state = some (registeredDatabase, redirect url f) ∧
    w.service.find? f.blobKey = some blob ∧ blob.bytes.length = f.filesize := by
  obtain ⟨es, w, run, once⟩ := demoBlob_runs
  have once : DrawnOnce (es ++ [demoDone] ++ []) := (List.append_nil _).symm ▸ once
  obtain ⟨σ₁, σ₂, -, -, -, after, rest⟩ := run.session.around .commit
  have state : w.session.state = registeredDatabase := (state_of_silent rest rfl).trans after
  have served : (Handlers.fileGet (fun key => some ("https://bucket.example/" ++ key)) newLibrary
      "FILE2345").run w.session.state = some (registeredDatabase, redirect
        "https://bucket.example/libraries/1/uploads/ffeeddccbbaa99887766554433221100"
        (registeredFile demoUpload 1)) := by
    rw [state]
    rfl
  obtain ⟨_, _, _, _, _, url, f, -, -, -, same, -, answer, ⟨blob, stored, length, -⟩, -⟩ :=
    download_is_upload _ attachmentDatabase_valid (fun _ => rfl) (fun _ => rfl) run .refl once
      served rfl
  exact ⟨w, url, f, blob, ⟨_, run⟩, answer ▸ served, stored,
    length.trans (congrArg File.filesize same.symm)⟩

end Xotero
