import Xotero.Handlers.Files

/-!
Downloads: the row of a file, as headers of a redirect to the object storage.
-/

namespace Xotero

/-- What a header may hold; any other text is dropped. -/
def headerValue (text : String) : String :=
  if text.toList.all fun c => (32 ≤ c.toNat && c.toNat ≠ 127) || c = '\t' then text else ""

structure FileResponse where
  status : Nat
  headers : Params

/-- `presign` is the URL of an object, if the storage can sign it. -/
def Handlers.fileGet (presign : String → Option String) (L : LibraryId) (key : String) :
    Txn Db FileResponse := do
  if !validKey key then return ⟨404, []⟩
  else
    match ← execute (.fileMeta L key) with
    | none => return ⟨404, []⟩
    | some found =>
        match presign found.blobKey with
        | none => return ⟨500, []⟩
        | some url => return ⟨302, [
            ("location", headerValue url),
            ("zotero-file-modification-time", headerValue (toString found.mtime)),
            ("zotero-file-md5", headerValue found.blobMd5),
            ("zotero-file-size", headerValue (toString found.filesize)),
            ("zotero-file-compressed", headerValue (if found.compressed then "Yes" else "No"))]⟩

end Xotero
