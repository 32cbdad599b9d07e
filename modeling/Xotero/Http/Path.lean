import Xotero.Domain

/-!
What the middleware reads off a raw path before a route is matched. Two of the
recognisers drop empty segments and two do not.
-/

namespace Xotero

/-- `path.split('/')` -/
def segments (path : String) : List String := (path.toList.splitOn '/').map String.ofList

/-- The segments that are not empty. -/
def namedSegments (path : String) : List String := (segments path).filter (· ≠ "")

def isAttachmentPermissionPath (path : String) : Bool :=
  match segments path with
  | root :: scope :: rawId :: items :: key :: rest =>
      root = "" && (scope = "users" || scope = "groups") && (parseI64 rawId).any (0 < ·) &&
        items = "items" && key ≠ "" && (rest = ["file"] || rest = ["file", "view", "url"])
  | _ => false

def isGroupDiscoveryPath (path : String) : Bool :=
  match namedSegments path with
  | [groups, _] => groups = "groups"
  | [users, _, groups] => users = "users" && groups = "groups"
  | _ => false

def pathUserId (path : String) : Except Unit (Option Int) :=
  match segments path with
  | root :: users :: rest =>
      if root ≠ "" || users ≠ "users" then .ok none
      else
        match rest.head?.bind parseI64 with
        | some id => .ok (some id)
        | none => .error ()
  | _ => .ok none

def pathGroupDataId (path : String) : Except Unit (Option GroupId) :=
  match namedSegments path with
  | groups :: rawId :: _ :: _ =>
      if groups ≠ "groups" then .ok none
      else
        match (parseI64 rawId).bind Id.new with
        | some id => .ok (some id)
        | none => .error ()
  | _ => .ok none

/-- A segment of a path, as it stands between two slashes. -/
def IsSegment (s : String) : Prop := '/' ∉ s.toList

/-- The path of these segments. -/
def joinPath (names : List String) : String :=
  String.ofList (['/'].intercalate (names.map String.toList))

theorem segments_joinPath {names : List String} (nonempty : names ≠ [])
    (parts : ∀ name ∈ names, IsSegment name) : segments (joinPath names) = names := by
  have split : (['/'].intercalate (names.map String.toList)).splitOn '/' =
      names.map String.toList := by
    refine List.splitOn_intercalate '/' (fun l hl => ?_) (by simpa using nonempty)
    obtain ⟨name, mem, rfl⟩ := List.mem_map.mp hl
    exact parts name mem
  rw [segments, joinPath, String.toList_ofList, split, List.map_map]
  simp

/-- Signs and digits only, so no slash. -/
theorem isSegment_of_parseI64 {s : String} {n : Int} (h : parseI64 s = some n) : IsSegment s := by
  have digits {cs : List Char} {m : Nat} (h : parseDigits cs = some m) : '/' ∉ cs := by
    unfold parseDigits at h
    split at h
    · rename_i all
      intro mem
      have := List.all_eq_true.mp all.2 _ mem
      simp [Char.isDigit] at this
    · cases h
  unfold parseI64 at h
  unfold IsSegment
  split at h
  · rename_i cs same
    obtain ⟨m, parsed, -⟩ := Option.bind_eq_some_iff.mp h
    rw [same]
    simpa using digits parsed
  · rename_i cs same
    obtain ⟨m, parsed, -⟩ := Option.bind_eq_some_iff.mp h
    rw [same]
    simpa using digits parsed
  · obtain ⟨m, parsed, -⟩ := Option.bind_eq_some_iff.mp h
    exact digits parsed

/-- The path of an item's file, below the segment that names a user or a group. -/
def itemFilePath (scope rawId key : String) : String :=
  joinPath ["", scope, rawId, "items", key, "file"]

theorem parseI64_nonempty {s : String} {n : Int} (h : parseI64 s = some n) : s ≠ "" := by
  rintro rfl
  simp [parseI64, parseDigits] at h

section File
variable {scope rawId key : String}

theorem segments_itemFilePath (hs : scope = "users" ∨ scope = "groups") (hr : IsSegment rawId)
    (hk : IsSegment key) :
    segments (itemFilePath scope rawId key) = ["", scope, rawId, "items", key, "file"] := by
  have part : IsSegment scope := by rcases hs with rfl | rfl <;> simp [IsSegment]
  refine segments_joinPath (by simp) fun name mem => ?_
  simp only [List.mem_cons, List.not_mem_nil, or_false] at mem
  rcases mem with rfl | rfl | rfl | rfl | rfl | rfl
  · simp [IsSegment]
  · exact part
  · exact hr
  · simp [IsSegment]
  · exact hk
  · simp [IsSegment]

/-- A path with other segments is another path. -/
theorem ne_of_segments {path path' : String} (h : segments path ≠ segments path') :
    path ≠ path' :=
  fun same => h (congrArg segments same)

end File

/-! ### Paths below the id of a user or a group -/

/-- The path of some data of a user or a group, no empty segment in it. -/
structure DataPath (path scope rawId : String) (rest : List String) : Prop where
  parts : segments path = "" :: scope :: rawId :: rest
  scope : scope = "users" ∨ scope = "groups"
  named : ∀ name ∈ rawId :: rest, name ≠ ""
  below : ∃ name more, rest = name :: more ∧ name ≠ "groups"

theorem dataPath_itemFilePath {scope rawId key : String} {id : Int}
    (hs : scope = "users" ∨ scope = "groups") (hr : parseI64 rawId = some id)
    (hk : IsSegment key) (some_key : key ≠ "") :
    DataPath (itemFilePath scope rawId key) scope rawId ["items", key, "file"] where
  parts := segments_itemFilePath hs (isSegment_of_parseI64 hr) hk
  scope := hs
  named := by simp [parseI64_nonempty hr, some_key]
  below := ⟨_, _, rfl, by simp⟩

namespace DataPath
variable {path scope rawId : String} {rest : List String}

theorem namedSegments_eq (h : DataPath path scope rawId rest) :
    namedSegments path = scope :: rawId :: rest := by
  have kept : (rawId :: rest).filter (· ≠ "") = rawId :: rest :=
    List.filter_eq_self.mpr fun name mem => by simpa using h.named name mem
  rw [namedSegments, h.parts]
  rcases h.scope with rfl | rfl <;> simpa using kept

theorem isGroupDiscoveryPath_eq (h : DataPath path scope rawId rest) :
    isGroupDiscoveryPath path = false := by
  obtain ⟨name, more, rfl, other⟩ := h.below
  rw [isGroupDiscoveryPath, h.namedSegments_eq]
  cases more <;> simp [other]

theorem ne_keysCurrent (h : DataPath path scope rawId rest) : path ≠ "/keys/current" :=
  ne_of_segments (by
    rw [h.parts, show segments "/keys/current" = ["", "keys", "current"] by decide]
    rcases h.scope with rfl | rfl <;> simp)

theorem pathUserId_users (h : DataPath path "users" rawId rest) :
    pathUserId path =
      match parseI64 rawId with
      | some id => .ok (some id)
      | none => .error () := by
  simp [pathUserId, h.parts]

theorem pathUserId_groups (h : DataPath path "groups" rawId rest) : pathUserId path = .ok none := by
  simp [pathUserId, h.parts]

theorem pathGroupDataId_users (h : DataPath path "users" rawId rest) :
    pathGroupDataId path = .ok none := by
  obtain ⟨name, more, rfl, -⟩ := h.below
  simp [pathGroupDataId, h.namedSegments_eq]

theorem pathGroupDataId_groups (h : DataPath path "groups" rawId rest) :
    pathGroupDataId path =
      match (parseI64 rawId).bind Id.new with
      | some id => .ok (some id)
      | none => .error () := by
  obtain ⟨name, more, rfl, -⟩ := h.below
  simp [pathGroupDataId, h.namedSegments_eq]

/-- The permission check of attachments knows the path of every file. -/
theorem isAttachmentPermissionPath_eq {key : String}
    (h : DataPath path scope rawId ["items", key, "file"]) {id : Int}
    (hr : parseI64 rawId = some id) (positive : 0 < id) :
      isAttachmentPermissionPath path = true := by
  have some_key : key ≠ "" := h.named key (by simp)
  rw [isAttachmentPermissionPath, h.parts]
  rcases h.scope with rfl | rfl <;> simp [hr, positive, some_key]

end DataPath

end Xotero
