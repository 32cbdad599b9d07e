import Mathlib.Data.List.DropRight
import Xotero.Config
import Xotero.Foundation.Results

/-!
Recovery keys load all or nothing. What a manifest comes to is a matter of the entries
that are in it, and the source of the highest priority is the only one that is read.
-/

namespace Xotero

/-- The file at a path has one line that is not blank. -/
def Reads (read : String → Option String) (path token : String) : Prop :=
  path ≠ "" ∧ ∃ value, read path = some value ∧ token = trim value ∧ token ≠ "" ∧
    '\r' ∉ token.toList ∧ '\n' ∉ token.toList

/-- A role, a colon, and the path of a token. -/
def Names (read : String → Option String) (entry token : String) (write : Bool) : Prop :=
  ∃ path, entry = (if write then "rw" else "ro") ++ ":" ++ path ∧ Reads read path token

/-- All entries name tokens, and no token has two roles. -/
structure Loadable (sha256 : String → Digest32) (read : String → Option String)
    (entries : List String) : Prop where
  named : ∀ entry ∈ entries, ∃ token write, Names read entry token write
  agreed : ∀ entry ∈ entries, ∀ entry' ∈ entries, ∀ token token' write write',
    Names read entry token write → Names read entry' token' write' →
      sha256 token = sha256 token' → write = write'

/-- Of one source, the recovery keys are exactly those that its entries name. -/
structure LoadsExactly (sha256 : String → Digest32) (read : String → Option String) :
    Prop where
  loads : ∀ env source, env "XOTERO_KEYS" = some source →
    ((∃ keys, loadKeysFrom sha256 read env = .ok keys) ↔
      ∃ manifest, source.toStr = some manifest ∧
        Loadable sha256 read (manifestEntries manifest))
  granted : ∀ env source manifest keys, env "XOTERO_KEYS" = some source →
    source.toStr = some manifest → loadKeysFrom sha256 read env = .ok keys →
    ∀ digest permissions, recoveryPermissions keys digest = some permissions ↔
      ∃ entry ∈ manifestEntries manifest, ∃ token write, Names read entry token write ∧
        (sha256 token).val = digest ∧ permissions = Permissions.recovery write
  reordered : ∀ env env' source source' manifest manifest',
    env "XOTERO_KEYS" = some source → env' "XOTERO_KEYS" = some source' →
    source.toStr = some manifest → source'.toStr = some manifest' →
    (∀ entry, entry ∈ manifestEntries manifest ↔ entry ∈ manifestEntries manifest') →
    ∀ keys, loadKeysFrom sha256 read env = .ok keys →
      ∃ keys', loadKeysFrom sha256 read env' = .ok keys' ∧
        ∀ digest, recoveryPermissions keys' digest = recoveryPermissions keys digest
  selected : ∀ env env', (env "XOTERO_KEYS").isSome →
    env' "XOTERO_KEYS" = env "XOTERO_KEYS" →
    loadKeysFrom sha256 read env' = loadKeysFrom sha256 read env
  file : ∀ env source keys, env "XOTERO_KEYS" = none →
    env "XOTERO_API_KEY_FILE" = some source → (loadKeysFrom sha256 read env = .ok keys ↔
      ∃ path token, source.toStr = some path ∧ Reads read path token ∧
        keys = Table.put ∅ (sha256 token) (Permissions.recovery true))
  token : ∀ env source keys, env "XOTERO_KEYS" = none → env "XOTERO_API_KEY_FILE" = none →
    env "XOTERO_API_KEY" = some source → (loadKeysFrom sha256 read env = .ok keys ↔
      ∃ token, source.toStr = some token ∧ trim token ≠ "" ∧
        keys = Table.put ∅ (sha256 token) (Permissions.recovery true))

theorem trim_toList (s : String) :
    (trim s).toList = (s.toList.dropWhile isWhitespace).rdropWhile isWhitespace :=
  String.toList_ofList

theorem trim_eq_empty {s : String} : trim s = "" ↔ ∀ c ∈ s.toList, isWhitespace c := by
  rw [← String.toList_eq_nil_iff, trim_toList, List.rdropWhile_eq_nil_iff]
  constructor
  · intro blank
    have none : s.toList.dropWhile isWhitespace = [] := by
      by_contra some
      have first := blank _ (List.head_mem some)
      rw [List.head_dropWhile_not isWhitespace some] at first
      exact Bool.false_ne_true first
    exact List.dropWhile_eq_nil_iff.mp none
  · intro blank c present
    exact blank c (List.dropWhile_suffix isWhitespace |>.subset present)

/-- What has been trimmed is not blank, unless it is empty. -/
theorem trim_trim_ne {s : String} (some : trim s ≠ "") : trim (trim s) ≠ "" := by
  intro blank
  rw [trim_eq_empty, trim_toList] at blank
  rw [ne_eq, ← String.toList_eq_nil_iff, trim_toList] at some
  exact List.rdropWhile_last_not _ _ some (blank _ (List.getLast_mem some))

section
variable {sha256 : String → Digest32} {read : String → Option String}
  {keys keys' : RecoveryKeys} {entry token path : String} {write : Bool}

/-- A token is refused if it is empty or has more than one line. -/
theorem refused_token : (token = "" ∨ token.toList.any fun c => c = '\r' || c = '\n') ↔
    ¬ (token ≠ "" ∧ '\r' ∉ token.toList ∧ '\n' ∉ token.toList) := by
  simp only [List.any_eq_true, Bool.or_eq_true, decide_eq_true_eq, not_and, ne_eq]
  constructor
  · rintro (empty | ⟨c, present, rfl | rfl⟩) some cr
    · exact absurd empty some
    · exact absurd present cr
    · exact fun lf => lf present
  · intro refused
    by_contra fine
    push Not at fine
    exact refused fine.1 (fun present => (fine.2 _ present).1 rfl)
      (fun present => (fine.2 _ present).2 rfl)

theorem readToken_eq_ok : readToken read path = .ok token ↔ Reads read path token := by
  unfold readToken Reads
  by_cases empty : path = ""
  · simp [empty]
  · rw [if_neg empty]
    cases read path with
    | none => simp
    | some value =>
        simp only [refused_token]
        by_cases fine : trim value ≠ "" ∧ '\r' ∉ (trim value).toList ∧
            '\n' ∉ (trim value).toList
        · rw [if_neg (not_not_intro fine)]
          constructor
          · rintro ⟨⟩
            exact ⟨empty, value, rfl, rfl, fine⟩
          · rintro ⟨-, value', ⟨⟩, rfl, -⟩
            rfl
        · rw [if_pos fine]
          refine ⟨fun same => (nomatch same), ?_⟩
          rintro ⟨-, value', ⟨⟩, rfl, fine'⟩
          exact absurd fine' fine

theorem Reads.trim_ne (reads : Reads read path token) : trim token ≠ "" := by
  obtain ⟨-, value, -, rfl, some, -⟩ := reads
  exact trim_trim_ne some

theorem insertToken_eq_ok : insertToken sha256 keys token write = .ok keys' ↔
    trim token ≠ "" ∧ keys.enter (sha256 token, Permissions.recovery write) = some keys' := by
  unfold insertToken Table.enter
  by_cases blank : trim token = ""
  · simp [blank]
  · rw [if_neg blank]
    dsimp only
    rw [recoveryPermissions_val]
    split <;> simp [blank]

/-- A name is read at its first colon, since no role has one. -/
theorem names_iff : Names read entry token write ↔
    ∃ path, splitOnce ':' entry.toList = some ((if write then "rw" else "ro").toList, path) ∧
      Reads read (String.ofList path) token := by
  have plain : ':' ∉ (if write then "rw" else "ro").toList := by cases write <;> decide
  simp only [Names, splitOnce_eq_some, plain, not_false_eq_true, and_true]
  constructor
  · rintro ⟨path, rfl, reads⟩
    refine ⟨path.toList, ?_, by rwa [String.ofList_toList]⟩
    rw [String.toList_append, String.toList_append, List.append_assoc]
    rfl
  · rintro ⟨path, whole, reads⟩
    refine ⟨String.ofList path, ?_, reads⟩
    rw [← String.toList_inj, whole]
    simp

/-- A token is entered if its file is read. -/
theorem readInsert_eq_ok : (do insertToken sha256 keys (← readToken read path) write) = .ok keys' ↔
    ∃ token, Reads read path token ∧
      keys.enter (sha256 token, Permissions.recovery write) = some keys' := by
  simp only [Except.bind_eq_ok, readToken_eq_ok, insertToken_eq_ok]
  exact exists_congr fun token => and_congr_right fun reads => and_iff_right reads.trim_ne

theorem loadEntry_eq_ok : loadEntry sha256 read keys entry = .ok keys' ↔
    ∃ token write, Names read entry token write ∧
      keys.enter (sha256 token, Permissions.recovery write) = some keys' := by
  unfold loadEntry
  simp only [names_iff]
  cases splitOnce ':' entry.toList with
  | none => simp
  | some found =>
      obtain ⟨role, path⟩ := found
      have asked : (∃ token write, (∃ path', some (role, path) =
              some ((if write then "rw" else "ro").toList, path') ∧
            Reads read (String.ofList path') token) ∧
          keys.enter (sha256 token, Permissions.recovery write) = some keys') ↔
          ∃ write, String.ofList role = (if write then "rw" else "ro") ∧
            (do insertToken sha256 keys (← readToken read (String.ofList path)) write) =
              .ok keys' := by
        simp only [readInsert_eq_ok, ← String.toList_inj, String.toList_ofList]
        constructor
        · rintro ⟨token, write, ⟨path', ⟨⟩, reads⟩, entered⟩
          exact ⟨write, rfl, token, reads, entered⟩
        · rintro ⟨write, rfl, token, reads, entered⟩
          exact ⟨token, write, ⟨path, rfl, reads⟩, entered⟩
      rw [asked, Bool.exists_bool]
      dsimp only
      by_cases readWrite : String.ofList role = "rw"
      · have notRead : String.ofList role ≠ "ro" := by rw [readWrite]; decide
        rw [if_pos readWrite]
        exact ⟨fun loaded => .inr ⟨readWrite, loaded⟩,
          fun loaded => (loaded.resolve_left fun both => notRead both.1).2⟩
      · rw [if_neg readWrite]
        by_cases readOnly : String.ofList role = "ro"
        · rw [if_pos readOnly]
          exact ⟨fun loaded => .inl ⟨readOnly, loaded⟩,
            fun loaded => (loaded.resolve_right fun both => readWrite both.1).2⟩
        · rw [if_neg readOnly]
          refine ⟨fun loaded => (nomatch loaded), ?_⟩
          rintro (⟨asRead, -⟩ | ⟨asWrite, -⟩)
          · exact absurd asRead readOnly
          · exact absurd asWrite readWrite

/-- The rows that entries come to. -/
def Comes (sha256 : String → Digest32) (read : String → Option String) (entry : String)
    (row : Digest32 × Permissions) : Prop :=
  ∃ token write, Names read entry token write ∧
    row = (sha256 token, Permissions.recovery write)

theorem entered_eq_ok {entries : List String} :
    entries.foldlM (loadEntry sha256 read) keys = .ok keys' ↔
      ∃ rows, List.Forall₂ (Comes sha256 read) entries rows ∧
        rows.foldlM Table.enter keys = some keys' := by
  induction entries generalizing keys with
  | nil => simp [pure, Except.pure]
  | cons entry entries ih =>
      rw [List.foldlM_cons, Except.bind_eq_ok]
      constructor
      · rintro ⟨next, first, loaded⟩
        obtain ⟨token, write, named, entered⟩ := loadEntry_eq_ok.mp first
        obtain ⟨rows, all, rest⟩ := ih.mp loaded
        refine ⟨_, .cons ⟨token, write, named, rfl⟩ all, ?_⟩
        rw [List.foldlM_cons, entered]
        exact rest
      · rintro ⟨rows, all, entered⟩
        obtain ⟨row, rows, ⟨token, write, named, rfl⟩, others, rfl⟩ :=
          List.forall₂_cons_left_iff.mp all
        rw [List.foldlM_cons] at entered
        obtain ⟨next, first, rest⟩ := Option.bind_eq_some_iff.mp entered
        exact ⟨next, loadEntry_eq_ok.mpr ⟨token, write, named, first⟩,
          ih.mpr ⟨rows, others, rest⟩⟩

/-- An entry names one token, for one role. -/
theorem Names.unique {token' : String} {write' : Bool} (named : Names read entry token write)
    (named' : Names read entry token' write') : token' = token ∧ write' = write := by
  obtain ⟨path, found, -, value, content, rfl, -⟩ := names_iff.mp named
  obtain ⟨path', found', -, value', content', rfl, -⟩ := names_iff.mp named'
  obtain ⟨role, rfl⟩ := Prod.mk.inj (Option.some.inj (found.symm.trans found'))
  obtain rfl := Option.some.inj (content.symm.trans content')
  refine ⟨rfl, ?_⟩
  cases write <;> cases write' <;> first | rfl | exact absurd role (by decide)

theorem recovery_inj {write write' : Bool}
    (same : Permissions.recovery write = Permissions.recovery write') : write = write' :=
  congrArg Permissions.write same

/-- The entries that come to rows are those that name tokens. -/
theorem exists_comes {entries : List String} :
    (∃ rows, List.Forall₂ (Comes sha256 read) entries rows) ↔
      ∀ entry ∈ entries, ∃ token write, Names read entry token write := by
  induction entries with
  | nil => simp
  | cons entry entries ih =>
      rw [List.forall_mem_cons, ← ih]
      constructor
      · rintro ⟨rows, all⟩
        obtain ⟨row, rows, ⟨token, write, first, -⟩, others, -⟩ :=
          List.forall₂_cons_left_iff.mp all
        exact ⟨⟨token, write, first⟩, rows, others⟩
      · rintro ⟨⟨token, write, first⟩, rows, all⟩
        exact ⟨_, .cons ⟨token, write, first, rfl⟩ all⟩

theorem mem_comes {entries : List String} {rows : List (Digest32 × Permissions)}
    (all : List.Forall₂ (Comes sha256 read) entries rows) (row : Digest32 × Permissions) :
    row ∈ rows ↔ ∃ entry ∈ entries, Comes sha256 read entry row := by
  induction all with
  | nil => simp
  | cons first _ ih =>
      rename_i entry row' entries rows _
      rw [List.mem_cons, ih, List.exists_mem_cons_iff]
      refine or_congr_left ⟨fun same => same ▸ first, ?_⟩
      obtain ⟨token, write, named, rfl⟩ := first
      rintro ⟨token', write', named', rfl⟩
      obtain ⟨rfl, rfl⟩ := named.unique named'
      rfl

variable {entries entries' : List String}

/-- The rows of entries agree as far as the entries do. -/
theorem consistent_comes {rows : List (Digest32 × Permissions)}
    (all : List.Forall₂ (Comes sha256 read) entries rows) : Table.Consistent rows ↔
      ∀ entry ∈ entries, ∀ entry' ∈ entries, ∀ token token' write write',
        Names read entry token write → Names read entry' token' write' →
          sha256 token = sha256 token' → write = write' := by
  constructor
  · intro agreed entry present entry' present' token token' write write' named named' same
    have row := (mem_comes all _).mpr ⟨entry, present, token, write, named, rfl⟩
    have row' := (mem_comes all _).mpr ⟨entry', present', token', write', named', rfl⟩
    exact recovery_inj (agreed _ row _ row' same)
  · intro agreed row present row' present' same
    obtain ⟨entry, here, token, write, named, rfl⟩ := (mem_comes all row).mp present
    obtain ⟨entry', here', token', write', named', rfl⟩ := (mem_comes all row').mp present'
    obtain rfl := agreed entry here entry' here' token token' write write' named named' same
    rfl

theorem loaded_iff :
    (∃ keys, entries.foldlM (loadEntry sha256 read) ∅ = .ok keys) ↔
      Loadable sha256 read entries := by
  constructor
  · rintro ⟨keys, loaded⟩
    obtain ⟨rows, all, entered⟩ := entered_eq_ok.mp loaded
    have agreed := ((Table.isSome_entered rows ∅).mp (by rw [entered]; rfl)).1
    exact ⟨exists_comes.mp ⟨rows, all⟩, (consistent_comes all).mp agreed⟩
  · rintro ⟨named, agreed⟩
    obtain ⟨rows, all⟩ := (@exists_comes sha256 read entries).mpr named
    have fits : Table.Extends ∅ rows := fun e _ r found => by simp at found
    have entered := (Table.isSome_entered rows ∅).mpr ⟨(consistent_comes all).mpr agreed, fits⟩
    obtain ⟨keys, entered⟩ := Option.isSome_iff_exists.mp entered
    exact ⟨keys, entered_eq_ok.mpr ⟨rows, all, entered⟩⟩

/-- The access of a digest is that of the entries whose token it is the digest of. -/
theorem granted_iff (loaded : entries.foldlM (loadEntry sha256 read) ∅ = .ok keys)
    (digest : Digest) (permissions : Permissions) :
    recoveryPermissions keys digest = some permissions ↔
      ∃ entry ∈ entries, ∃ token write, Names read entry token write ∧
        (sha256 token).val = digest ∧ permissions = Permissions.recovery write := by
  obtain ⟨rows, all, entered⟩ := entered_eq_ok.mp loaded
  simp only [recoveryPermissions_eq_some, Table.find?_of_entered entered, Table.find?_empty,
    reduceCtorEq, or_false, mem_comes all]
  constructor
  · rintro ⟨key, rfl, entry, present, token, write, named, same⟩
    obtain ⟨rfl, rfl⟩ := Prod.mk.inj same
    exact ⟨entry, present, token, write, named, rfl, rfl⟩
  · rintro ⟨entry, present, token, write, named, rfl, rfl⟩
    exact ⟨sha256 token, rfl, entry, present, token, write, named, rfl⟩

theorem Loadable.congr (same : ∀ entry, entry ∈ entries ↔ entry ∈ entries')
    (loadable : Loadable sha256 read entries) : Loadable sha256 read entries' where
  named entry present := loadable.named entry ((same entry).mpr present)
  agreed entry present entry' present' :=
    loadable.agreed entry ((same entry).mpr present) entry' ((same entry').mpr present')

end

section
variable {sha256 : String → Digest32} {read : String → Option String}
  {env : String → Option OsString} {source : OsString} {manifest : String}

/-- The manifest is read if there is one. -/
theorem loadKeysFrom_manifest (set : env "XOTERO_KEYS" = some source) :
    loadKeysFrom sha256 read env =
      match source.toStr with
      | none => .error "XOTERO_KEYS must be Unicode"
      | some manifest =>
          (manifestEntries manifest).foldlM (loadEntry sha256 read) ∅ := by
  unfold loadKeysFrom
  split
  · rename_i source' here
    obtain rfl := Option.some.inj (set.symm.trans here)
    rfl
  · rename_i unset
    rw [set] at unset
    cases unset

theorem insert_first_eq_ok {token : String} {keys : RecoveryKeys} :
    insertToken sha256 ∅ token true = .ok keys ↔ trim token ≠ "" ∧
      keys = Table.put ∅ (sha256 token) (Permissions.recovery true) := by
  rw [insertToken_eq_ok, Table.enter_eq_some]
  simp

end

theorem loads_exactly (sha256 : String → Digest32) (read : String → Option String) :
    LoadsExactly sha256 read where
  loads env source set := by
    rw [loadKeysFrom_manifest set]
    cases source.toStr with
    | none => simp
    | some manifest => simpa using loaded_iff
  granted env source manifest keys set decoded loaded := by
    rw [loadKeysFrom_manifest set, decoded] at loaded
    exact granted_iff loaded
  reordered env env' source source' manifest manifest' set set' decoded decoded' same keys
      loaded := by
    rw [loadKeysFrom_manifest set, decoded] at loaded
    rw [loadKeysFrom_manifest set', decoded']
    obtain ⟨keys', loaded'⟩ := loaded_iff.mpr ((loaded_iff.mp ⟨keys, loaded⟩).congr same)
    refine ⟨keys', loaded', fun digest => Option.ext fun permissions => ?_⟩
    rw [granted_iff loaded, granted_iff loaded']
    simp only [same]
  selected env env' set same := by
    obtain ⟨source, set⟩ := Option.isSome_iff_exists.mp set
    rw [loadKeysFrom_manifest set, loadKeysFrom_manifest (same.trans set)]
  file env source keys unset set := by
    simp only [loadKeysFrom, unset, set]
    cases source.toStr with
    | none => simp
    | some path =>
        refine readInsert_eq_ok.trans ?_
        simp [Table.enter_eq_some]
  token env source keys unset unset' set := by
    simp only [loadKeysFrom, unset, unset', set]
    cases source.toStr with
    | none => simp
    | some token => simpa using insert_first_eq_ok

/-- A key that may write and one that may not. -/
example : loadKeysFrom
      (fun token => ⟨List.replicate 32 (.ofNat token.length), List.length_replicate⟩)
      (fun path => if path = "/run/first" then some "alpha\n" else some "beta\n")
      (fun name => if name = "XOTERO_KEYS" then some "rw:/run/first,ro:/run/second".toUTF8
        else none) =
    .ok ((Table.put ∅ ⟨List.replicate 32 5, rfl⟩ (Permissions.recovery true)).put
      ⟨List.replicate 32 4, rfl⟩ (Permissions.recovery false)) := rfl

end Xotero
