import Xotero.Guarantees.Merging
import Xotero.Handlers.Mutations

/-!
The keys drawn for objects that are posted without one. A drawn key is compared
with nothing, and an entry under a key that exists is a merge: the keyless
entries of a batch become new objects when their keys happen to be apart.
-/

namespace Xotero

open Session (Run)

def keyless (provided : Value) : Bool := ((provided.get "key").bind Value.asStr).isNone

/-- The keys that a batch names. -/
def givenKeys (batch : List Value) : List String :=
  batch.filterMap fun provided => (provided.get "key").bind Value.asStr

/-- The keys drawn for its keyless entries, in order. -/
def drawnKeys (random : Nat → Fin 8 → UInt8) (batch : List Value) : List String :=
  (batch.zipIdx.filter fun e => keyless e.1).map fun e => generateKey (random e.2)

/-- The key under which a response reports an entry of the batch. -/
def Reply.key : Reply → Nat → Option String
  | .object (.done (_, successful)), index =>
      ((successful.get (toString index)).bind fun object => object.get "key").bind Value.asStr
  | _, _ => none

/-! ### Drawn keys -/

theorem utf8ByteSize_ofList {cs : List Char} (h : ∀ c ∈ cs, c.utf8Size = 1) :
    (String.ofList cs).utf8ByteSize = cs.length := by
  induction cs with
  | nil => rfl
  | cons c cs ih =>
      rw [String.ofList_cons, String.utf8ByteSize_append, String.utf8ByteSize_singleton,
        h c (by simp), ih fun c' mem => h c' (List.mem_cons_of_mem _ mem), List.length_cons]
      omega

/-- Whatever is drawn is a valid key. -/
theorem valid_generateKey (buf : Fin 8 → UInt8) : validObjectKey (generateKey buf) := by
  have letters : ∀ c ∈ keyAlphabet, c.utf8Size = 1 ∧ objectKeyAlphabet.contains c := by
    have all : keyAlphabet.all fun c => c.utf8Size = 1 && objectKeyAlphabet.contains c := by decide
    simpa using List.all_eq_true.mp all
  have drawn : ∀ c ∈ (List.ofFn buf).map fun b =>
      keyAlphabet.get ⟨b.toNat % keyAlphabet.length, Nat.mod_lt _ (by decide)⟩,
      c ∈ keyAlphabet := by
    intro c mem
    obtain ⟨b, -, rfl⟩ := List.mem_map.mp mem
    exact List.get_mem _ _
  have size : (generateKey buf).utf8ByteSize = 8 :=
    (utf8ByteSize_ofList fun c mem => (letters c (drawn c mem)).1).trans (by simp)
  rw [validObjectKey, Bool.and_eq_true, decide_eq_true_eq, List.all_eq_true, generateKey,
    String.toList_ofList]
  exact ⟨size, fun c mem => (letters c (drawn c mem)).2⟩

section Batch
variable {random : Nat → Fin 8 → UInt8} {batch : List Value} {index : Nat} {provided : Value}
  {key : String}

theorem providedKey_of_keyless (h : keyless provided) (buf : Fin 8 → UInt8) :
    providedKey provided buf = generateKey buf := by
  rw [providedKey, Option.isNone_iff_eq_none.mp h, Option.getD_none]

theorem providedKey_of_given (h : (provided.get "key").bind Value.asStr = some key)
    (buf : Fin 8 → UInt8) : providedKey provided buf = key := by
  rw [providedKey, h, Option.getD_some]

theorem mem_givenKeys : key ∈ givenKeys batch ↔
    ∃ (index : Nat) (provided : Value), batch[index]? = some provided ∧
      (provided.get "key").bind Value.asStr = some key := by
  rw [givenKeys, List.mem_filterMap]
  constructor
  · rintro ⟨provided, mem, own⟩
    obtain ⟨index, here⟩ := List.mem_iff_getElem?.mp mem
    exact ⟨index, provided, here, own⟩
  · rintro ⟨index, provided, here, own⟩
    exact ⟨provided, List.mem_of_getElem? here, own⟩

theorem mem_drawnKeys : key ∈ drawnKeys random batch ↔
    ∃ (index : Nat) (provided : Value), batch[index]? = some provided ∧ keyless provided ∧
      generateKey (random index) = key := by
  simp only [drawnKeys, List.mem_map, List.mem_filter, Prod.exists, List.mk_mem_zipIdx_iff_getElem?]
  constructor
  · rintro ⟨provided, index, ⟨here, none⟩, drawn⟩
    exact ⟨index, provided, here, none, drawn⟩
  · rintro ⟨index, provided, here, none, drawn⟩
    exact ⟨provided, index, ⟨here, none⟩, drawn⟩

/-- Keyless entries at different places draw different keys. -/
theorem nodup_drawnKeys : (drawnKeys random batch).Nodup ↔
    ∀ i j p q, batch[i]? = some p → batch[j]? = some q → keyless p → keyless q →
      generateKey (random i) = generateKey (random j) → i = j := by
  have places : (batch.zipIdx.filter fun e => keyless e.1).Nodup := by
    refine List.Nodup.filter _ (List.Nodup.of_map Prod.snd ?_)
    rw [List.zipIdx_map_snd]
    exact List.nodup_range'
  constructor
  · intro once i j p q here there none none' same
    have inj := List.inj_on_of_nodup_map once
    have := @inj (p, i) (by simp [List.mk_mem_zipIdx_iff_getElem?, here, none]) (q, j)
      (by simp [List.mk_mem_zipIdx_iff_getElem?, there, none']) same
    exact congrArg Prod.snd this
  · intro apart
    refine List.Nodup.map_on ?_ places
    rintro ⟨p, i⟩ mem ⟨q, j⟩ mem' same
    simp only [List.mem_filter, List.mk_mem_zipIdx_iff_getElem?] at mem mem'
    obtain rfl := apart i j p q mem.1 mem'.1 mem.2 mem'.2 same
    obtain rfl := Option.some.inj (mem.1.symm.trans mem'.1)
    rfl

theorem length_drawnKeys : (drawnKeys random batch).length = (batch.filter keyless).length := by
  have entries : (batch.zipIdx.filter fun e => keyless e.1).map Prod.fst =
      batch.filter keyless := by
    conv_rhs => rw [← List.zipIdx_map_fst 0 batch, List.filter_map]
    rfl
  rw [drawnKeys, List.length_map, ← entries, List.length_map]

/-- The key of an entry is given or drawn. -/
theorem key_of_keyed {e : String × Value} (entry : (keyed random 0 batch)[index]? = some e) :
    batch[index]? = some e.2 ∧
      (keyless e.2 ∧ generateKey (random index) = e.1 ∨
        (e.2.get "key").bind Value.asStr = some e.1) := by
  rw [getElem?_keyed, Nat.zero_add] at entry
  obtain ⟨provided, here, rfl⟩ := Option.map_eq_some_iff.mp entry
  refine ⟨here, ?_⟩
  cases own : (provided.get "key").bind Value.asStr with
  | none =>
      have none : keyless provided := Option.isNone_iff_eq_none.mpr own
      exact .inl ⟨none, (providedKey_of_keyless none _).symm⟩
  | some key => exact .inr (congrArg some (providedKey_of_given own _).symm)

end Batch

/-! ### New objects -/

/-- Each drawn key is drawn once, given by no entry, and not stored. -/
structure DrawnApart (L : LibraryId) (kind : ObjectKind) (random : Nat → Fin 8 → UInt8)
    (batch : List Value) (d : Database) : Prop where
  once : (drawnKeys random batch).Nodup
  notGiven : ∀ key ∈ drawnKeys random batch, key ∉ givenKeys batch
  notStored : ∀ key ∈ drawnKeys random batch, d.object.find? (L, kind, key) = none

/-- Each keyless entry is stored as posted, as a new object under a valid key of
its own; the objects that the batch does not name are as they were. -/
structure MakesNew (L : LibraryId) (kind : ObjectKind) (n : Int) (batch : List Value)
    (a : Reply) (d d' : Database) : Prop where
  entry : ∀ index provided, batch[index]? = some provided → keyless provided →
    ∃ key, a.key index = some key ∧ validObjectKey key ∧
      d.object.find? (L, kind, key) = none ∧ (∀ other, other ≠ index → a.key other ≠ some key) ∧
      d'.object.find? (L, kind, key) = some ⟨n, (stampObject key n provided).toJsonb⟩
  unnamed : ∀ key, key ∉ givenKeys batch → ∀ o, d.object.find? (L, kind, key) = some o →
    d'.object.find? (L, kind, key) = some o
  count : (d'.object.select fun k _ => k.1 = L && k.2.1 = kind &&
      (d.object.find? k).isNone && !(givenKeys batch).contains k.2.2).length =
    (batch.filter keyless).length

section Write
variable {L : LibraryId} {kind : ObjectKind} {batch : List Value} {random : Nat → Fin 8 → UInt8}
  {n : Int} {d d' : Database} {a : Reply}

theorem reply_key {expected : Option Int} {allow : Bool}
    (h : (GuardedOp.program L expected (.write kind batch allow random)).run d =
      some (d', .commit a)) (index : Nat) :
    a.key index = (keyed random 0 batch)[index]?.map Prod.fst := by
  obtain ⟨report, rfl, returns⟩ := write_reported h
  rw [Reply.key, returns]
  cases (keyed random 0 batch)[index]? with
  | none => rfl
  | some e => simp [objectJson, Members.get]

theorem MakesNew.drawnApart (h : MakesNew L kind n batch a d d')
    (keys : ∀ index, a.key index = (keyed random 0 batch)[index]?.map Prod.fst) :
    DrawnApart L kind random batch d := by
  have keyless_entry {index : Nat} {provided : Value} (here : batch[index]? = some provided)
      (none : keyless provided) : a.key index = some (generateKey (random index)) := by
    rw [keys, getElem?_keyed, here, Nat.zero_add]
    exact congrArg some (providedKey_of_keyless none _)
  refine ⟨nodup_drawnKeys.mpr fun i j p q here there none none' same => ?_, ?_, ?_⟩
  · obtain ⟨key, own, -, -, alone, -⟩ := h.entry i p here none
    by_contra ne
    refine alone j (Ne.symm ne) ?_
    rw [keyless_entry there none', ← same, ← keyless_entry here none, own]
  · rintro _ drawn given
    obtain ⟨i, p, here, none, rfl⟩ := mem_drawnKeys.mp drawn
    obtain ⟨j, q, there, named⟩ := mem_givenKeys.mp given
    obtain ⟨key, own, -, -, alone, -⟩ := h.entry i p here none
    refine alone j ?_ ?_
    · rintro rfl
      obtain rfl := Option.some.inj (here.symm.trans there)
      simp [keyless, named] at none
    · rw [← own, keyless_entry here none, keys, getElem?_keyed, there, Nat.zero_add]
      exact congrArg some (providedKey_of_given named _)
  · rintro _ drawn
    obtain ⟨i, p, here, none, rfl⟩ := mem_drawnKeys.mp drawn
    obtain ⟨key, own, -, absent, -⟩ := h.entry i p here none
    obtain rfl := Option.some.inj (own.symm.trans (keyless_entry here none))
    exact absent

/-- Every key of an entry is given or drawn. -/
theorem mem_keys {key : String} (named : ∃ e ∈ keyed random 0 batch, e.1 = key) :
    key ∈ givenKeys batch ∨ key ∈ drawnKeys random batch := by
  obtain ⟨e, mem, rfl⟩ := named
  obtain ⟨index, entry⟩ := List.mem_iff_getElem?.mp mem
  obtain ⟨here, ⟨none, drawn⟩ | own⟩ := key_of_keyed entry
  · exact .inr (mem_drawnKeys.mpr ⟨index, e.2, here, none, drawn⟩)
  · exact .inl (mem_givenKeys.mpr ⟨index, e.2, here, own⟩)

namespace DrawnApart

/-- No other entry has the key of a keyless one. -/
theorem alone (h : DrawnApart L kind random batch d) {i j : Nat} {p : Value}
    {e : String × Value} (here : batch[i]? = some p) (none : keyless p)
    (there : (keyed random 0 batch)[j]? = some e) (same : e.1 = generateKey (random i)) :
    j = i := by
  obtain ⟨at_j, ⟨none', drawn⟩ | own⟩ := key_of_keyed there
  · exact nodup_drawnKeys.mp h.once j i _ _ at_j here none' none (drawn.trans same)
  · refine absurd (mem_givenKeys.mpr ⟨j, _, at_j, own.trans (congrArg some same)⟩) ?_
    exact h.notGiven _ (mem_drawnKeys.mpr ⟨i, p, here, none, rfl⟩)

/-- A keyless entry is stored as posted. -/
theorem stored (h : DrawnApart L kind random batch d) {i : Nat} {p : Value}
    (here : batch[i]? = some p) (none : keyless p) :
    (d.storeAll L n kind (keyed random 0 batch)).object.find?
        (L, kind, generateKey (random i)) =
      some ⟨n, (stampObject (generateKey (random i)) n p).toJsonb⟩ := by
  have entry : (keyed random 0 batch)[i]? = some (generateKey (random i), p) := by
    rw [getElem?_keyed, here, Nat.zero_add]
    exact congrArg (fun key => some (key, p)) (providedKey_of_keyless none _)
  have last : ∀ e ∈ (keyed random 0 batch).drop (i + 1), e.1 ≠ generateKey (random i) := by
    intro e mem same
    obtain ⟨j, at_j⟩ := List.mem_iff_getElem?.mp mem
    rw [List.getElem?_drop] at at_j
    have := h.alone here none at_j same
    omega
  have before : ∀ e ∈ (keyed random 0 batch).take i, e.1 ≠ generateKey (random i) := by
    intro e mem same
    obtain ⟨j, at_j⟩ := List.mem_iff_getElem?.mp mem
    rw [List.getElem?_take] at at_j
    split at at_j
    · have := h.alone here none at_j same
      omega
    · cases at_j
  have absent : (d.storeAll L n kind ((keyed random 0 batch).take i)).stored L kind
      (generateKey (random i)) = Option.none := by
    rw [stored_storeAll before, Database.stored,
      h.notStored _ (mem_drawnKeys.mpr ⟨i, p, here, none, rfl⟩), Option.map_none]
  have after := @last_stored L kind n d _ _ _ _ entry last
  obtain ⟨o, found, data⟩ := Option.map_eq_some_iff.mp after
  have merged : (d.storeAll L n kind ((keyed random 0 batch).take i)).merged L n kind
      (generateKey (random i)) p = stampObject (generateKey (random i)) n p := by
    show stampObject _ n (overlay ((d.storeAll L n kind ((keyed random 0 batch).take i)).stored L
      kind (generateKey (random i))) p) = _
    rw [absent]
    rfl
  have version := version_storeAll ⟨_, List.mem_of_getElem? entry, rfl⟩ found
  rw [found, ← merged, ← data, ← version]

/-- The new rows that the batch does not name are those of the drawn keys. -/
theorem length_new (h : DrawnApart L kind random batch d) :
    ((d.storeAll L n kind (keyed random 0 batch)).object.select fun k _ =>
      k.1 = L && k.2.1 = kind &&
      (d.object.find? k).isNone && !(givenKeys batch).contains k.2.2).length =
        (batch.filter keyless).length := by
  have keys : (((d.storeAll L n kind (keyed random 0 batch)).object.select fun k _ => k.1 = L &&
      k.2.1 = kind && (d.object.find? k).isNone && !(givenKeys batch).contains k.2.2).map
        Prod.fst).Perm ((drawnKeys random batch).map fun key => (L, kind, key)) := by
    refine (List.perm_ext_iff_of_nodup (Table.nodup_select _ _) ?_).mpr ?_
    · exact h.once.map fun key key' same => by simpa using same
    rintro ⟨M, kind', key⟩
    simp only [List.mem_map, Prod.exists, exists_and_right, exists_eq_right, Prod.mk.injEq]
    constructor
    · rintro ⟨o, mem⟩
      obtain ⟨found, new⟩ := Table.mem_select.mp mem
      simp only [Bool.and_eq_true, decide_eq_true_eq, Option.isNone_iff_eq_none,
        Bool.not_eq_true', List.contains_eq_mem, decide_eq_false_iff_not] at new
      obtain ⟨⟨⟨rfl, rfl⟩, absent⟩, unnamed⟩ := new
      refine ⟨key, ?_, rfl, rfl, rfl⟩
      by_cases named : ∃ e ∈ keyed random 0 batch, e.1 = key
      · exact (mem_keys named).resolve_left unnamed
      · rw [find?_storeAll_object _ fun e mem same => named ⟨e, mem, by simpa using same⟩,
          absent] at found
        cases found
    · rintro ⟨key', drawn, rfl, rfl, rfl⟩
      obtain ⟨i, p, here, none, rfl⟩ := mem_drawnKeys.mp drawn
      refine ⟨_, Table.mem_select.mpr ⟨h.stored here none, ?_⟩⟩
      simp [h.notStored _ drawn, h.notGiven _ drawn]
  rw [← @length_drawnKeys random, ← List.length_map (f := Prod.fst), keys.length_eq,
    List.length_map]

end DrawnApart

end Write

section Runs
variable {digests : Digests} {config : Config} {ι : Type} [DecidableEq ι]
  {σ₀ σ : Session (server digests config) ι} {events : List (Event (server digests config))}

/-- The keyless entries of a committed batch become new objects exactly when the
keys drawn for them are apart. -/
theorem keyless_new_iff (run : Run σ₀ events σ) (starts : Starts σ₀) {L : LibraryId}
    {expected : Option Int} {kind : ObjectKind} {batch : List Value} {allow : Bool}
    {random : Nat → Fin 8 → UInt8} {a : Reply} {d d' : Database}
    (he : .commit (Request.guarded L expected (.write kind batch allow random)) a d d' ∈ events) :
    MakesNew L kind (d.version L + 1) batch a d d' ↔ DrawnApart L kind random batch d := by
  have alone := guarded_runs run starts he
  have keys := reply_key alone
  obtain ⟨-, -, after, -⟩ := write_run alone
  refine ⟨fun h => h.drawnApart keys, fun h => ?_⟩
  have apart : DrawnApart L kind random batch (d.setVersion L (d.version L + 1)) :=
    ⟨h.once, h.notGiven, by simpa using h.notStored⟩
  refine ⟨fun i p here none => ⟨generateKey (random i), ?_, valid_generateKey _,
    h.notStored _ (mem_drawnKeys.mpr ⟨i, p, here, none, rfl⟩), fun j other same => ?_, ?_⟩,
    fun key unnamed o found => ?_, ?_⟩
  · rw [keys, getElem?_keyed, here, Nat.zero_add]
    exact congrArg some (providedKey_of_keyless none _)
  · rw [keys] at same
    obtain ⟨e, there, named⟩ := Option.map_eq_some_iff.mp same
    exact other (h.alone here none there named)
  · rw [after]
    exact apart.stored here none
  · rw [after, find?_storeAll_object _ fun e mem same => ?_]
    · simpa using found
    · rcases mem_keys ⟨e, mem, by simpa using same⟩ with given | drawn
      · exact unnamed given
      · rw [h.notStored key drawn] at found
        cases found
  · have new := apart.length_new (n := d.version L + 1)
    rw [← after] at new
    simpa using new

/-- Two objects are posted without keys. -/
def keylessBatch : List Value :=
  [.object [("itemType", .string "book")], .object [("itemType", .string "webpage")]]

def keylessRequest (random : Nat → Fin 8 → UInt8) : Request :=
  .guarded newLibrary (some 0) (.write .item keylessBatch true random)

def keylessDatabase (random : Nat → Fin 8 → UInt8) : Database :=
  plainServer.after newDatabase 10 (keylessRequest random)

theorem keyless_runs (random : Nat → Fin 8 → UInt8)
    (commits : (plainServer.commits newDatabase 10 (keylessRequest random)).isSome)
    (valid : (keylessDatabase random).Valid) :
    ∃ events a, Run (Session.idle newDatabase : Session plainServer Unit)
      (events ++ [.commit (keylessRequest random) a newDatabase (keylessDatabase random)])
      (Session.idle (keylessDatabase random)) := by
  obtain ⟨es, a, run, -⟩ := Run.commits () 10 commits rfl valid
  exact ⟨es, a, run⟩

/-- A source of bytes that differ from entry to entry. -/
def counting (index : Nat) (_ : Fin 8) : UInt8 := UInt8.ofNat index

theorem keyless_new_iff_counting : ∃ a, MakesNew newLibrary .item 1 keylessBatch a newDatabase
    (keylessDatabase counting) := by
  obtain ⟨events, a, run⟩ := keyless_runs counting rfl (by constructor <;> decide)
  refine ⟨a, (keyless_new_iff run (starts_idle newDatabase_valid)
    (List.mem_append_right _ (List.mem_singleton_self _))).mpr ⟨by decide, by decide, ?_⟩⟩
  exact fun key _ => rfl

/-- When the random source cannot be read, two new objects are one. -/
theorem keyless_entries_merged : ∃ events a,
    Handlers.write ownerAccess .item [("if-unmodified-since-version", "0")] (some keylessBatch)
      (fun _ _ => 0) = .ok (keylessRequest fun _ _ => 0) ∧
    Run (Session.idle newDatabase : Session plainServer Unit)
      (events ++ [.commit (keylessRequest fun _ _ => 0) a newDatabase
        (keylessDatabase fun _ _ => 0)]) (Session.idle (keylessDatabase fun _ _ => 0)) ∧
    (a.key 0 = some "22222222" ∧ a.key 1 = some "22222222") ∧
    (keylessDatabase fun _ _ => 0).object.rows.length = 1 ∧
    ¬ MakesNew newLibrary .item 1 keylessBatch a newDatabase (keylessDatabase fun _ _ => 0) := by
  obtain ⟨events, a, run⟩ := keyless_runs (fun _ _ => 0) rfl (by constructor <;> decide)
  have keys := reply_key (guarded_runs run (starts_idle newDatabase_valid)
    (List.mem_append_right _ (List.mem_singleton_self _)))
  refine ⟨events, a, rfl, run, ⟨(keys 0).trans (by decide), (keys 1).trans (by decide)⟩,
    by decide, fun h => ?_⟩
  exact absurd (h.drawnApart keys).once (by decide)

end Runs

end Xotero
