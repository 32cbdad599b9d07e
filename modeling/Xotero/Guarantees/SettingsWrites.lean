import Xotero.Guarantees.Consistency
import Xotero.Guarantees.Concurrency
import Xotero.Handlers.Mutations
import Xotero.Json.Normal

/-!
What a settings POST that is answered with success has stored. A body that is no
JSON object names no settings, and a write of no settings is always a success at
the current version.
-/

namespace Xotero

/-- The version of a settings POST that is answered with success, and the state it
leaves. -/
def settingsAnswer (digests : Digests) (config : Config) (access : LibraryAccess)
    (headers : Params) (body : Option Value) (d : Database) : Option Int × Database :=
  match Handlers.settingsWrite access headers body with
  | .error _ => (none, d)
  | .ok r => ((r.alone digests config d).1.bind Reply.doneVersion, (r.alone digests config d).2)

/-- Success means that the body is an object and its settings are read back as
sent, at the version of the answer, beside the others as they were; what is not
an object is refused. -/
structure StoresSettings (digests : Digests) (config : Config) (access : LibraryAccess)
    (headers : Params) (body : Option Value) (d : Database) : Prop where
  success : ∀ n d', settingsAnswer digests config access headers body d = (some n, d') →
    ∃ fields before after, body = some (.object fields) ∧
      (settings access.libraryId).run d = some (d, before) ∧
      (settings access.libraryId).run d' = some (d', after) ∧
      (∀ key entry, Members.get fields key = some entry →
        ∃ v, after.get key = some (.object [("value", v), ("version", .ofInt n)]) ∧
          v.Equals (settingValue entry)) ∧
      ∀ key, Members.get fields key = none → after.get key = before.get key
  refused : (∀ fields, body ≠ some (.object fields)) →
    settingsAnswer digests config access headers body d = (none, d)

section Settings
variable {L : LibraryId} {n : Int} {d : Database}

/-- A setting as it is read back. -/
theorem get_settingsBody (key : String) :
    (settingsBody (Sql.eval (.settings L) d)).get key =
      (d.setting.find? (L, key)).map fun row =>
        .object [("value", row.value), ("version", .ofInt row.version)] := by
  have rows (row : Setting) : (key, row) ∈ Sql.eval (.settings L) d ↔
      d.setting.find? (L, key) = some row := by
    simp only [Sql.eval, List.mem_map, Prod.mk.injEq]
    constructor
    · rintro ⟨⟨⟨M, key'⟩, row'⟩, mem, rfl, rfl⟩
      obtain ⟨found, own⟩ := Table.mem_select.mp mem
      obtain rfl : M = L := by simpa using own
      exact found
    · exact fun found => ⟨((L, key), row), Table.mem_select.mpr ⟨found, by simp⟩, rfl, rfl⟩
  refine Option.ext fun v => ?_
  rw [settingsBody, Value.get_object, get_foldl_insert_nil (fun row : Setting =>
    .object [("value", row.value), ("version", .ofInt row.version)]) _ key fun r r' mem mem' =>
      Option.some.inj (((rows r).mp mem).symm.trans ((rows r').mp mem'))]
  simp only [rows, Option.map_eq_some_iff, eq_comm (a := v)]

/-- Every named setting is stored, and no other. -/
theorem find?_storeSettings {fields : Members} (once : fields.Once) (key : String) :
    (Database.edits L n d (fields.map fun entry => .storeSetting entry.1 entry.2)).setting.find?
        (L, key) =
      ((Members.get fields key).map fun entry => ⟨n, (settingValue entry).toJsonb⟩).or
        (d.setting.find? (L, key)) := by
  induction fields generalizing d with
  | nil => rfl
  | cons field fields ih =>
      obtain ⟨name, entry⟩ := field
      obtain ⟨absent, once⟩ := List.nodup_cons.mp once
      refine (ih once).trans ?_
      rw [Database.edit, Table.find?_put, Members.get]
      by_cases same : name = key
      · subst same
        have none : Members.get fields name = none :=
          Option.not_isSome_iff_eq_none.mp fun has => absent (mem_names_of_get has)
        simp [none]
      · simp [same, Ne.symm same]

/-- A body that names no settings changes nothing. -/
theorem writeSettings_run_empty {body : Value} (empty : body.asObject.all List.isEmpty)
    (expected : Option Int) :
    (GuardedOp.program L expected (.writeSettings body)).run d =
      (d.library.find? L).map fun row => (d, .drop (.change
        (if expected.any (· ≠ row.version) then .conflict row.version
          else .done row.version))) := by
  simp only [GuardedOp.program, writeSettings, empty, if_true, endingWith, Txn.run_bind,
    noChange_eq]
  cases d.library.find? L <;> rfl

theorem alone_empty {digests : Digests} {config : Config} {body : Value}
    (empty : body.asObject.all List.isEmpty) (expected : Option Int) :
    (Request.guarded L expected (.writeSettings body)).alone digests config d =
      ((d.library.find? L).map fun row => .change
        (if expected.any (· ≠ row.version) then .conflict row.version else .done row.version),
          d) := by
  rw [Request.alone, Request.program, writeSettings_run_empty empty]
  rcases Option.eq_none_or_eq_some (d.library.find? L) with absent | ⟨row, found⟩
  · rw [absent]
    rfl
  · rw [found]
    rfl

/-- Any other is answered with success when it is committed only. -/
theorem writeSettings_drop {body : Value} (named : ¬ body.asObject.all List.isEmpty)
    {expected : Option Int} {d' : Database} {a : Reply}
    (h : (GuardedOp.program L expected (.writeSettings body)).run d = some (d', .drop a)) :
    a.doneVersion = none := by
  have undone : DropsUndone (GuardedOp.program L expected (.writeSettings body)) := by
    simp only [GuardedOp.program, writeSettings, named, Bool.false_eq_true, if_false]
    exact dropsUndone_endingWith
      (ends_guarded (fun n => ends_undone ends_writeSettingsFrom) fun n => ⟨_, rfl, rfl⟩)
  exact Txn.ends_of_run undone h a rfl

end Settings

section Answer
variable {digests : Digests} {config : Config} {access : LibraryAccess} {headers : Params}
  {body : Option Value} {d d' : Database} {n : Int}

theorem settingsWrite_ok {r : Request} (h : Handlers.settingsWrite access headers body = .ok r) :
    ∃ expected, ifUnmodified headers = some expected ∧
      r = .guarded access.libraryId (some expected) (.writeSettings (body.getD (.object []))) := by
  simp only [Handlers.settingsWrite, precondition] at h
  cases guard : ifUnmodified headers with
  | none =>
      rw [guard] at h
      cases h
  | some expected =>
      rw [guard] at h
      change (if _ then _ else _) = _ at h
      split at h
      · cases h
      · exact ⟨expected, rfl, (Except.ok.inj h).symm⟩

/-- A success is a run of the store: a commit, or a write of no settings. -/
theorem settingsAnswer_done
    (h : settingsAnswer digests config access headers body d = (some n, d')) :
    ∃ expected, ifUnmodified headers = some expected ∧
      ((body.getD (.object [])).asObject.all List.isEmpty ∧ d' = d ∨
        ∃ a, (GuardedOp.program access.libraryId (some expected)
          (.writeSettings (body.getD (.object [])))).run d = some (d', .commit a) ∧
            a.doneVersion = some n) := by
  rw [settingsAnswer] at h
  cases made : Handlers.settingsWrite access headers body with
  | error refusal =>
      rw [made] at h
      cases h
  | ok r =>
      obtain ⟨expected, guard, rfl⟩ := settingsWrite_ok made
      refine ⟨expected, guard, ?_⟩
      simp only [made, Request.alone, Request.program] at h
      split at h
      · rename_i d₁ a committed
        obtain ⟨version, rfl⟩ := Prod.mk.inj h
        exact .inr ⟨a, committed, version⟩
      · rename_i d₁ a dropped
        obtain ⟨version, rfl⟩ := Prod.mk.inj h
        refine .inl ⟨?_, rfl⟩
        by_contra named
        rw [Option.bind_some, writeSettings_drop named dropped] at version
        cases version
      · cases h

/-- What a body that is no object is answered. -/
theorem settingsAnswer_other (other : ∀ fields, body ≠ some (.object fields)) :
    settingsAnswer digests config access headers body d =
      (if (d.library.find? access.libraryId).isSome ∧
          ifUnmodified headers = some (d.version access.libraryId) then
        some (d.version access.libraryId) else none, d) := by
  have unnamed : (body.getD (.object [])).asObject.getD [] = [] ∧
      (body.getD (.object [])).asObject.all List.isEmpty := by
    cases body with
    | none => exact ⟨rfl, rfl⟩
    | some v =>
        cases v with
        | object fields => exact absurd rfl (other fields)
        | _ => exact ⟨rfl, rfl⟩
  rw [settingsAnswer]
  cases guard : ifUnmodified headers with
  | none => simp [Handlers.settingsWrite, precondition, guard, bind, Except.bind]
  | some expected =>
      have made : Handlers.settingsWrite access headers body = .ok (.guarded access.libraryId
          (some expected) (.writeSettings (body.getD (.object [])))) := by
        simp [Handlers.settingsWrite, precondition, guard, bind, Except.bind, unnamed.1,
          Handlers.groupAdminSettingDenied, pure, Except.pure]
      simp only [made, alone_empty unnamed.2, Database.version]
      rcases Option.eq_none_or_eq_some (d.library.find? access.libraryId) with absent | ⟨row, found⟩
      · simp [absent]
      · by_cases current : expected = row.version <;> simp [found, current, Reply.doneVersion]

/-- What a committed write of settings has stored is read back. -/
theorem settings_read_back {L : LibraryId} {expected : Option Int} {fields : Members} {a : Reply}
    (once : fields.Once)
    (h : (GuardedOp.program L expected (.writeSettings (.object fields))).run d =
      some (d', .commit a)) (key : String) :
    (settingsBody (Sql.eval (.settings L) d')).get key =
      ((Members.get fields key).map fun entry => .object [("value", (settingValue entry).toJsonb),
        ("version", .ofInt (d.version L + 1))]).or
          ((settingsBody (Sql.eval (.settings L) d)).get key) := by
  obtain ⟨⟨-, -, after⟩, -, -⟩ := guarded_run h
  have stored := find?_storeSettings (L := L) (n := d.version L + 1)
    (d := d.setVersion L (d.version L + 1)) once key
  rw [get_settingsBody, get_settingsBody, after]
  refine (congrArg (Option.map _) stored).trans ?_
  rw [Database.setVersion_setting]
  cases Members.get fields key <;> rfl

end Answer

end Xotero
