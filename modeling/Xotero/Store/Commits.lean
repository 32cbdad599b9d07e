import Xotero.Store.Server

/-!
Every commit of every interleaving, by what it does: a guarded operation does
its edits to the state it commits to, a registration its compare-and-swap.
-/

namespace Xotero

open Txn (ScopedStmt)

/-! Guarded operations stay inside their library -/

section Avoids
variable {L : LibraryId}

theorem avoids_writeObject {kind : ObjectKind} {allow : Bool} {n : Int} {key : String}
    {provided : Value} :
    (writeObject L kind allow n key provided).Avoids (Sql.Leaves L) := by
  refine Txn.avoids_bind (avoids_home rfl) fun existing => Txn.avoids_ite trivial ?_
  refine Txn.avoids_bind (avoids_home rfl) fun _ => ?_
  refine Txn.avoids_bind (Txn.avoids_when (avoids_home rfl)) fun _ => ?_
  exact Txn.avoids_bind (avoids_home rfl) fun _ => trivial

theorem avoids_writeFrom {kind : ObjectKind} {allow : Bool} {random : Nat → Fin 8 → UInt8}
    {n : Int} {index : Nat} {batch : List Value} {successful : Members} :
    (writeFrom L kind allow random n index batch successful).Avoids (Sql.Leaves L) := by
  induction batch generalizing index successful with
  | nil => trivial
  | cons provided batch ih =>
      refine Txn.avoids_bind avoids_writeObject fun stored => ?_
      cases stored with
      | none => trivial
      | some object => exact ih

theorem avoids_deleteObject {kind : ObjectKind} {allow : Bool} {n : Int} {key : String} :
    (deleteObject L kind allow n key).Avoids (Sql.Leaves L) := by
  refine Txn.avoids_bind ?_ fun denied => Txn.avoids_ite trivial ?_
  · exact Txn.avoids_ite (Txn.avoids_bind (avoids_home rfl) fun _ => trivial) trivial
  · refine Txn.avoids_bind (avoids_home rfl) fun _ => ?_
    refine Txn.avoids_bind (Txn.avoids_when (avoids_home rfl)) fun _ => ?_
    exact Txn.avoids_bind (avoids_home rfl) fun _ => trivial

theorem avoids_deleteFrom {kind : ObjectKind} {allow : Bool} {n : Int} {keys : List String} :
    (deleteFrom L kind allow n keys).Avoids (Sql.Leaves L) := by
  induction keys with
  | nil => trivial
  | cons key keys ih =>
      exact Txn.avoids_bind avoids_deleteObject fun allowed => Txn.avoids_ite ih trivial

theorem avoids_writeSettingsFrom {n : Int} {entries : Members} :
    (writeSettingsFrom L n entries).Avoids (Sql.Leaves L) := by
  induction entries with
  | nil => trivial
  | cons entry entries ih => exact Txn.avoids_bind (avoids_home rfl) fun _ => ih

theorem avoids_deleteSettingsFrom {n : Int} {keys : List String} :
    (deleteSettingsFrom L n keys).Avoids (Sql.Leaves L) := by
  induction keys with
  | nil => trivial
  | cons key keys ih =>
      exact Txn.avoids_bind (avoids_home rfl) fun _ =>
        Txn.avoids_bind (avoids_home rfl) fun _ => ih

theorem avoids_deleteTagsFrom {n : Int} {tags : List String} :
    (deleteTagsFrom L n tags).Avoids (Sql.Leaves L) := by
  induction tags with
  | nil => trivial
  | cons tag tags ih =>
      exact Txn.avoids_bind (avoids_home rfl) fun _ =>
        Txn.avoids_bind (avoids_home rfl) fun _ => ih

theorem avoids_writeFulltextFrom {n : Int} {index : Nat} {batch : List Value}
    {successful : Members} :
    (writeFulltextFrom L n index batch successful).Avoids (Sql.Leaves L) := by
  induction batch generalizing index successful with
  | nil => trivial
  | cons item batch ih => exact Txn.avoids_bind (avoids_home rfl) fun _ => ih

end Avoids

/-- What a guarded program is: no transaction, or one that begins with the lock
of its library and stays inside it. -/
inductive GuardedShape {β : Type} (L : LibraryId) (expected : Option Int) :
    Txn Db (Ending β) → Prop where
  | unchanged {f : Outcome Int → Txn Db (Ending β)}
      (drops : ∀ o, ∃ b, f o = pure (.drop b)) :
      GuardedShape L expected (noChange L expected >>= f)
  | locked {f : Outcome Int → Txn Db (Ending β)}
      (inside : ∀ o, (f o).Scoped [RowId.library L]) :
      GuardedShape L expected (guardedVersion L expected >>= f)

namespace GuardedShape
variable {β : Type} {L : LibraryId} {expected : Option Int} {p q : Txn Db (Ending β)}

theorem ite {c : Prop} [Decidable c] (hp : GuardedShape L expected p)
    (hq : GuardedShape L expected q) : GuardedShape L expected (if c then p else q) := by
  split
  · exact hp
  · exact hq

theorem endingWith {f : β → Reply} (h : GuardedShape L expected p) :
    GuardedShape L expected (endingWith f p) := by
  cases h with
  | unchanged drops =>
      rw [Xotero.endingWith, Txn.bind_assoc]
      refine .unchanged fun o => ?_
      obtain ⟨b, hb⟩ := drops o
      exact ⟨f b, by rw [hb]; rfl⟩
  | locked inside =>
      rw [Xotero.endingWith, Txn.bind_assoc]
      exact .locked fun o => Txn.scoped_bind (inside o) fun _ => trivial

end GuardedShape

theorem guardedShape (L : LibraryId) (expected : Option Int) (op : GuardedOp) :
    GuardedShape L expected (op.program L expected) := by
  cases op with
  | write kind batch allow random =>
      refine .endingWith (.ite (.unchanged fun o => ?_) (.locked fun o => ?_))
      · cases o <;> exact ⟨_, rfl⟩
      · cases o with
        | done version => exact scoped_of_avoids avoids_writeFrom
        | conflict current => trivial
  | delete kind keys allow =>
      refine .endingWith (.ite (.unchanged fun o => ?_) (.locked fun o => ?_))
      · cases o <;> exact ⟨_, rfl⟩
      · cases o with
        | done version => exact scoped_of_avoids avoids_deleteFrom
        | conflict current => trivial
  | writeSettings body =>
      refine .endingWith (.ite (.unchanged fun o => ⟨_, rfl⟩) (.locked fun o => ?_))
      cases o with
      | done version => exact scoped_of_avoids avoids_writeSettingsFrom
      | conflict current => trivial
  | deleteSettings keys =>
      refine .endingWith (.ite (.unchanged fun o => ⟨_, rfl⟩) (.locked fun o => ?_))
      cases o with
      | done version => exact scoped_of_avoids avoids_deleteSettingsFrom
      | conflict current => trivial
  | deleteTags tags =>
      refine .endingWith (.ite (.unchanged fun o => ⟨_, rfl⟩) (.locked fun o => ?_))
      cases o with
      | done version => exact scoped_of_avoids avoids_deleteTagsFrom
      | conflict current => trivial
  | writeFulltext batch =>
      refine .endingWith (.ite (.unchanged fun o => ?_) (.locked fun o => ?_))
      · cases o <;> exact ⟨_, rfl⟩
      · cases o with
        | done version => exact scoped_of_avoids avoids_writeFulltextFrom
        | conflict current => trivial

theorem avoids_noChange {S : Sql → Prop} (L : LibraryId) (expected : Option Int)
    (h : ¬ S (.libraryVersion L)) : (noChange L expected).Avoids S := by
  refine Txn.avoids_bind ?_ fun current => Txn.avoids_ite trivial trivial
  exact Txn.avoids_bind (avoids_execute h) fun _ => avoids_fetchOne

theorem avoids_guardedVersion (L : LibraryId) (expected : Option Int) :
    (guardedVersion L expected).Avoids (Sql.Leaves L) := by
  refine Txn.avoids_bind (avoids_home rfl) fun row => ?_
  refine Txn.avoids_bind avoids_fetchOne fun current => Txn.avoids_ite trivial ?_
  exact Txn.avoids_bind (avoids_home rfl) fun _ => trivial

/-- A guarded program stays with its library. -/
theorem avoids_program (L : LibraryId) (expected : Option Int) (op : GuardedOp) :
    (op.program L expected).Avoids (Sql.Leaves L) := by
  have guarded {α : Type} {c : Prop} [Decidable c] {f : α → Reply}
      {g h : Outcome Int → Txn Db (Ending α)} (drops : ∀ o, (g o).Avoids (Sql.Leaves L))
      (inside : ∀ o, (h o).Avoids (Sql.Leaves L)) :
      (endingWith f
        (if c then noChange L expected >>= g else guardedVersion L expected >>= h)).Avoids
        (Sql.Leaves L) := by
    refine Txn.avoids_bind (Txn.avoids_ite ?_ ?_) fun _ => trivial
    · exact Txn.avoids_bind (avoids_noChange L expected fun leaves => leaves rfl) drops
    · exact Txn.avoids_bind (avoids_guardedVersion L expected) inside
  cases op with
  | write kind batch allow random =>
      exact guarded (fun o => by cases o <;> trivial) fun o => by
        cases o with
        | done version => exact avoids_writeFrom
        | conflict current => trivial
  | delete kind keys allow =>
      exact guarded (fun o => by cases o <;> trivial) fun o => by
        cases o with
        | done version => exact avoids_deleteFrom
        | conflict current => trivial
  | writeSettings body =>
      exact guarded (fun _ => trivial) fun o => by
        cases o with
        | done version => exact avoids_writeSettingsFrom
        | conflict current => trivial
  | deleteSettings keys =>
      exact guarded (fun _ => trivial) fun o => by
        cases o with
        | done version => exact avoids_deleteSettingsFrom
        | conflict current => trivial
  | deleteTags tags =>
      exact guarded (fun _ => trivial) fun o => by
        cases o with
        | done version => exact avoids_deleteTagsFrom
        | conflict current => trivial
  | writeFulltext batch =>
      exact guarded (fun o => by cases o <;> trivial) fun o => by
        cases o with
        | done version => exact avoids_writeFulltextFrom
        | conflict current => trivial

/-! Read-only parts -/

theorem readOnly_noChange (L : LibraryId) (expected : Option Int) :
    (noChange L expected).ReadOnly := by
  refine Txn.readOnly_bind ?_ fun current => Txn.readOnly_ite trivial trivial
  exact Txn.readOnly_bind (readOnly_execute fun _ => rfl) fun _ => readOnly_fetchOne

theorem scoped_guardedVersion (L : LibraryId) (expected : Option Int) :
    (guardedVersion L expected).Scoped [RowId.library L] :=
  scoped_of_avoids (avoids_guardedVersion L expected)

/-- The guard is a locking statement, and an error when there is no library. -/
theorem guardedVersion_bind {β : Type} (L : LibraryId) (expected : Option Int)
    (f : Outcome Int → Txn Db β) :
    ∃ next : Option Int → Txn Db β,
      guardedVersion L expected >>= f = Txn.query (D := Db) (.libraryForUpdate L) next ∧
        next none = .fail :=
  ⟨_, rfl, rfl⟩

theorem locks_or_fails {α : Type} {next : Option Int → Txn Db α} (failed : next none = .fail)
    (L : LibraryId) (d : Database) :
    ⟨.library L, .update⟩ ∈ Sql.locks (.libraryForUpdate L) d ∨
      next (Sql.eval (.libraryForUpdate L) d) = .fail := by
  cases hr : d.library.find? L with
  | none => exact .inr (by simpa [Sql.eval, hr] using failed)
  | some row => exact .inl (by simp [Sql.locks, hr])

namespace GuardedShape
variable {β : Type} {L : LibraryId} {expected : Option Int} {p : Txn Db (Ending β)}

theorem disciplined (h : GuardedShape L expected p) : p.Disciplined (fun _ _ => True) [] := by
  cases h with
  | unchanged drops =>
      refine Txn.disciplined_imp (Txn.disciplined_of_readOnly ?_) fun _ _ _ => trivial
      refine Txn.readOnly_bind (readOnly_noChange L expected) fun o => ?_
      obtain ⟨b, hb⟩ := drops o
      rw [hb]
      trivial
  | @locked f inside =>
      obtain ⟨next, same, failed⟩ := guardedVersion_bind L expected f
      have all := Txn.scoped_bind (scoped_guardedVersion L expected) inside
      rw [same] at all ⊢
      intro v
      refine ⟨by simp [Sql.writes], ?_⟩
      cases locks_or_fails failed L v with
      | inl lock =>
          refine Txn.disciplined_of_scoped (all.2 _) fun k hk => ?_
          obtain rfl := List.mem_singleton.mp hk
          simpa using lock
      | inr failed =>
          rw [failed]
          trivial

/-- A commit of a guarded program is its run alone on the state it commits to. -/
theorem ensures {A : Sql → Database → Prop} (h : GuardedShape L expected p) (s : Database) :
    Ensures (D := Db) A (fun e _ log s => ∀ a, e = .commit a → p.collect [] s = some (log, e))
      p [] [] s := by
  cases h with
  | @unchanged f drops =>
      have never : (noChange L expected >>= f).Ends fun e => ∀ a : β, e ≠ Ending.commit a := by
        refine Txn.ends_bind (Txn.ends_true _) fun o _ => ?_
        obtain ⟨b, hb⟩ := drops o
        rw [hb]
        exact fun a same => nomatch same
      exact (Ensures.of_ends never [] [] s).imp fun e _ _ _ never a same => absurd same (never a)
  | @locked f inside =>
      obtain ⟨next, same, failed⟩ := guardedVersion_bind L expected f
      have all := Txn.scoped_bind (scoped_guardedVersion L expected) inside
      rw [same] at all ⊢
      refine (Ensures.of_locked all (fun _ => rfl) fun d => ?_).imp
        fun e _ log s collected a _ => collected
      exact (locks_or_fails failed L d).imp (fun lock => ⟨_, lock⟩) id

end GuardedShape

end Xotero
