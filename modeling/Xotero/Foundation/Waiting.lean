import Mathlib.Order.Defs.PartialOrder
import Xotero.Foundation.Txn

/-!
Transactions that take their row locks one by one and keep them to their end. A
statement asks for its locks in the order it meets the rows and goes on once it
has them all; what it then reads is any state in which the rows it answers from
are locked, so no order of commits is left out.

A program `Climbs` when every lock it asks for is one it has, or lies in the
shelter of a row that it has locked for update, or comes after all others it has
in one order of the rows. Then nobody waits in a circle
(`Contest.never_circular`).
-/

/-- A transaction under way: the locks it has, and those that the statement it
has begun still asks for. -/
structure Requesting (D : Interface) (ρ α : Type) where
  prog : Txn D α
  held : List (RowLock ρ)
  wants : Option (List (RowLock ρ))

abbrev Contest (D : Interface) (ρ α ι : Type) := ι → Option (Requesting D ρ α)

namespace Contest
variable {D : Interface} {ρ α ι : Type} [DecidableEq ι] {w w' : Contest D ρ α ι}

def set (w : Contest D ρ α ι) (c : ι) (x : Option (Requesting D ρ α)) : Contest D ρ α ι :=
  fun c' => if c' = c then x else w c'

@[simp] theorem set_same (w : Contest D ρ α ι) (c : ι) (x : Option (Requesting D ρ α)) :
    w.set c x c = x := if_pos rfl

theorem set_other (w : Contest D ρ α ι) {c c' : ι} (x : Option (Requesting D ρ α)) (ne : c' ≠ c) :
    w.set c x c' = w c' := if_neg ne

@[simp] theorem set_set (w : Contest D ρ α ι) (c : ι) (x y : Option (Requesting D ρ α)) :
    (w.set c x).set c y = w.set c y := by
  funext c'
  by_cases h : c' = c <;> simp [set, h]

theorem of_set_none {c c' : ι} {x : Requesting D ρ α} (here : w.set c none c' = some x) :
    w c' = some x := by
  unfold set at here
  split at here
  · cases here
  · exact here

/-- `programs` are those that may begin, and `requests` the locks a statement
asks for. -/
inductive Step (programs : Txn D α → Prop) (requests : D.Stmt → D.State → List (RowLock ρ)) :
    Contest D ρ α ι → Contest D ρ α ι → Prop where
  | start {w : Contest D ρ α ι} (c : ι) {p : Txn D α} (one : programs p) (idle : w c = none) :
      Step programs requests w (w.set c (some ⟨p, [], none⟩))
  | ask {w : Contest D ρ α ι} {c : ι} {q : D.Stmt} {next : D.Result q → Txn D α}
      {held : List (RowLock ρ)} (here : w c = some ⟨.query q next, held, none⟩) (s : D.State) :
      Step programs requests w (w.set c (some ⟨.query q next, held, some (requests q s)⟩))
  | take {w : Contest D ρ α ι} {c : ι} {p : Txn D α} {held ls : List (RowLock ρ)} {l : RowLock ρ}
      (here : w c = some ⟨p, held, some (l :: ls)⟩)
      (free : ∀ c' x, c' ≠ c → w c' = some x → ∀ l' ∈ x.held, ¬ l.Conflicts l') :
      Step programs requests w (w.set c (some ⟨p, held ++ [l], some ls⟩))
  | answer {w : Contest D ρ α ι} {c : ι} {q : D.Stmt} {next : D.Result q → Txn D α}
      {held : List (RowLock ρ)} (here : w c = some ⟨.query q next, held, some []⟩) (s : D.State)
      (locked : requests q s ⊆ held) :
      Step programs requests w (w.set c (some ⟨next (D.eval q s), held, none⟩))
  | stop {w : Contest D ρ α ι} (c : ι) : Step programs requests w (w.set c none)

/-- What can come about when nobody is under way at first. -/
def Reachable (programs : Txn D α → Prop) (requests : D.Stmt → D.State → List (RowLock ρ))
    (w : Contest D ρ α ι) : Prop :=
  Relation.ReflTransGen (Step programs requests) (fun _ => none) w

section Reachable
variable {programs : Txn D α → Prop} {requests : D.Stmt → D.State → List (RowLock ρ)} {c : ι}

/-- A transaction begins, and asks for its first locks. -/
theorem Reachable.begin {q : D.Stmt} {next : D.Result q → Txn D α}
    (h : Reachable programs requests w) (one : programs (.query q next)) (idle : w c = none)
    (s : D.State) :
    Reachable programs requests (w.set c (some ⟨.query q next, [], some (requests q s)⟩)) := by
  have started := Relation.ReflTransGen.tail h (.start c one idle)
  have asked := Relation.ReflTransGen.tail started (.ask (set_same _ _ _) s)
  rwa [set_set] at asked

/-- It takes the next one. -/
theorem Reachable.take {p : Txn D α} {held ls : List (RowLock ρ)} {l : RowLock ρ}
    (h : Reachable programs requests (w.set c (some ⟨p, held, some (l :: ls)⟩)))
    (free : ∀ c' x, c' ≠ c → w c' = some x → ∀ l' ∈ x.held, ¬ l.Conflicts l') :
    Reachable programs requests (w.set c (some ⟨p, held ++ [l], some ls⟩)) := by
  have took := Relation.ReflTransGen.tail h (.take (set_same _ _ _) fun c' x ne here =>
    free c' x ne ((set_other w _ ne).symm.trans here))
  rwa [set_set] at took

end Reachable

/-- The lock that comes next. -/
def Asks (w : Contest D ρ α ι) (c : ι) (l : RowLock ρ) : Prop :=
  ∃ p held ls, w c = some ⟨p, held, some (l :: ls)⟩

/-- It is in conflict with one that the second has. -/
def Waits (w : Contest D ρ α ι) (c c' : ι) : Prop :=
  c ≠ c' ∧ ∃ l, w.Asks c l ∧ ∃ x, w c' = some x ∧ ∃ l' ∈ x.held, l.Conflicts l'

end Contest

/-! ### Programs that climb -/

/-- An order of the rows, and for some of them another one whose update lock is
taken first. -/
structure LockOrder (ρ α : Type) where
  rank : ρ → α
  shelter : ρ → Option ρ

namespace LockOrder
variable {D : Interface} {ρ α β : Type} [Preorder α] (O : LockOrder ρ α)

/-- The lock is in hand, or no other can have it. -/
def Sheltered (held : List (RowLock ρ)) (l : RowLock ρ) : Prop :=
  ⟨l.row, .update⟩ ∈ held ∨ ∃ k, O.shelter l.row = some k ∧ ⟨k, .update⟩ ∈ held

/-- The lock comes after those in hand. -/
def After (held : List (RowLock ρ)) (l : RowLock ρ) : Prop :=
  O.shelter l.row = none ∧ ∀ h ∈ held, O.shelter h.row = none → O.rank h.row < O.rank l.row

/-- One lock after the other. -/
def Ascending (held : List (RowLock ρ)) : List (RowLock ρ) → Prop
  | [] => True
  | l :: ls => (O.Sheltered held l ∨ O.After held l) ∧ Ascending (held ++ [l]) ls

/-- Whatever the statements see, the locks are taken in order, and those in hand
at the end are as `Q` says. -/
def Climbs (requests : D.Stmt → D.State → List (RowLock ρ)) (Q : β → List (RowLock ρ) → Prop) :
    Txn D β → List (RowLock ρ) → Prop
  | .ret a, held => Q a held
  | .fail, _ => True
  | .query q next, held => ∀ s, O.Ascending held (requests q s) ∧
      ∀ s', requests q s' ⊆ held ++ requests q s →
        Climbs requests Q (next (D.eval q s')) (held ++ requests q s)

section Rules
variable {O} {requests : D.Stmt → D.State → List (RowLock ρ)} {held held' ls : List (RowLock ρ)}
  {l : RowLock ρ}

omit [Preorder α] in
theorem Sheltered.mono (h : O.Sheltered held l) (sub : held ⊆ held') : O.Sheltered held' l := by
  rcases h with own | ⟨k, shelter, locked⟩
  · exact .inl (sub own)
  · exact .inr ⟨k, shelter, sub locked⟩

theorem ascending_of_sheltered (h : ∀ l ∈ ls, O.Sheltered held l) : O.Ascending held ls := by
  induction ls generalizing held with
  | nil => trivial
  | cons l ls ih =>
      obtain ⟨first, rest⟩ := List.forall_mem_cons.mp h
      exact ⟨.inl first, ih fun l mem => (rest l mem).mono (List.subset_append_left _ _)⟩

theorem ascending_of_sorted (free : ∀ l ∈ ls, O.After held l)
    (sorted : ls.Pairwise fun l l' => O.rank l.row < O.rank l'.row) : O.Ascending held ls := by
  induction ls generalizing held with
  | nil => trivial
  | cons l ls ih =>
      obtain ⟨first, rest⟩ := List.forall_mem_cons.mp free
      obtain ⟨below, sorted⟩ := List.pairwise_cons.mp sorted
      refine ⟨.inr first, ih (fun l' mem => ⟨(rest l' mem).1, fun h here unsheltered => ?_⟩) sorted⟩
      rcases List.mem_append.mp here with before | now
      · exact (rest l' mem).2 h before unsheltered
      · obtain rfl := List.mem_singleton.mp now
        exact below l' mem

variable {Q Q' : β → List (RowLock ρ) → Prop} {p : Txn D β}

theorem Climbs.imp (h : O.Climbs requests Q p held) (post : ∀ a held, Q a held → Q' a held) :
    O.Climbs requests Q' p held := by
  induction p generalizing held with
  | ret a => exact post a held h
  | fail => trivial
  | query q next ih => exact fun s => ⟨(h s).1, fun s' locked => ih _ ((h s).2 s' locked)⟩

theorem Climbs.bind {γ : Type} {Q : γ → List (RowLock ρ) → Prop} {f : β → Txn D γ}
    (h : O.Climbs requests (fun a held => O.Climbs requests Q (f a) held) p held) :
    O.Climbs requests Q (p >>= f) held := by
  induction p generalizing held with
  | ret a => exact h
  | fail => trivial
  | query q next ih => exact fun s => ⟨(h s).1, fun s' locked => ih _ ((h s).2 s' locked)⟩

end Rules

end LockOrder

/-! ### Nobody waits in a circle -/

namespace Contest
variable {D : Interface} {ρ α ι κ : Type} [DecidableEq ι] [Preorder κ] {O : LockOrder ρ κ}
  {programs : Txn D α → Prop} {requests : D.Stmt → D.State → List (RowLock ρ)}
  {w w' : Contest D ρ α ι}

/-- The transaction has sheltered what it holds, and what it has before it
climbs. -/
structure Kept (O : LockOrder ρ κ) (requests : D.Stmt → D.State → List (RowLock ρ))
    (x : Requesting D ρ α) : Prop where
  sheltered : ∀ h ∈ x.held, ∀ k, O.shelter h.row = some k → ⟨k, .update⟩ ∈ x.held
  rest : x.wants = none → O.Climbs requests (fun _ _ => True) x.prog x.held
  begun : ∀ ls, x.wants = some ls → O.Ascending x.held ls ∧ ∃ q next, x.prog = .query q next ∧
    ∀ s, requests q s ⊆ x.held ++ ls →
      O.Climbs requests (fun _ _ => True) (next (D.eval q s)) (x.held ++ ls)

structure Orderly (O : LockOrder ρ κ) (requests : D.Stmt → D.State → List (RowLock ρ))
    (w : Contest D ρ α ι) : Prop where
  kept : ∀ c x, w c = some x → Kept O requests x
  apart : ∀ c c' x x', c ≠ c' → w c = some x → w c' = some x' →
    ∀ l ∈ x.held, ∀ l' ∈ x'.held, ¬ l.Conflicts l'

/-- One transaction has moved. -/
theorem Orderly.set (h : Orderly O requests w) {c : ι} {y : Requesting D ρ α}
    (kept : Kept O requests y)
    (apart : ∀ c' x, c' ≠ c → w c' = some x → ∀ l ∈ y.held, ∀ l' ∈ x.held, ¬ l.Conflicts l') :
    Orderly O requests (w.set c (some y)) := by
  refine ⟨fun c' x here => ?_, fun c₁ c₂ x₁ x₂ ne here₁ here₂ l mem l' mem' => ?_⟩
  · unfold Contest.set at here
    split at here
    · obtain rfl := Option.some.inj here
      exact kept
    · exact h.kept c' x here
  · unfold Contest.set at here₁ here₂
    split at here₁
    · rename_i same₁
      obtain rfl := Option.some.inj here₁
      rw [if_neg fun same₂ => ne (same₁.trans same₂.symm)] at here₂
      exact apart c₂ x₂ (fun same₂ => ne (same₁.trans same₂.symm)) here₂ l mem l' mem'
    · rename_i ne₁
      split at here₂
      · obtain rfl := Option.some.inj here₂
        exact fun conflict => apart c₁ x₁ ne₁ here₁ l' mem' l mem conflict.symm
      · exact h.apart c₁ c₂ x₁ x₂ ne here₁ here₂ l mem l' mem'

/-- A transaction that holds what it held. -/
theorem Orderly.stay (h : Orderly O requests w) {c : ι} {x y : Requesting D ρ α}
    (here : w c = some x) (same : y.held = x.held) (kept : Kept O requests y) :
    Orderly O requests (w.set c (some y)) :=
  h.set kept fun c' x' ne there l mem l' mem' =>
    h.apart c c' x x' (Ne.symm ne) here there l (same ▸ mem) l' mem'

theorem Step.orderly (h : Orderly O requests w)
    (climbs : ∀ p, programs p → O.Climbs requests (fun _ _ => True) p [])
    (step : Step programs requests w w') : Orderly O requests w' := by
  cases step with
  | start c one idle =>
      refine h.set ⟨nofun, fun _ => climbs _ one, nofun⟩ nofun
  | @ask c q next held here s =>
      have kept := h.kept c _ here
      refine h.stay here rfl ⟨kept.sheltered, nofun, ?_⟩
      rintro _ ⟨⟩
      exact ⟨(kept.rest rfl s).1, q, next, rfl, (kept.rest rfl s).2⟩
  | @take c p held ls l here free =>
      have kept := h.kept c _ here
      obtain ⟨⟨first, later⟩, q, next, prog, rest⟩ := kept.begun _ rfl
      refine h.set ⟨fun l' mem k shelter => ?_, nofun, ?_⟩ fun c' x ne there l' mem l'' mem'' => ?_
      · rcases List.mem_append.mp mem with before | now
        · exact List.mem_append_left _ (kept.sheltered l' before k shelter)
        · obtain rfl := List.mem_singleton.mp now
          rcases first with (own | ⟨k', shelter', locked⟩) | ⟨free, -⟩
          · exact List.mem_append_left _ (kept.sheltered _ own k shelter)
          · obtain rfl := Option.some.inj (shelter.symm.trans shelter')
            exact List.mem_append_left _ locked
          · cases shelter.symm.trans free
      · rintro _ ⟨⟩
        refine ⟨later, q, next, prog, fun s locked => ?_⟩
        simpa using rest s (by simpa using locked)
      · rcases List.mem_append.mp mem with before | now
        · exact h.apart c c' _ x (Ne.symm ne) here there l' before l'' mem''
        · obtain rfl := List.mem_singleton.mp now
          exact free c' x ne there l'' mem''
  | @answer c q next held here s locked =>
      have kept := h.kept c _ here
      obtain ⟨-, q', next', same, rest⟩ := kept.begun _ rfl
      obtain ⟨rfl, rfl⟩ := Txn.query.inj same
      refine h.stay here rfl ⟨kept.sheltered, fun _ => ?_, nofun⟩
      simpa using rest s (by simpa using locked)
  | stop c =>
      refine ⟨fun c' x here => ?_, fun c₁ c₂ x₁ x₂ ne here₁ here₂ => ?_⟩
      · exact h.kept c' x (of_set_none here)
      · exact h.apart c₁ c₂ x₁ x₂ ne (of_set_none here₁) (of_set_none here₂)

theorem orderly_of_reachable (climbs : ∀ p, programs p → O.Climbs requests (fun _ _ => True) p [])
    (h : Reachable programs requests w) : Orderly O requests w := by
  induction h with
  | refl => exact ⟨nofun, nofun⟩
  | tail _ step ih => exact step.orderly ih climbs

omit [DecidableEq ι] in
/-- Who waits asks for a lock that comes after all that it holds. -/
theorem Orderly.after (h : Orderly O requests w) {c c' : ι} (waits : w.Waits c c')
    {x : Requesting D ρ α} {l : RowLock ρ} {ls : List (RowLock ρ)} (here : w c = some x)
    (asks : x.wants = some (l :: ls)) : O.After x.held l := by
  obtain ⟨ne, m, ⟨p, held, ms, here'⟩, x', there, l', mem, conflict⟩ := waits
  obtain rfl := Option.some.inj (here.symm.trans here')
  obtain ⟨rfl, rfl⟩ := List.cons.inj (Option.some.inj asks)
  have exclusive {k : ρ} (locked : ⟨k, .update⟩ ∈ held) {m : RowLock ρ} (same : k = m.row) :
      m ∉ x'.held := fun locked' =>
    h.apart c c' _ x' ne here there _ locked _ locked' ⟨same, .inl rfl⟩
  rcases ((h.kept c _ here).begun _ rfl).1.1 with (own | ⟨k, shelter, locked⟩) | after
  · exact absurd mem (exclusive own conflict.1)
  · have locked' := (h.kept c' x' there).sheltered l' mem k (conflict.1 ▸ shelter)
    exact absurd locked' (exclusive locked rfl)
  · exact after

omit [DecidableEq ι] in
/-- Along the waits, the locks asked for go up. -/
theorem Orderly.rises (h : Orderly O requests w) {c c' c'' : ι} (waits : w.Waits c c')
    (waits' : w.Waits c' c'') {l m : RowLock ρ} (asks : w.Asks c l) (asks' : w.Asks c' m) :
    O.rank l.row < O.rank m.row := by
  have ⟨_, l₀, ⟨p, held, ls, here⟩, x', there, l', mem, conflict⟩ := waits
  obtain ⟨p₁, held₁, ls₁, here₁⟩ := asks
  obtain ⟨p', held', ms, there'⟩ := asks'
  obtain ⟨-, -, same⟩ := Requesting.mk.inj (Option.some.inj (here.symm.trans here₁))
  obtain ⟨rfl, -⟩ := List.cons.inj (Option.some.inj same)
  obtain rfl := Option.some.inj (there.symm.trans there')
  have free : O.shelter l'.row = none := conflict.1 ▸ (h.after waits here rfl).1
  rw [conflict.1]
  exact (h.after waits' there rfl).2 l' mem free

/-- Nobody waits in a circle. -/
theorem never_circular (climbs : ∀ p, programs p → O.Climbs requests (fun _ _ => True) p [])
    (h : Reachable programs requests w) (c : ι) : ¬ Relation.TransGen w.Waits c c := by
  have orderly := orderly_of_reachable climbs h
  have rises {c c' : ι} (path : Relation.TransGen w.Waits c c') {c'' : ι} (waits : w.Waits c' c'')
      {l m : RowLock ρ} (asks : w.Asks c l) (asks' : w.Asks c' m) :
        O.rank l.row < O.rank m.row := by
    induction path generalizing c'' m with
    | single first => exact orderly.rises first waits asks asks'
    | tail _ last ih =>
        obtain ⟨-, n, between, -⟩ := id last
        exact lt_trans (ih last between) (orderly.rises last waits between asks')
  intro circle
  obtain ⟨c', waits, -⟩ := Relation.TransGen.head'_iff.mp circle
  obtain ⟨-, l, asks, -⟩ := id waits
  exact lt_irrefl _ (rises circle waits asks asks)

end Contest
