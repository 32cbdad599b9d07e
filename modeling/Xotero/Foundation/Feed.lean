import Mathlib.Logic.Relation

/-!
A replicated collection whose rows carry the version of the change that last
touched them. `Feed` also keeps a tombstone for every removed key; `Listing`
has only the rows. One committed change moves the version up and stamps every
key it touches with the new version. From that alone follow the exactness of an
incremental copy and the safety of a cursor read while changes go on.
-/

structure Feed (κ δ : Type) where
  version : Int
  live : κ → Option (Int × δ)
  dead : κ → Option Int

namespace Feed
variable {κ δ : Type}

/-- What became of one key between two states: left alone, stored with stamp
`n`, or removed with a tombstone stamped `n`. -/
inductive Touched (n : Int) (f g : Feed κ δ) (k : κ) : Prop where
  | kept (live : g.live k = f.live k) (dead : g.dead k = f.dead k)
  | stored (d : δ) (live : g.live k = some (n, d)) (dead : g.dead k = none)
  | removed (live : g.live k = none) (dead : g.dead k = some n)

/-- One committed change. -/
def Change (f g : Feed κ δ) : Prop :=
  f.version < g.version ∧ ∀ k, Touched g.version f g k

/-- Any number of committed changes, seen from their two ends. -/
def Advance (f g : Feed κ δ) : Prop :=
  f.version ≤ g.version ∧
    ∀ k, (g.live k = f.live k ∧ g.dead k = f.dead k) ∨
      ∃ n, f.version < n ∧ n ≤ g.version ∧ Touched n f g k

structure Ok (f : Feed κ δ) : Prop where
  live_le : ∀ {k n d}, f.live k = some (n, d) → n ≤ f.version
  dead_le : ∀ {k n}, f.dead k = some n → n ≤ f.version
  disjoint : ∀ {k r}, f.live k = some r → f.dead k = none

theorem Touched.trans {n : Int} {f g h : Feed κ δ} {k : κ} (fg : Touched n f g k)
    (gh : Touched n g h k) : Touched n f h k := by
  cases gh with
  | stored d live dead => exact .stored d live dead
  | removed live dead => exact .removed live dead
  | kept live dead =>
      cases fg with
      | kept live' dead' => exact .kept (live.trans live') (dead.trans dead')
      | stored d live' dead' => exact .stored d (live.trans live') (dead.trans dead')
      | removed live' dead' => exact .removed (live.trans live') (dead.trans dead')

/-- A key that is live has no tombstone after a change if it had none before. -/
theorem Touched.disjoint {n : Int} {f g : Feed κ δ} {k : κ} (h : Touched n f g k)
    (before : ∀ r, f.live k = some r → f.dead k = none) :
    ∀ r, g.live k = some r → g.dead k = none := by
  intro r hk
  cases h with
  | kept live dead => exact dead.trans (before r (live ▸ hk))
  | stored d live dead => exact dead
  | removed live dead => simp [live] at hk

theorem Advance.refl (f : Feed κ δ) : Advance f f :=
  ⟨Int.le_refl _, fun _ => .inl ⟨rfl, rfl⟩⟩

theorem Change.advance {f g : Feed κ δ} (h : Change f g) : Advance f g :=
  ⟨Int.le_of_lt h.1, fun k => .inr ⟨g.version, h.1, Int.le_refl _, h.2 k⟩⟩

theorem Advance.trans {f g h : Feed κ δ} (fg : Advance f g) (gh : Advance g h) :
    Advance f h := by
  refine ⟨Int.le_trans fg.1 gh.1, fun k => ?_⟩
  -- A key the later part leaves alone keeps whatever the earlier part did to it.
  have older (live : h.live k = g.live k) (dead : h.dead k = g.dead k) :
      (h.live k = f.live k ∧ h.dead k = f.dead k) ∨
        ∃ n, f.version < n ∧ n ≤ h.version ∧ Touched n f h k := by
    rcases fg.2 k with ⟨live', dead'⟩ | ⟨n, lo, hi, t⟩
    · exact .inl ⟨live.trans live', dead.trans dead'⟩
    · exact .inr ⟨n, lo, Int.le_trans hi gh.1, t.trans (.kept live dead)⟩
  rcases gh.2 k with ⟨live, dead⟩ | ⟨n, lo, hi, t⟩
  · exact older live dead
  · cases t with
    | kept live dead => exact older live dead
    | stored d live dead =>
        exact .inr ⟨n, Int.lt_of_le_of_lt fg.1 lo, hi, .stored d live dead⟩
    | removed live dead =>
        exact .inr ⟨n, Int.lt_of_le_of_lt fg.1 lo, hi, .removed live dead⟩

theorem Ok.advance {f g : Feed κ δ} (h : Ok f) (a : Advance f g) : Ok g where
  live_le {k n d} hk := by
    rcases a.2 k with ⟨live, -⟩ | ⟨m, -, hi, t⟩
    · exact Int.le_trans (h.live_le (live ▸ hk)) a.1
    · cases t with
      | kept live dead => exact Int.le_trans (h.live_le (live ▸ hk)) a.1
      | stored d' live dead =>
          obtain ⟨rfl, -⟩ := Prod.mk.inj (Option.some.inj (live.symm.trans hk))
          exact hi
      | removed live dead => simp [live] at hk
  dead_le {k n} hk := by
    rcases a.2 k with ⟨-, dead⟩ | ⟨m, -, hi, t⟩
    · exact Int.le_trans (h.dead_le (dead ▸ hk)) a.1
    · cases t with
      | kept live dead => exact Int.le_trans (h.dead_le (dead ▸ hk)) a.1
      | stored d' live dead => simp [dead] at hk
      | removed live dead =>
          obtain rfl := Option.some.inj (dead.symm.trans hk)
          exact hi
  disjoint {k r} hk := by
    rcases a.2 k with ⟨live, dead⟩ | ⟨m, -, -, t⟩
    · exact dead.trans (h.disjoint (live ▸ hk))
    · exact t.disjoint (fun r => h.disjoint) r hk

/-- The feed of what is shown of each row. -/
def map {ε : Type} (f : Feed κ δ) (view : δ → ε) : Feed κ ε where
  version := f.version
  live k := (f.live k).map fun r => (r.1, view r.2)
  dead := f.dead

theorem Touched.map {ε : Type} {n : Int} {f g : Feed κ δ} {k : κ} (h : Touched n f g k)
    (view : δ → ε) : Touched n (f.map view) (g.map view) k := by
  cases h with
  | kept live dead => exact .kept (by simp only [Feed.map, live]) dead
  | stored d live dead =>
      exact .stored (view d) (by simp only [Feed.map, live, Option.map_some]) dead
  | removed live dead => exact .removed (by simp only [Feed.map, live, Option.map_none]) dead

theorem Advance.map {ε : Type} {f g : Feed κ δ} (h : Advance f g) (view : δ → ε) :
    Advance (f.map view) (g.map view) := by
  refine ⟨h.1, fun k => ?_⟩
  rcases h.2 k with ⟨live, dead⟩ | ⟨n, lo, hi, t⟩
  · exact .inl ⟨by simp only [Feed.map, live], dead⟩
  · exact .inr ⟨n, lo, hi, t.map view⟩

theorem Ok.map {ε : Type} {f : Feed κ δ} (h : Ok f) (view : δ → ε) : Ok (f.map view) where
  live_le {k n e} hk := by
    obtain ⟨r, hr, same⟩ := Option.map_eq_some_iff.mp hk
    obtain ⟨rfl, -⟩ := Prod.mk.inj same
    exact h.live_le (k := k) (d := r.2) hr
  dead_le hk := h.dead_le hk
  disjoint {k e} hk := by
    obtain ⟨r, hr, -⟩ := Option.map_eq_some_iff.mp hk
    exact h.disjoint hr

/-- A copy of the rows brought up to date: tombstones above `since` are
removed, then rows stamped above `since` are put in. -/
def sync (g : Feed κ δ) (since : Int) (copy : κ → Option (Int × δ)) :
    κ → Option (Int × δ) := fun k =>
  match (g.live k).filter (since < ·.1) with
  | some r => some r
  | none => if (g.dead k).any (since < ·) then none else copy k

/-- An exact copy brought up to date from its own version is exact again. -/
theorem sync_exact {f g : Feed κ δ} (ok : Ok f) (a : Advance f g) :
    g.sync f.version f.live = g.live := by
  funext k
  unfold sync
  -- A key left alone has no stamp above `f.version`, live or dead.
  have kept (live : g.live k = f.live k) (dead : g.dead k = f.dead k) :
      (match (g.live k).filter (f.version < ·.1) with
        | some r => some r
        | none => if (g.dead k).any (f.version < ·) then none else f.live k) = g.live k := by
    have old : (f.live k).filter (f.version < ·.1) = none := by
      cases hl : f.live k with
      | none => rfl
      | some r => simpa [Option.filter] using ok.live_le (k := k) (n := r.1) (d := r.2) hl
    have quiet : (f.dead k).any (f.version < ·) = false := by
      cases hd : f.dead k with
      | none => rfl
      | some n => simpa using ok.dead_le hd
    rw [live, dead, old, quiet]
    rfl
  rcases a.2 k with ⟨live, dead⟩ | ⟨n, lo, -, t⟩
  · exact kept live dead
  · cases t with
    | kept live dead => exact kept live dead
    | stored d live dead => simp [live, Option.filter, lo]
    | removed live dead => simp [live, dead, lo]

end Feed

/-! Listings: rows without tombstones -/

structure Listing (κ : Type) where
  version : Int
  live : κ → Option Int

namespace Listing
variable {κ σ : Type}

/-- One committed change, or one that leaves the version and the rows alone.
A touched row carries the new version; a removed row leaves no trace. -/
inductive Step (f g : Listing κ) : Prop where
  | same (version : g.version = f.version) (live : ∀ k, g.live k = f.live k)
  | change (version : f.version < g.version)
      (live : ∀ k, g.live k = f.live k ∨ g.live k = some g.version ∨ g.live k = none)

theorem Step.version_le {f g : Listing κ} (h : Step f g) : f.version ≤ g.version := by
  cases h with
  | same version _ => exact version ▸ Int.le_refl _
  | change version _ => exact Int.le_of_lt version

/-- A row with a version above `since` is, after any number of changes, either
still there above `since` or was dropped by one of them. -/
theorem cursor {R : σ → σ → Prop} {f : σ → Listing κ} (step : ∀ s t, R s t → Step (f s) (f t))
    {s t : σ} (h : Relation.ReflTransGen R s t) {since : Int} {k : κ} {n : Int}
    (bound : ∀ k n, (f s).live k = some n → n ≤ (f s).version)
    (here : (f s).live k = some n) (above : since < n) :
    (∃ n', (f t).live k = some n' ∧ since < n') ∨
      ∃ u v, R u v ∧ (f u).live k ≠ none ∧ (f v).live k = none ∧
        (f s).version < (f v).version := by
  have current : since < (f s).version := Int.lt_of_lt_of_le above (bound k n here)
  have increases {u : σ} (h : Relation.ReflTransGen R s u) : (f s).version ≤ (f u).version := by
    induction h with
    | refl => exact Int.le_refl _
    | tail _ last ih => exact Int.le_trans ih (step _ _ last).version_le
  induction h with
  | refl => exact .inl ⟨n, here, above⟩
  | @tail u v before last ih =>
      cases ih with
      | inr dropped => exact .inr dropped
      | inl listed =>
          obtain ⟨n', live, above'⟩ := listed
          cases step u v last with
          | same _ same => exact .inl ⟨n', (same k).trans live, above'⟩
          | change version touched =>
              have later := Int.lt_of_le_of_lt (increases before) version
              rcases touched k with kept | stored | removed
              · exact .inl ⟨n', kept.trans live, above'⟩
              · exact .inl ⟨_, stored, Int.lt_trans current later⟩
              · exact .inr ⟨u, v, last, by simp [live], removed, later⟩

end Listing
