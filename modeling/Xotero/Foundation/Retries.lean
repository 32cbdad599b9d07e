import Mathlib

/-!
Attempts at the members of a pool that grows, turn after turn. What has been attempted is left
alone for a span of time, so that the turns of one span attempt different members. A turn is
left with nothing to attempt if each member has had a turn of its own within the span, or,
where the turns attempt as many members as they may, if their quotas make up the pool.
-/

namespace Retries
variable {α : Type} {due : ℕ → ℤ} {span : ℤ} {i j k m limit : ℕ} {known : ℕ → ℕ}

section Quota
variable (due span)

/-- The turns before a turn that are at most the span away from it. -/
def earlier (k : ℕ) : Finset ℕ := {j ∈ Finset.range k | due k ≤ due j + span}

@[simp] theorem mem_earlier : j ∈ earlier due span k ↔ j < k ∧ due k ≤ due j + span := by
  rw [earlier, Finset.mem_filter, Finset.mem_range]

/-- What a turn may attempt of the members that are known to it, if every turn attempts as
many as it may and no attempt succeeds. -/
def quota (limit : ℕ) (known : ℕ → ℕ) (k : ℕ) : ℤ :=
  min (limit : ℤ) (known k - ∑ j ∈ (earlier due span k).attach, quota limit known j)
termination_by k
decreasing_by exact ((mem_earlier due span).mp j.2).1

theorem quota_eq (limit : ℕ) (known : ℕ → ℕ) (k : ℕ) : quota due span limit known k =
    min (limit : ℤ) (known k - ∑ j ∈ earlier due span k, quota due span limit known j) := by
  rw [quota, Finset.sum_attach (earlier due span k) (quota due span limit known)]

end Quota

/-! ### When turns come close together -/

section Windows
variable (mono : Monotone due)
include mono

theorem earlier_upward (before : i ∈ earlier due span k) (after : i ≤ j) (within : j < k) :
    j ∈ earlier due span k := by
  rw [mem_earlier] at before ⊢
  have later := mono after
  exact ⟨within, by omega⟩

theorem earlier_downward (before : i ∈ earlier due span k) (after : i < j) (within : j ≤ k) :
    i ∈ earlier due span j := by
  rw [mem_earlier] at before ⊢
  have sooner := mono within
  exact ⟨after, by omega⟩

/-- As many turns are close before a turn as there are between it and the first of them. -/
theorem le_card_earlier (spans : 0 ≤ span) :
    m ≤ (earlier due span k).card ↔ m ≤ k ∧ due k ≤ due (k - m) + span := by
  constructor
  · intro many
    have fits : m ≤ k := many.trans ((Finset.card_filter_le _ _).trans (Finset.card_range k).le)
    refine ⟨fits, ?_⟩
    cases m with
    | zero => simpa using spans
    | succ m =>
        by_contra apart
        have late : earlier due span k ⊆ Finset.Ico (k - m) k := by
          intro j before
          have ⟨within, _⟩ := (mem_earlier due span).mp before
          refine Finset.mem_Ico.mpr ⟨?_, within⟩
          by_contra early
          have here := earlier_upward mono before (by omega : j ≤ k - (m + 1)) (by omega)
          exact apart ((mem_earlier due span).mp here).2
        have few := Finset.card_le_card late
        rw [Nat.card_Ico] at few
        omega
  · rintro ⟨fits, close⟩
    have all : Finset.Ico (k - m) k ⊆ earlier due span k := by
      intro j between
      rw [Finset.mem_Ico] at between
      rw [mem_earlier]
      have later := mono between.1
      exact ⟨between.2, by omega⟩
    have many := Finset.card_le_card all
    rw [Nat.card_Ico] at many
    omega

theorem exists_le_card_earlier (spans : 0 ≤ span) :
    (∃ k, m ≤ (earlier due span k).card) ↔ ∃ a, due (a + m) ≤ due a + span := by
  simp only [le_card_earlier mono spans]
  constructor
  · rintro ⟨k, fits, close⟩
    exact ⟨k - m, by rwa [Nat.sub_add_cancel fits]⟩
  · rintro ⟨a, close⟩
    exact ⟨a + m, Nat.le_add_left m a, by rwa [Nat.add_sub_cancel]⟩

/-- If one turn may attempt every member, the next one within the span has none left. -/
theorem exists_quota_le (few : m ≤ limit) (some : 0 < m) (steady : ∀ k, known k = m) :
    (∃ k, quota due span limit known k ≤ 0) ↔ ∃ a, due (a + 1) ≤ due a + span := by
  have full (k : ℕ) (apart : earlier due span k = ∅) : quota due span limit known k = m := by
    rw [quota_eq, apart, Finset.sum_empty, sub_zero, steady]
    omega
  constructor
  · intro ⟨k, idle⟩
    by_contra apart
    push Not at apart
    have alone : earlier due span k = ∅ := by
      refine Finset.eq_empty_of_forall_notMem fun j before => ?_
      have ⟨within, close⟩ := (mem_earlier due span).mp before
      have next := apart j
      have later : due (j + 1) ≤ due k := mono within
      omega
    rw [full k alone] at idle
    omega
  · intro close
    -- the first turn that comes within the span of the turn before it
    have found := Nat.find_spec close
    have first (j : ℕ) (sooner : j < Nat.find close) := Nat.find_min close sooner
    generalize Nat.find close = a at found first
    have alone : earlier due span a = ∅ := by
      refine Finset.eq_empty_of_forall_notMem fun j before => ?_
      have ⟨within, close⟩ := (mem_earlier due span).mp before
      have later : due (j + 1) ≤ due a := mono within
      exact first j within (by omega)
    have one : a ∈ earlier due span (a + 1) :=
      (mem_earlier due span).mpr ⟨Nat.lt_succ_self a, found⟩
    have only : earlier due span (a + 1) = {a} := by
      refine Finset.eq_singleton_iff_unique_mem.mpr ⟨one, fun j before => ?_⟩
      have within := ((mem_earlier due span).mp before).1
      by_contra other
      have again := earlier_downward mono before (by omega : j < a) (Nat.le_succ a)
      rw [alone] at again
      cases again
    refine ⟨a + 1, ?_⟩
    rw [quota_eq, only, Finset.sum_singleton, full a alone, steady]
    omega

end Windows

/-! ### What the turns attempt -/

variable [DecidableEq α] {pool alive attempts : ℕ → Finset α}

/-- What a turn finds of the pool apart from what some turns have attempted. -/
def remaining (pool alive attempts : ℕ → Finset α) (turns : Finset ℕ) (k : ℕ) : Finset α :=
  (pool k ∩ alive k) \ turns.biUnion attempts

/-- What a turn finds of the pool that has been left alone. -/
def free (due : ℕ → ℤ) (span : ℤ) (pool alive attempts : ℕ → Finset α) (k : ℕ) : Finset α :=
  remaining pool alive attempts (earlier due span k) k

/-- The pool grows, members only go, and a turn attempts what has been left alone. -/
structure Turns (due : ℕ → ℤ) (span : ℤ) (pool alive attempts : ℕ → Finset α) : Prop where
  mono : Monotone due
  grows : Monotone pool
  only_go : Antitone alive
  within : ∀ k, attempts k ⊆ free due span pool alive attempts k

namespace Turns
variable (turns : Turns due span pool alive attempts)
include turns

theorem subset_pool (k : ℕ) : attempts k ⊆ pool k :=
  (turns.within k).trans (Finset.sdiff_subset.trans Finset.inter_subset_left)

theorem recent_subset_pool (k : ℕ) : (earlier due span k).biUnion attempts ⊆ pool k := by
  refine Finset.biUnion_subset.mpr fun j before => ?_
  have within := ((mem_earlier due span).mp before).1
  exact (turns.subset_pool j).trans (turns.grows within.le)

theorem disjoint (before : j ∈ earlier due span k) : Disjoint (attempts j) (attempts k) := by
  refine Finset.disjoint_left.mpr fun x first again => ?_
  exact (Finset.mem_sdiff.mp (turns.within k again)).2 (Finset.mem_biUnion.mpr ⟨j, before, first⟩)

theorem card_recent (k : ℕ) : ((earlier due span k).biUnion attempts).card =
    ∑ j ∈ earlier due span k, (attempts j).card := by
  refine Finset.card_biUnion fun i here j there apart => ?_
  wlog sooner : i < j
  · exact (this turns k j there i here apart.symm (by omega)).symm
  have within := ((mem_earlier due span).mp there).1
  exact turns.disjoint (earlier_downward turns.mono here sooner within.le)

/-- A turn that attempts something leaves more members than there were turns before it. -/
theorem card_earlier_lt (busy : ∀ j ≤ k, (attempts j).Nonempty) :
    (earlier due span k).card < (pool k).card := by
  obtain ⟨x, attempted⟩ := busy k (Nat.le_refl k)
  have free := (Finset.mem_sdiff.mp (turns.within k attempted)).2
  calc (earlier due span k).card
      ≤ ∑ j ∈ earlier due span k, (attempts j).card := by
        rw [Finset.card_eq_sum_ones]
        refine Finset.sum_le_sum fun j before => ?_
        exact (busy j ((mem_earlier due span).mp before).1.le).card_pos
    _ = ((earlier due span k).biUnion attempts).card := (turns.card_recent k).symm
    _ < (pool k).card := Finset.card_lt_card
        (Finset.ssubset_iff_of_subset (turns.recent_subset_pool k) |>.mpr
          ⟨x, turns.subset_pool k attempted, free⟩)

end Turns

/-- One member for each turn that the turns of its span before it leave alone. -/
noncomputable def pick [Nonempty α] (due : ℕ → ℤ) (span : ℤ) (pool : ℕ → Finset α) (k : ℕ) : α :=
  Classical.epsilon fun x =>
    x ∈ pool k ∧ ∀ j, (before : j ∈ earlier due span k) → pick due span pool j ≠ x
termination_by k
decreasing_by exact ((mem_earlier due span).mp before).1

theorem pick_spec [Nonempty α] (many : ∀ k, (earlier due span k).card < (pool k).card) (k : ℕ) :
    pick due span pool k ∈ pool k ∧
      ∀ j ∈ earlier due span k, pick due span pool j ≠ pick due span pool k := by
  have left : ∃ x, x ∈ pool k ∧ ∀ j ∈ earlier due span k, pick due span pool j ≠ x := by
    have few : ((earlier due span k).image (pick due span pool)).card < (pool k).card :=
      Finset.card_image_le.trans_lt (many k)
    obtain ⟨x, member, other⟩ := Finset.exists_mem_notMem_of_card_lt_card few
    refine ⟨x, member, fun j before same => ?_⟩
    exact other (Finset.mem_image.mpr ⟨j, before, same⟩)
  have chosen := Classical.epsilon_spec left
  rwa [← pick] at chosen

/-! ### Turns that attempt as many as they may -/

/-- A turn attempts all it finds, up to the limit. -/
structure FullTurns (limit : ℕ) (due : ℕ → ℤ) (span : ℤ) (pool alive attempts : ℕ → Finset α) :
    Prop extends Turns due span pool alive attempts where
  card : ∀ k, (attempts k).card = min limit (free due span pool alive attempts k).card

namespace FullTurns
variable (turns : FullTurns limit due span pool alive attempts)
include turns

/-- If no attempt succeeds, every turn has its quota. -/
theorem card_eq (stay : ∀ j ≤ k, pool j ⊆ alive j) :
    ((attempts k).card : ℤ) = quota due span limit (fun j => (pool j).card) k := by
  induction k using Nat.strong_induction_on with
  | _ k ih =>
      have same : free due span pool alive attempts k =
          pool k \ (earlier due span k).biUnion attempts := by
        rw [free, remaining, Finset.inter_eq_left.mpr (stay k (Nat.le_refl k))]
      have before : (((earlier due span k).biUnion attempts).card : ℤ) =
          ∑ j ∈ earlier due span k, quota due span limit (fun j => (pool j).card) j := by
        rw [turns.card_recent, Nat.cast_sum]
        refine Finset.sum_congr rfl fun j here => ?_
        have within := ((mem_earlier due span).mp here).1
        exact ih j within fun i sooner => stay i (sooner.trans within.le)
      have fits := Finset.card_le_card (turns.recent_subset_pool k)
      rw [turns.card, same, Finset.card_sdiff_of_subset (turns.recent_subset_pool k), quota_eq,
        ← before]
      omega

theorem card_remaining_succ (recent : Finset ℕ) (j : ℕ) :
    (remaining pool alive attempts recent (j + 1)).card + (pool j).card ≤
      (pool (j + 1)).card + (remaining pool alive attempts recent j).card := by
  have step : remaining pool alive attempts recent (j + 1) ⊆
      (pool (j + 1) \ pool j) ∪ remaining pool alive attempts recent j := by
    intro x found
    rw [remaining, Finset.mem_sdiff, Finset.mem_inter] at found
    obtain ⟨⟨known, here⟩, other⟩ := found
    rw [Finset.mem_union, Finset.mem_sdiff, remaining, Finset.mem_sdiff, Finset.mem_inter]
    by_cases before : x ∈ pool j
    · exact .inr ⟨⟨before, turns.only_go (Nat.le_succ j) here⟩, other⟩
    · exact .inl ⟨known, before⟩
  have grows : pool j ⊆ pool (j + 1) := turns.grows (Nat.le_succ j)
  have most := (Finset.card_le_card step).trans (Finset.card_union_le _ _)
  have fits := Finset.card_le_card grows
  rw [Finset.card_sdiff_of_subset grows] at most
  omega

/-- A turn leaves what is over its limit, or what turns before it have attempted. -/
theorem card_remaining_insert {recent : Finset ℕ} (few : recent ⊆ earlier due span j) :
    (remaining pool alive attempts (insert j recent) j).card ≤
      max ((remaining pool alive attempts recent j).card - limit)
        (∑ i ∈ earlier due span j \ recent, (attempts i).card) := by
  have split : remaining pool alive attempts (insert j recent) j =
      remaining pool alive attempts recent j \ attempts j := by
    rw [remaining, Finset.biUnion_insert, Finset.union_comm, ← Finset.sup_eq_union,
      ← sdiff_sdiff_left]
    rfl
  have fewer : free due span pool alive attempts j ⊆ remaining pool alive attempts recent j :=
    Finset.sdiff_subset_sdiff (Finset.Subset.refl _)
      (Finset.biUnion_subset_biUnion_of_subset_left _ few)
  rw [split]
  by_cases fits : (free due span pool alive attempts j).card ≤ limit
  · have all : attempts j = free due span pool alive attempts j :=
      Finset.eq_of_subset_of_card_le (turns.within j) (by rw [turns.card, min_eq_right fits])
    have rest : remaining pool alive attempts recent j \ attempts j ⊆
        (earlier due span j \ recent).biUnion attempts := by
      intro x left
      rw [all, free, remaining, remaining, Finset.mem_sdiff, Finset.mem_sdiff,
        Finset.mem_sdiff] at left
      obtain ⟨⟨member, other⟩, before⟩ := left
      have attempted := not_not.mp fun never => before ⟨member, never⟩
      obtain ⟨i, here, attempted⟩ := Finset.mem_biUnion.mp attempted
      refine Finset.mem_biUnion.mpr ⟨i, Finset.mem_sdiff.mpr ⟨here, fun named => ?_⟩, attempted⟩
      exact other (Finset.mem_biUnion.mpr ⟨i, named, attempted⟩)
    exact (Finset.card_le_card rest).trans (Finset.card_biUnion_le.trans (le_max_right _ _))
  · have many := turns.card j
    rw [min_eq_left (Nat.le_of_not_le fits)] at many
    rw [Finset.card_sdiff_of_subset ((turns.within j).trans fewer), many]
    exact le_max_left _ _

/-- The turns that are close before a turn leave no more than their quotas do. -/
theorem card_remaining_le (before : ∀ i < k, ((attempts i).card : ℤ) ≤
      quota due span limit (fun j => (pool j).card) i) (within : j ≤ k) :
    ((remaining pool alive attempts {i ∈ earlier due span k | i < j} j).card : ℤ) ≤
      (pool j).card - ∑ i ∈ earlier due span k with i < j,
        quota due span limit (fun j => (pool j).card) i := by
  induction j with
  | zero =>
      have none : {i ∈ earlier due span k | i < 0} = ∅ := by simp
      have few : (remaining pool alive attempts ∅ 0).card ≤ (pool 0).card :=
        Finset.card_le_card (Finset.sdiff_subset.trans Finset.inter_subset_left)
      rw [none, Finset.sum_empty]
      omega
  | succ j ih =>
      have known := turns.card_remaining_succ {i ∈ earlier due span k | i < j + 1} j
      by_cases close : j ∈ earlier due span k
      · have next : {i ∈ earlier due span k | i < j + 1} =
            insert j {i ∈ earlier due span k | i < j} := by
          ext i
          simp only [Finset.mem_filter, Finset.mem_insert, Nat.lt_succ_iff_lt_or_eq]
          constructor
          · rintro ⟨here, sooner | rfl⟩
            · exact .inr ⟨here, sooner⟩
            · exact .inl rfl
          · rintro (rfl | ⟨here, sooner⟩)
            · exact ⟨close, .inr rfl⟩
            · exact ⟨here, .inl sooner⟩
        have few : {i ∈ earlier due span k | i < j} ⊆ earlier due span j := by
          intro i here
          rw [Finset.mem_filter] at here
          exact earlier_downward turns.mono here.1 here.2 (Nat.le_of_succ_le within)
        have left := turns.card_remaining_insert few
        have others : ((∑ i ∈ earlier due span j \ {i ∈ earlier due span k | i < j},
            (attempts i).card : ℕ) : ℤ) ≤
              ∑ i ∈ earlier due span j \ {i ∈ earlier due span k | i < j},
                quota due span limit (fun j => (pool j).card) i := by
          rw [Nat.cast_sum]
          refine Finset.sum_le_sum fun i here => before i ?_
          have sooner := ((mem_earlier due span).mp (Finset.mem_sdiff.mp here).1).1
          omega
        have total := Finset.sum_sdiff (f := quota due span limit fun j => (pool j).card) few
        have share := quota_eq due span limit (fun j => (pool j).card) j
        have first := ih (Nat.le_of_succ_le within)
        rw [next] at known ⊢
        rw [Finset.sum_insert (by simp)]
        omega
      · have none (n : ℕ) (soon : n ≤ j + 1) : {i ∈ earlier due span k | i < n} = ∅ := by
          refine Finset.filter_eq_empty_iff.mpr fun i here sooner => close ?_
          exact earlier_upward turns.mono here (by omega) within
        have first := ih (Nat.le_of_succ_le within)
        rw [none j (Nat.le_succ j), Finset.sum_empty] at first
        rw [none (j + 1) (Nat.le_refl _)] at known ⊢
        rw [Finset.sum_empty]
        omega

/-- No turn has more than its quota. -/
theorem card_le (k : ℕ) :
    ((attempts k).card : ℤ) ≤ quota due span limit (fun j => (pool j).card) k := by
  induction k using Nat.strong_induction_on with
  | _ k ih =>
      have few := turns.card_remaining_le ih (Nat.le_refl k)
      have all : {i ∈ earlier due span k | i < k} = earlier due span k :=
        Finset.filter_true_of_mem fun i here => ((mem_earlier due span).mp here).1
      rw [all] at few
      rw [turns.card, free, quota_eq]
      omega

end FullTurns
end Retries
