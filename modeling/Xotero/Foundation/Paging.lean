import Mathlib.Data.List.Basic

/-!
Following links from page to page. A walk goes on as long as the answers carry a
link, and there is one walk at most from a request. Over a list that is handed
out window by window it ends, and its pages make up the list.
-/

namespace Xotero

/-- Requests, their answers, and the links in the answers. -/
structure Site (Q R Λ : Type) where
  answer : Q → Option R
  link : R → Option Λ
  follow : Λ → Option Q

namespace Site
variable {Q R Λ : Type} {site : Site Q R Λ}

/-- The answers from a request on, up to the one without a link. -/
inductive Walk (site : Site Q R Λ) : Q → List R → Prop where
  | last {q : Q} {r : R} (answered : site.answer q = some r) (ends : site.link r = none) :
      Walk site q [r]
  | next {q q' : Q} {r : R} {l : Λ} {rs : List R} (answered : site.answer q = some r)
      (linked : site.link r = some l) (followed : site.follow l = some q')
      (rest : Walk site q' rs) : Walk site q (r :: rs)

theorem Walk.unique {q : Q} {rs rs' : List R} (walk : site.Walk q rs) (walk' : site.Walk q rs') :
    rs = rs' := by
  induction walk generalizing rs' with
  | last answered ends =>
      cases walk' with
      | last answered' ends' =>
          obtain rfl := Option.some.inj (answered.symm.trans answered')
          rfl
      | next answered' linked' _ _ =>
          obtain rfl := Option.some.inj (answered.symm.trans answered')
          cases ends.symm.trans linked'
  | next answered linked followed _ ih =>
      cases walk' with
      | last answered' ends' =>
          obtain rfl := Option.some.inj (answered.symm.trans answered')
          cases ends'.symm.trans linked
      | next answered' linked' followed' rest' =>
          obtain rfl := Option.some.inj (answered.symm.trans answered')
          obtain rfl := Option.some.inj (linked.symm.trans linked')
          obtain rfl := Option.some.inj (followed.symm.trans followed')
          rw [ih rest']

/-- A request for a window of `entries` gets it, with a link to the next window as
long as there is one. -/
structure Windows {α : Type} (site : Site Q R Λ) (entries : List α) (width : Nat)
    (contents : R → List α) (Asks : Nat → Q → Prop) (Shown : R → Prop) : Prop where
  positive : 0 < width
  answered : ∀ {offset : Nat} {q : Q}, Asks offset q → ∃ r, site.answer q = some r ∧ Shown r ∧
    contents r = (entries.drop offset).take width ∧
    if offset + width < entries.length then
      ∃ l q', site.link r = some l ∧ site.follow l = some q' ∧ Asks (offset + width) q'
    else site.link r = none

/-- From a window on, the walk ends and shows the rest of the list. -/
theorem Windows.walk {α : Type} {entries : List α} {width : Nat} {contents : R → List α}
    {Asks : Nat → Q → Prop} {Shown : R → Prop}
    (windows : site.Windows entries width contents Asks Shown) {offset : Nat} {q : Q}
    (asks : Asks offset q) :
    ∃ rs, site.Walk q rs ∧ rs.flatMap contents = entries.drop offset ∧ ∀ r ∈ rs, Shown r := by
  -- The entries that are left decide how long it takes.
  induction left : entries.length - offset using Nat.strongRecOn generalizing offset q with
  | ind left ih =>
      subst left
      obtain ⟨r, answered, shown, window, link⟩ := windows.answered asks
      have positive := windows.positive
      by_cases more : offset + width < entries.length
      · rw [if_pos more] at link
        obtain ⟨l, q', linked, followed, asks'⟩ := link
        obtain ⟨rs, walk, rest, all⟩ := ih _ (by omega) asks' rfl
        refine ⟨r :: rs, .next answered linked followed walk, ?_, ?_⟩
        · rw [List.flatMap_cons, rest, window, ← List.drop_drop, List.take_append_drop]
        · exact List.forall_mem_cons.mpr ⟨shown, all⟩
      · rw [if_neg more] at link
        refine ⟨[r], .last answered link, ?_, by simpa using shown⟩
        rw [List.flatMap_singleton, window, List.take_of_length_le]
        rw [List.length_drop]
        omega

end Site

end Xotero
