/-!
Steps that end in a result or in an error: what it means for a sequence of them to end in
a result.
-/

namespace Except
variable {ε α β : Type} {a : α} {b : β}

theorem bind_eq_ok {x : Except ε α} {f : α → Except ε β} :
    (x >>= f) = .ok b ↔ ∃ a, x = .ok a ∧ f a = .ok b := by
  cases x with
  | error e => exact ⟨fun h => (nomatch h), fun ⟨_, h, _⟩ => (nomatch h)⟩
  | ok a => exact ⟨fun h => ⟨a, rfl, h⟩, fun ⟨_, same, h⟩ => Except.ok.inj same ▸ h⟩

theorem pure_eq_ok {a' : α} : (pure a : Except ε α) = .ok a' ↔ a' = a :=
  ⟨fun same => (Except.ok.inj same).symm, fun same => same ▸ rfl⟩

end Except
