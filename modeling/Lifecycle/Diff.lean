/-!
# Differences between two versions

Gates of update steps compare a desired model with the one it replaces. Where
there is nothing to replace, everything counts as changed. Lists that stand for
sets are compared without regard to order and repetition.
-/

namespace Lifecycle.Diff

variable {M α : Type}

/-- Whether one aspect of the model changed. -/
def valueChanged [BEq α] (aspect : M → α) (desired : M) (previous : Option M) : Bool :=
  match previous with
  | none => true
  | some previous => aspect desired != aspect previous

/-- Whether two lists have the same elements. -/
def sameElements [BEq α] (a b : List α) : Bool := a.all b.contains && b.all a.contains

/-- The elements of the first list that the second one lacks, in order. -/
def missing [BEq α] (a b : List α) : List α := a.filter fun x => !b.contains x

/-- Whether two lists that may be unset have the same elements; unset is like no list at all, not
even the empty one. -/
def sameElements? [BEq α] : Option (List α) → Option (List α) → Bool
  | none, none => true
  | some a, some b => sameElements a b
  | _, _ => false

/-- Two lists compare equal exactly when they have the same elements. -/
theorem sameElements_iff [BEq α] [LawfulBEq α] {a b : List α} :
    sameElements a b = true ↔ ∀ x, x ∈ a ↔ x ∈ b := by
  simp only [sameElements, Bool.and_eq_true, List.all_eq_true, List.contains_iff_mem]
  exact ⟨fun h x => ⟨h.1 x, h.2 x⟩, fun h => ⟨fun x => (h x).mp, fun x => (h x).mpr⟩⟩

/-- What the second list lacks is in the first list and not in the second. -/
theorem mem_missing [BEq α] [LawfulBEq α] {a b : List α} {x : α} :
    x ∈ missing a b ↔ x ∈ a ∧ x ∉ b := by
  simp [missing]

end Lifecycle.Diff
