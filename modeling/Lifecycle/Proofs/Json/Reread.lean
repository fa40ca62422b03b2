import Lifecycle.Proofs.Json.Exact
import Lifecycle.Proofs.Json.FloatText

/-!
# What the text of a value is read as

The text of a value is always read as a value again (`Value.WellFormed.exists_reread`).
Floats may come back as other numbers, but the shape stays, so the text of a document
nests as deep as the document (`Document.levels_reread`).
-/

namespace Lifecycle.Json

open Document

theorem Number.levels_reread (n : Number) : n.reread.levels = 0 := by
  cases n with
  | integer => rfl
  | float x =>
    rw [reread]
    cases floatNumeral? x with
    | none => rfl
    | some numeral => cases hvalue : numeral.value? <;> simp [hvalue, Document.levels]

/-- The text of a number is read as a number, or as null when there is no numeral. -/
theorem Number.exists_reread (n : Number) : ∃ v : Value, v.WellFormed ∧ ofValue v = n.reread := by
  have hne := n.reread_ne_unreadable
  cases n with
  | integer n => exact ⟨.number (.integer n), trivial, rfl⟩
  | float x =>
    rw [reread] at hne ⊢
    cases hnumeral : floatNumeral? x with
    | none => exact ⟨.null, trivial, rfl⟩
    | some numeral =>
      cases hvalue : numeral.value? with
      | none => simp [hnumeral, hvalue] at hne
      | some n => exact ⟨.number n, trivial, by simp [hvalue, ofValue]⟩

namespace Document

mutual

/-- The text of a document nests as deep as the document. -/
theorem levels_reread (d : Document) : d.reread.levels = d.levels := by
  match d with
  | .null | .bool _ | .string _ | .unreadable => rfl
  | .number n => exact n.levels_reread
  | .array items => rw [reread, levels, levels, levelsOfItems_reread items]
  | .object members => rw [reread, levels, levels, levelsOfMembers_reread members]

theorem levelsOfItems_reread (items : List Document) :
    levelsOfItems (rereadItems items) = levelsOfItems items := by
  match items with
  | [] => rfl
  | item :: items =>
    rw [rereadItems, levelsOfItems, levelsOfItems, levels_reread item, levelsOfItems_reread items]

theorem levelsOfMembers_reread (members : List (String × Document)) :
    levelsOfMembers (rereadMembers members) = levelsOfMembers members := by
  match members with
  | [] => rfl
  | (key, value) :: members =>
    rw [rereadMembers, levelsOfMembers, levelsOfMembers, levels_reread value,
      levelsOfMembers_reread members]

end

/-- The members that are set are read one by one. -/
theorem reread_ofPresent (members : List (String × Option Document)) :
    (ofPresent members).reread =
      ofPresent (members.map fun member => (member.1, member.2.map reread)) := by
  rw [ofPresent, ofPresent, reread, rereadMembers_eq, List.map_filterMap, List.filterMap_map]
  congr 2
  funext member
  obtain ⟨key, d⟩ := member
  cases d <;> rfl

end Document

namespace Value

mutual

/-- The text of a well-formed value is read as a well-formed value. -/
theorem WellFormed.exists_reread {v : Value} (h : v.WellFormed) :
    ∃ w : Value, w.WellFormed ∧ ofValue w = (ofValue v).reread := by
  match v with
  | .null => exact ⟨.null, trivial, rfl⟩
  | .bool b => exact ⟨.bool b, trivial, rfl⟩
  | .string s => exact ⟨.string s, trivial, rfl⟩
  | .number n => exact n.exists_reread
  | .array items =>
    obtain ⟨others, hothers, heq⟩ := exists_rereadItems h
    exact ⟨.array others, hothers, by rw [ofValue, ofValue, reread, heq]⟩
  | .object members =>
    obtain ⟨others, hothers, hkeys, heq⟩ := exists_rereadMembers h.2
    refine ⟨.object others, ⟨?_, hothers⟩, by rw [ofValue, ofValue, reread, heq]⟩
    have hascending : (members.map (·.1)).Pairwise (· < ·) := List.pairwise_map.mpr h.1
    rw [← hkeys] at hascending
    exact List.pairwise_map.mp hascending

theorem exists_rereadItems {items : List Value} (h : WellFormedItems items) :
    ∃ others, WellFormedItems others ∧ ofItems others = rereadItems (ofItems items) := by
  match items with
  | [] => exact ⟨[], trivial, rfl⟩
  | item :: items =>
    obtain ⟨first, hfirst, heq⟩ := WellFormed.exists_reread h.1
    obtain ⟨others, hothers, heqs⟩ := exists_rereadItems h.2
    exact ⟨first :: others, ⟨hfirst, hothers⟩, by rw [ofItems, ofItems, rereadItems, heq, heqs]⟩

theorem exists_rereadMembers {members : List (String × Value)} (h : WellFormedMembers members) :
    ∃ others, WellFormedMembers others ∧ others.map (·.1) = members.map (·.1) ∧
      Document.ofMembers others = rereadMembers (Document.ofMembers members) := by
  match members with
  | [] => exact ⟨[], trivial, rfl, rfl⟩
  | (key, value) :: members =>
    obtain ⟨first, hfirst, heq⟩ := WellFormed.exists_reread h.1
    obtain ⟨others, hothers, hkeys, heqs⟩ := exists_rereadMembers h.2
    refine ⟨(key, first) :: others, ⟨hfirst, hothers⟩, ?_, ?_⟩
    · rw [List.map_cons, List.map_cons, hkeys]
    · rw [Document.ofMembers, Document.ofMembers, rereadMembers, heq, heqs]

end

end Value

end Lifecycle.Json
