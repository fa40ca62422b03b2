import Lifecycle.Proofs.Json.ReadBack

/-!
# Documents that survive as text

A document without floats is read as itself. A well-formed value is read back from
its document within as many levels as the document nests, and every value that is
read from a document is well formed and nests no deeper than was allowed.
-/

namespace Lifecycle.Json

namespace Document

/-- The text of the document is read as the document itself. -/
def Exact (d : Document) : Prop := d.reread = d

theorem rereadItems_eq (items : List Document) : rereadItems items = items.map reread := by
  induction items with
  | nil => rfl
  | cons item items ih => rw [rereadItems, ih, List.map_cons]

theorem rereadMembers_eq (members : List (String × Document)) :
    rereadMembers members = members.map fun member => (member.1, member.2.reread) := by
  induction members with
  | nil => rfl
  | cons member members ih => rw [rereadMembers, ih, List.map_cons]

@[simp] theorem exact_null : null.Exact := rfl

@[simp] theorem exact_bool (b : Bool) : (bool b).Exact := rfl

@[simp] theorem exact_string (s : String) : (string s).Exact := rfl

@[simp] theorem exact_ofWord (n : UInt64) : (ofWord n).Exact := rfl

@[simp] theorem exact_array {items : List Document} :
    (array items).Exact ↔ ∀ item ∈ items, item.Exact := by
  have hmap := List.map_inj_left (l := items) (f := reread) (g := id)
  rw [List.map_id] at hmap
  rw [Exact, reread, rereadItems_eq, array.injEq]
  exact hmap

@[simp] theorem exact_object {members : List (String × Document)} :
    (object members).Exact ↔ ∀ member ∈ members, member.2.Exact := by
  have hmap := List.map_inj_left (l := members) (f := fun member => (member.1, member.2.reread))
    (g := id)
  rw [List.map_id] at hmap
  rw [Exact, reread, rereadMembers_eq, object.injEq, hmap]
  simp only [id, Exact, Prod.ext_iff, true_and]

@[simp] theorem exact_ofPresent {members : List (String × Option Document)} :
    (ofPresent members).Exact ↔ ∀ member ∈ members, ∀ d ∈ member.2, d.Exact := by
  rw [ofPresent, exact_object]
  constructor
  · intro h member hmember d hd
    exact h (member.1, d) (List.mem_filterMap.mpr ⟨member, hmember, by rw [hd]; rfl⟩)
  · intro h entry hentry
    obtain ⟨member, hmember, hset⟩ := List.mem_filterMap.mp hentry
    obtain ⟨d, hd, rfl⟩ := Option.map_eq_some_iff.mp hset
    exact h member hmember d hd

@[simp] theorem exact_orNull {document : Option Document} :
    (orNull document).Exact ↔ ∀ d ∈ document, d.Exact := by
  cases document <;> simp [orNull]

@[simp] theorem levels_null : null.levels = 0 := rfl

@[simp] theorem levels_bool (b : Bool) : (bool b).levels = 0 := rfl

@[simp] theorem levels_string (s : String) : (string s).levels = 0 := rfl

@[simp] theorem levels_ofWord (n : UInt64) : (ofWord n).levels = 0 := rfl

@[simp] theorem levels_orNull_le {document : Option Document} {n : Nat} :
    (orNull document).levels ≤ n ↔ ∀ d ∈ document, d.levels ≤ n := by
  cases document <;> simp [orNull]

theorem levelsOfItems_le {items : List Document} {n : Nat} :
    levelsOfItems items ≤ n ↔ ∀ item ∈ items, item.levels ≤ n := by
  induction items with
  | nil => simp [levelsOfItems]
  | cons item items ih => simp [levelsOfItems, ih]

theorem levelsOfMembers_le {members : List (String × Document)} {n : Nat} :
    levelsOfMembers members ≤ n ↔ ∀ member ∈ members, member.2.levels ≤ n := by
  induction members with
  | nil => simp [levelsOfMembers]
  | cons member members ih => simp [levelsOfMembers, ih]

@[simp] theorem levels_array_le {items : List Document} {n : Nat} :
    (array items).levels ≤ n + 1 ↔ ∀ item ∈ items, item.levels ≤ n := by
  rw [levels, Nat.succ_le_succ_iff, levelsOfItems_le]

@[simp] theorem levels_object_le {members : List (String × Document)} {n : Nat} :
    (object members).levels ≤ n + 1 ↔ ∀ member ∈ members, member.2.levels ≤ n := by
  rw [levels, Nat.succ_le_succ_iff, levelsOfMembers_le]

@[simp] theorem levels_ofPresent_le {members : List (String × Option Document)} {n : Nat} :
    (ofPresent members).levels ≤ n + 1 ↔ ∀ member ∈ members, ∀ d ∈ member.2, d.levels ≤ n := by
  rw [ofPresent, levels_object_le]
  constructor
  · intro h member hmember d hd
    exact h (member.1, d) (List.mem_filterMap.mpr ⟨member, hmember, by rw [hd]; rfl⟩)
  · intro h entry hentry
    obtain ⟨member, hmember, hset⟩ := List.mem_filterMap.mp hentry
    obtain ⟨d, hd, rfl⟩ := Option.map_eq_some_iff.mp hset
    exact h member hmember d hd

end Document

open Document

mutual

/-- A value without floats is read as it is written. -/
theorem Value.FloatFree.exact {v : Value} (h : v.FloatFree) : (ofValue v).Exact := by
  match v with
  | .null | .bool _ | .string _ => rfl
  | .number (.integer _) => rfl
  | .array items =>
    rw [ofValue, Exact, reread, floatFreeItems_exact h]
  | .object members =>
    rw [ofValue, Exact, reread, floatFreeMembers_exact h]

theorem Value.floatFreeItems_exact {items : List Value} (h : FloatFreeItems items) :
    rereadItems (ofItems items) = ofItems items := by
  match items with
  | [] => rfl
  | item :: items =>
    have hitem : (ofValue item).Exact := FloatFree.exact h.1
    rw [ofItems, rereadItems, hitem, floatFreeItems_exact h.2]

theorem Value.floatFreeMembers_exact {members : List (String × Value)}
    (h : FloatFreeMembers members) :
    rereadMembers (Document.ofMembers members) = Document.ofMembers members := by
  match members with
  | [] => rfl
  | (key, value) :: members =>
    have hvalue : (ofValue value).Exact := FloatFree.exact h.1
    rw [Document.ofMembers, rereadMembers, hvalue, floatFreeMembers_exact h.2]

end

mutual

/-- A well-formed value is read from its document. -/
theorem Value.WellFormed.toValue?_ofValue {v : Value} (h : v.WellFormed) {levels : Nat}
    (hlevels : (ofValue v).levels ≤ levels) : toValue? levels (ofValue v) = some v := by
  match v with
  | .null | .bool _ | .number _ | .string _ => rfl
  | .array items =>
    obtain ⟨inner, rfl⟩ : ∃ inner, levels = inner + 1 :=
      ⟨levels - 1, by rw [ofValue, Document.levels] at hlevels; omega⟩
    rw [ofValue, Document.levels, Nat.succ_le_succ_iff] at hlevels
    rw [ofValue, toValue?, toItems?_ofItems h hlevels]
    rfl
  | .object members =>
    obtain ⟨inner, rfl⟩ : ∃ inner, levels = inner + 1 :=
      ⟨levels - 1, by rw [ofValue, Document.levels] at hlevels; omega⟩
    rw [ofValue, Document.levels, Nat.succ_le_succ_iff] at hlevels
    rw [ofValue, toValue?, toMembers?_ofMembers h.2 hlevels]
    exact congrArg (some ∘ Value.object) (Entries.collect_of_ascending h.1)

theorem Value.toItems?_ofItems {items : List Value} (h : WellFormedItems items) {levels : Nat}
    (hlevels : levelsOfItems (ofItems items) ≤ levels) :
    toItems? levels (ofItems items) = some items := by
  match items with
  | [] => rfl
  | item :: items =>
    rw [ofItems, levelsOfItems, Nat.max_le] at hlevels
    rw [ofItems, toItems?, WellFormed.toValue?_ofValue h.1 hlevels.1,
      toItems?_ofItems h.2 hlevels.2]
    rfl

theorem Value.toMembers?_ofMembers {members : List (String × Value)} (h : WellFormedMembers members)
    {levels : Nat} (hlevels : levelsOfMembers (Document.ofMembers members) ≤ levels) :
    toMembers? levels (Document.ofMembers members) = some members := by
  match members with
  | [] => rfl
  | (key, value) :: members =>
    rw [Document.ofMembers, levelsOfMembers, Nat.max_le] at hlevels
    rw [Document.ofMembers, toMembers?, WellFormed.toValue?_ofValue h.1 hlevels.1,
      toMembers?_ofMembers h.2 hlevels.2]
    rfl

end

theorem Value.wellFormedMembers_iff {members : List (String × Value)} :
    WellFormedMembers members ↔ ∀ member ∈ members, member.2.WellFormed := by
  induction members with
  | nil => simp [WellFormedMembers]
  | cons member members ih => simp [WellFormedMembers, ih]

theorem Document.ofMembers_eq (members : List (String × Value)) :
    ofMembers members = members.map fun member => (member.1, ofValue member.2) := by
  induction members with
  | nil => rfl
  | cons member members ih => rw [ofMembers, ih, List.map_cons]

mutual

/-- What is read as a value is well formed and nests no deeper than it may. -/
theorem Document.wellFormed_of_toValue? {d : Document} {levels : Nat} {v : Value}
    (h : toValue? levels d = some v) : v.WellFormed ∧ (ofValue v).levels ≤ levels := by
  match d, levels with
  | .null, _ | .bool _, _ | .number _, _ | .string _, _ =>
    obtain rfl := Option.some.inj h
    exact ⟨trivial, Nat.zero_le _⟩
  | .array _, 0 | .object _, 0 | .unreadable, _ => cases h
  | .array items, inner + 1 =>
    obtain ⟨values, hvalues, rfl⟩ := Option.map_eq_some_iff.mp h
    obtain ⟨hwell, hlevels⟩ := wellFormed_of_toItems? hvalues
    rw [ofValue, Document.levels, Nat.succ_le_succ_iff]
    exact ⟨hwell, hlevels⟩
  | .object members, inner + 1 =>
    obtain ⟨values, hvalues, rfl⟩ := Option.map_eq_some_iff.mp h
    have hmembers := wellFormed_of_toMembers? hvalues
    have hcollected : ∀ member ∈ Entries.collect values,
        member.2.WellFormed ∧ (ofValue member.2).levels ≤ inner :=
      fun member hmember => hmembers member (Entries.mem_of_mem_collect hmember)
    rw [Value.ofMembers, ofValue, ofMembers_eq, levels_object_le]
    refine ⟨⟨Entries.ascending_collect _, ?_⟩, ?_⟩
    · exact Value.wellFormedMembers_iff.mpr fun member hmember => (hcollected member hmember).1
    · intro member hmember
      obtain ⟨source, hsource, rfl⟩ := List.mem_map.mp hmember
      exact (hcollected source hsource).2

theorem Document.wellFormed_of_toItems? {items : List Document} {levels : Nat}
    {values : List Value} (h : toItems? levels items = some values) :
    Value.WellFormedItems values ∧ levelsOfItems (ofItems values) ≤ levels := by
  match items with
  | [] =>
    obtain rfl := Option.some.inj h
    exact ⟨trivial, Nat.zero_le _⟩
  | item :: items =>
    simp only [toItems?, Option.bind_eq_bind, Option.bind_eq_some_iff, Option.pure_def] at h
    obtain ⟨first, hfirst, others, hothers, heq⟩ := h
    obtain rfl := Option.some.inj heq
    obtain ⟨hwell, hlevels⟩ := wellFormed_of_toValue? hfirst
    obtain ⟨hwells, hlevelsOthers⟩ := wellFormed_of_toItems? hothers
    rw [ofItems, levelsOfItems, Nat.max_le]
    exact ⟨⟨hwell, hwells⟩, hlevels, hlevelsOthers⟩

theorem Document.wellFormed_of_toMembers? {members : List (String × Document)} {levels : Nat}
    {values : List (String × Value)} (h : toMembers? levels members = some values) :
    ∀ member ∈ values, member.2.WellFormed ∧ (ofValue member.2).levels ≤ levels := by
  match members with
  | [] =>
    obtain rfl := Option.some.inj h
    exact nofun
  | (key, value) :: members =>
    simp only [toMembers?, Option.bind_eq_bind, Option.bind_eq_some_iff, Option.pure_def] at h
    obtain ⟨first, hfirst, others, hothers, heq⟩ := h
    obtain rfl := Option.some.inj heq
    rw [List.forall_mem_cons]
    exact ⟨wellFormed_of_toValue? hfirst, wellFormed_of_toMembers? hothers⟩

end

mutual

/-- A document that is read as a value nests no deeper than it may. -/
theorem Document.levels_le_of_toValue? {d : Document} {levels : Nat} {v : Value}
    (h : toValue? levels d = some v) : d.levels ≤ levels := by
  match d, levels with
  | .null, _ | .bool _, _ | .number _, _ | .string _, _ | .unreadable, _ => exact Nat.zero_le _
  | .array _, 0 | .object _, 0 => cases h
  | .array items, inner + 1 =>
    obtain ⟨values, hvalues, _⟩ := Option.map_eq_some_iff.mp h
    exact Nat.succ_le_succ (levelsOfItems_le_of_toItems? hvalues)
  | .object members, inner + 1 =>
    obtain ⟨values, hvalues, _⟩ := Option.map_eq_some_iff.mp h
    exact Nat.succ_le_succ (levelsOfMembers_le_of_toMembers? hvalues)

theorem Document.levelsOfItems_le_of_toItems? {items : List Document} {levels : Nat}
    {values : List Value} (h : toItems? levels items = some values) :
    levelsOfItems items ≤ levels := by
  match items with
  | [] => exact Nat.zero_le _
  | item :: items =>
    simp only [toItems?, Option.bind_eq_bind, Option.bind_eq_some_iff] at h
    obtain ⟨_, hfirst, _, hothers, _⟩ := h
    exact Nat.max_le.mpr ⟨levels_le_of_toValue? hfirst, levelsOfItems_le_of_toItems? hothers⟩

theorem Document.levelsOfMembers_le_of_toMembers? {members : List (String × Document)}
    {levels : Nat} {values : List (String × Value)} (h : toMembers? levels members = some values) :
    levelsOfMembers members ≤ levels := by
  match members with
  | [] => exact Nat.zero_le _
  | (key, value) :: members =>
    simp only [toMembers?, Option.bind_eq_bind, Option.bind_eq_some_iff] at h
    obtain ⟨_, hfirst, _, hothers, _⟩ := h
    exact Nat.max_le.mpr ⟨levels_le_of_toValue? hfirst, levelsOfMembers_le_of_toMembers? hothers⟩

end

/-- Only null is read as null. -/
theorem Document.eq_null_of_toValue? {d : Document} {levels : Nat}
    (h : toValue? levels d = some .null) : d = .null := by
  cases d with
  | null => rfl
  | array items =>
    cases levels with
    | zero => cases h
    | succ inner =>
      obtain ⟨_, _, heq⟩ := Option.map_eq_some_iff.mp h
      cases heq
  | object members =>
    cases levels with
    | zero => cases h
    | succ inner =>
      obtain ⟨_, _, heq⟩ := Option.map_eq_some_iff.mp h
      cases heq
  | _ => cases h

theorem Document.ofValue_ne_null {v : Value} (h : v ≠ .null) : ofValue v ≠ .null := by
  cases v with
  | null => exact absurd rfl h
  | _ => exact nofun

end Lifecycle.Json
