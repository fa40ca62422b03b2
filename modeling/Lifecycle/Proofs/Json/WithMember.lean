import Lifecycle.Proofs.Json.Codec

/-!
# Records with one member set

Setting one member in the document of a record (`Record.WithMember`) changes what is
found for that member and nothing else.
-/

namespace Lifecycle.Json.Record

/-- The document of a record with one member set: wherever it stands among named members, at its
place in a list. -/
inductive WithMember (names : List String) (key : String) (d : Document) :
    Document → Document → Prop where
  /-- The other named members stay, in their order. -/
  | named {members members' : List (String × Document)}
      (hothers : members'.filter (·.1 ≠ key) = members.filter (·.1 ≠ key))
      (hset : under key members' = [d]) :
      WithMember names key d (.object members) (.object members')
  /-- The other items of a list stay. -/
  | listed (items : List Document) :
      WithMember names key d (.array items) (.array (items.set (names.idxOf key) d))

variable {names : List String} {key name : String} {p d d' : Document} {levels : Nat}
  {r r' : Record}

theorem under_filter_ne {α : Type} (hne : name ≠ key) (members : List (String × α)) :
    under name (members.filter (·.1 ≠ key)) = under name members := by
  rw [under, under, List.filterMap_filter]
  congr 1
  funext member
  by_cases hkey : member.1 = key
  · simp [hkey, hne.symm]
  · simp [hkey]

/-- A record that holds a document for one member and otherwise what another record holds. -/
structure SameBut (names : List String) (key : String) (d : Document) (r r' : Record) : Prop where
  /-- The members may open as many levels. -/
  levels_eq : r'.levels = r.levels
  /-- The one member is the document. -/
  slot_key : r'.slot key = .given d
  /-- Every other member is what it was. -/
  slot_eq : ∀ name ∈ names, name ≠ key → r'.slot name = r.slot name

theorem exists_sameBut_of_named {members members' : List (String × Document)}
    (hothers : members'.filter (·.1 ≠ key) = members.filter (·.1 ≠ key))
    (hset : under key members' = [p]) (hread : ofMembers? names levels members = some r) :
    ∃ r', ofMembers? names levels members' = some r' ∧ SameBut names key p r r' := by
  have hsame : ∀ name ≠ key, under name members' = under name members := by
    intro name hne
    rw [← under_filter_ne hne members', hothers, under_filter_ne hne]
  rw [ofMembers?] at hread ⊢
  split at hread
  · next honce =>
    obtain rfl := Option.some.inj hread
    rw [if_pos]
    · exact ⟨_, rfl, rfl, by simp [hset], fun name _ hne => by simp only [hsame name hne]⟩
    · rw [List.all_eq_true] at honce ⊢
      intro name hname
      by_cases hne : name = key
      · simp [hne, hset]
      · simpa only [hsame name hne] using honce name hname
  · cases hread

theorem exists_sameBut_of_listed {items : List Document} (hkey : key ∈ names)
    (hread : ofItems? names levels items = some r) (hcut : r.slot key ≠ .cut) :
    ∃ r', ofItems? names levels (items.set (names.idxOf key) p) = some r' ∧
      SameBut names key p r r' := by
  rw [ofItems?] at hread ⊢
  split at hread
  · next hlength =>
    obtain rfl := Option.some.inj hread
    -- a list that ends before the place of the member would cut it off
    have hplace : names.idxOf key < items.length := by
      by_contra hshort
      exact hcut (by simp [List.getElem?_eq_none (Nat.not_lt.mp hshort)])
    rw [List.length_set, if_pos hlength]
    refine ⟨_, rfl, rfl, ?_, fun name hname hne => ?_⟩
    · simp [List.getElem?_set_self hplace]
    · have hidx : names.idxOf key ≠ names.idxOf name :=
        fun heq => hne ((List.idxOf_inj hkey).mp heq).symm
      simp only [List.getElem?_set_ne hidx]
  · cases hread

/-- Setting one member changes what is found for that member alone, unless it was cut off. -/
theorem exists_sameBut_of_withMember (hset : WithMember names key p d d')
    (hread : ofDocument? names levels d = some r) (hkey : key ∈ names)
    (hcut : r.slot key ≠ .cut) :
    ∃ r', ofDocument? names levels d' = some r' ∧ SameBut names key p r r' := by
  cases levels with
  | zero => cases hset <;> cases hread
  | succ inner =>
    cases hset with
    | named hothers hset => exact exists_sameBut_of_named hothers hset hread
    | listed items => exact exists_sameBut_of_listed hkey hread hcut

section Others

variable {α : Type} {decoder : Decoder α} (h : SameBut names key p r r') (hname : name ∈ names)
  (hne : name ≠ key)
include h hname hne

theorem SameBut.required : r'.required name decoder = r.required name decoder := by
  rw [Record.required, Record.required, h.slot_eq name hname hne, h.levels_eq]

theorem SameBut.nullable : r'.nullable name decoder = r.nullable name decoder := by
  rw [Record.nullable, Record.nullable, h.slot_eq name hname hne, h.levels_eq]

theorem SameBut.optional : r'.optional name decoder = r.optional name decoder := by
  rw [Record.optional, Record.optional, Record.defaulted, Record.defaulted,
    h.slot_eq name hname hne, h.levels_eq]

end Others

/-- A member that is read may be null or missing, but is not cut off. -/
theorem slot_ne_cut_of_nullable {α : Type} {decoder : Decoder α} {a : Option α}
    (h : r.nullable name decoder = some a) : r.slot name ≠ .cut := by
  intro hcut
  rw [nullable, hcut] at h
  cases h

end Lifecycle.Json.Record
