import Lifecycle.Json.Value
import Mathlib.Data.List.Perm.Basic
import Mathlib.Data.List.Nodup

/-!
# What dictionaries hold

A dictionary is known by what stands under each key (`Dict.ext_get?`). Entries none of
which share a key are collected as they are, whatever their order (`Entries.mem_collect`),
and a run of insertions or removals is seen by each key on its own. The objects among the
JSON values are such entries.
-/

namespace Lifecycle

universe u

variable {α : Type u}

namespace Entries

variable {entries : List (String × α)} {key : String} {value : α}

/-- Keys that ascend are different. -/
theorem Ascending.nodup (h : Ascending entries) : (entries.map (·.1)).Nodup :=
  List.pairwise_map.mpr <| h.imp fun {a b} hlt (heq : a.1 = b.1) =>
    String.lt_irrefl b.1 (heq ▸ hlt)

/-- What is found under a key stands there. -/
theorem mem_of_find?_eq_some (h : find? key entries = some value) : (key, value) ∈ entries := by
  induction entries with
  | nil => cases h
  | cons first rest ih =>
    rw [find?] at h
    split at h
    · next hkey =>
      rw [← hkey, ← Option.some.inj h]
      exact List.mem_cons_self
    · exact List.mem_cons_of_mem _ (ih h)

/-- Where no key occurs twice, an entry stands there when it is found under its key. -/
theorem find?_eq_some_iff (hnodup : (entries.map (·.1)).Nodup) :
    find? key entries = some value ↔ (key, value) ∈ entries :=
  ⟨mem_of_find?_eq_some, find?_of_mem hnodup⟩

/-- There is nothing under a key exactly when the key does not occur. -/
theorem find?_eq_none_iff : find? key entries = none ↔ key ∉ entries.map (·.1) := by
  refine ⟨fun hnone hmem => ?_, find?_eq_none_of_notMem⟩
  induction entries with
  | nil => cases hmem
  | cons first rest ih =>
    rw [find?] at hnone
    split at hnone
    · cases hnone
    · next hne => exact ih hnone (List.mem_of_ne_of_mem (Ne.symm hne) hmem)

/-- What is found under a key stands in the first entry with that key. -/
theorem find?_eq_some_iff_append : find? key entries = some value ↔
    ∃ before after, entries = before ++ (key, value) :: after ∧ key ∉ before.map (·.1) := by
  constructor
  · intro h
    induction entries with
    | nil => cases h
    | cons first rest ih =>
      rw [find?] at h
      split at h
      · next hkey =>
        obtain rfl := Option.some.inj h
        exact ⟨[], rest, congrArg (· :: rest) (Prod.ext hkey rfl), List.not_mem_nil⟩
      · next hne =>
        obtain ⟨before, after, rfl, hbefore⟩ := ih h
        refine ⟨first :: before, after, rfl, ?_⟩
        rw [List.map_cons, List.mem_cons, not_or]
        exact ⟨Ne.symm hne, hbefore⟩
  · rintro ⟨before, after, rfl, hbefore⟩
    induction before with
    | nil => exact if_pos rfl
    | cons first before ih =>
      rw [List.map_cons, List.mem_cons, not_or] at hbefore
      rw [List.cons_append, find?, if_neg (Ne.symm hbefore.1)]
      exact ih hbefore.2

/-- Entries that are stored one after another, none of which share a key, are found before the ones
that were there. -/
theorem find?_foldl_put (hnodup : (entries.map (·.1)).Nodup) (acc : List (String × α)) :
    find? key (entries.foldl (fun acc entry => put entry.1 entry.2 acc) acc) =
      (find? key entries).or (find? key acc) := by
  induction entries generalizing acc with
  | nil => rfl
  | cons first rest ih =>
    rw [List.map_cons, List.nodup_cons] at hnodup
    rw [List.foldl_cons, ih hnodup.2, find?]
    split
    · next hkey =>
      rw [← hkey, find?_eq_none_of_notMem hnodup.1, find?_put_self]
      rfl
    · next hne => rw [find?_put_ne hne]

/-- Where no key occurs twice, collecting changes nothing but the order. -/
theorem find?_collect (hnodup : (entries.map (·.1)).Nodup) :
    find? key (collect entries) = find? key entries := by
  rw [collect, find?_foldl_put hnodup, find?, Option.or_none]

/-- Where no key occurs twice, the entries that are collected are those that were given. -/
theorem mem_collect (hnodup : (entries.map (·.1)).Nodup) {entry : String × α} :
    entry ∈ collect entries ↔ entry ∈ entries := by
  rw [← Prod.eta entry, ← find?_eq_some_iff hnodup, ← find?_collect hnodup,
    find?_eq_some_iff (ascending_collect entries).nodup]

/-- Ascending entries are known by what is found under each key. -/
theorem Ascending.ext_find? {others : List (String × α)} (h : Ascending entries)
    (hothers : Ascending others) (hfind : ∀ key, find? key entries = find? key others) :
    entries = others := by
  have hmem : ∀ entry, entry ∈ entries ↔ entry ∈ others := by
    intro entry
    rw [← Prod.eta entry, ← find?_eq_some_iff h.nodup, ← find?_eq_some_iff hothers.nodup, hfind]
  have hperm : entries.Perm others :=
    (List.perm_ext_iff_of_nodup h.nodup.of_map hothers.nodup.of_map).mpr hmem
  refine hperm.eq_of_pairwise (fun a b _ _ hab hba => ?_) h hothers
  exact absurd (String.lt_trans hab hba) (String.lt_irrefl _)

end Entries

namespace Dict

variable {d : Dict α} {key : String}

/-- Dictionaries that hold the same under each key are equal. -/
theorem ext_get? {other : Dict α} (h : ∀ key, d.get? key = other.get? key) : d = other := by
  obtain ⟨entries, hascending⟩ := d
  obtain ⟨others, hothers⟩ := other
  obtain rfl : entries = others := hascending.ext_find? hothers h
  rfl

/-- Where no key occurs twice, each entry that was given is held. -/
theorem get?_ofList {entries : List (String × α)} (hnodup : (entries.map (·.1)).Nodup) :
    (ofList entries).get? key = Entries.find? key entries :=
  Entries.find?_collect hnodup

/-- Stores entries one after another. -/
def insertAll (d : Dict α) (entries : List (String × α)) : Dict α :=
  entries.foldl (fun d entry => d.insert entry.1 entry.2) d

/-- Removes keys one after another. -/
def eraseAll (d : Dict α) (keys : List String) : Dict α := keys.foldl erase d

theorem entries_insertAll (entries : List (String × α)) :
    (d.insertAll entries).entries =
      entries.foldl (fun acc entry => Entries.put entry.1 entry.2 acc) d.entries := by
  induction entries generalizing d with
  | nil => rfl
  | cons first rest ih => exact ih

/-- Entries that were stored are held, where none of them share a key, and before the others. -/
theorem get?_insertAll {entries : List (String × α)} (hnodup : (entries.map (·.1)).Nodup) :
    (d.insertAll entries).get? key = (Entries.find? key entries).or (d.get? key) := by
  rw [get?, entries_insertAll, Entries.find?_foldl_put hnodup, get?]

/-- Keys that were removed hold nothing, and the others hold what they held. -/
theorem get?_eraseAll {keys : List String} :
    (d.eraseAll keys).get? key = if key ∈ keys then none else d.get? key := by
  induction keys generalizing d with
  | nil => rfl
  | cons first rest ih =>
    rw [eraseAll, List.foldl_cons, ← eraseAll, ih]
    by_cases hfirst : key = first
    · simp [hfirst]
    · simp [hfirst, get?_erase_ne d (Ne.symm hfirst)]

end Dict

/-- A member of an object whose members have different names is the one that was given. -/
theorem Json.Value.get?_ofMembers {members : List (String × Value)}
    (hnodup : (members.map (·.1)).Nodup) (name : String) :
    (ofMembers members).get? name = Entries.find? name members :=
  Entries.find?_collect hnodup

end Lifecycle
