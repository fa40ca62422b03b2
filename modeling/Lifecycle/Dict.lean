/-!
# Sorted string dictionaries

`Entries` holds the operations on raw association lists that keep their keys
strictly ascending; JSON objects use them directly. `Dict` seals such a list
together with its ordering proof, so that equal dictionaries are equal data.
Each operation is described by what `find?` sees afterwards.
-/

namespace Lifecycle

universe u

namespace Entries

variable {α : Type u}

/-- The keys of the list ascend strictly, so no key occurs twice. -/
def Ascending (entries : List (String × α)) : Prop :=
  entries.Pairwise fun a b => a.1 < b.1

instance (entries : List (String × α)) : Decidable (Ascending entries) :=
  inferInstanceAs (Decidable (entries.Pairwise fun a b => a.1 < b.1))

/-- The value stored under a key. -/
def find? (key : String) : List (String × α) → Option α
  | [] => none
  | (k, v) :: rest => if k = key then some v else find? key rest

/-- Stores a value at its place in the key order, replacing the one that was there. -/
def put (key : String) (value : α) : List (String × α) → List (String × α)
  | [] => [(key, value)]
  | (k, v) :: rest =>
    if k = key then (key, value) :: rest
    else if key < k then (key, value) :: (k, v) :: rest
    else (k, v) :: put key value rest

/-- Removes the entry under a key. -/
def drop (key : String) (entries : List (String × α)) : List (String × α) :=
  entries.filter fun entry => entry.1 ≠ key

/-- Collects entries given in any order; of two with one key the later wins. -/
def collect (entries : List (String × α)) : List (String × α) :=
  entries.foldl (fun acc entry => put entry.1 entry.2 acc) []

theorem ascending_nil : Ascending ([] : List (String × α)) := List.Pairwise.nil

theorem mem_put {key : String} {value : α} {entries : List (String × α)} {entry : String × α}
    (h : entry ∈ put key value entries) : entry = (key, value) ∨ entry ∈ entries := by
  induction entries with
  | nil => exact .inl (List.mem_singleton.mp h)
  | cons first rest ih =>
    obtain ⟨k, v⟩ := first
    rw [put] at h
    split at h
    · rcases List.mem_cons.mp h with h | h
      · exact .inl h
      · exact .inr (List.mem_cons_of_mem _ h)
    · split at h
      · exact List.mem_cons.mp h
      · rcases List.mem_cons.mp h with h | h
        · exact .inr (h ▸ List.mem_cons_self)
        · exact (ih h).imp id (List.mem_cons_of_mem _)

/-- Storing a value keeps the keys ascending. -/
theorem Ascending.put {entries : List (String × α)} (h : Ascending entries) (key : String)
    (value : α) : Ascending (put key value entries) := by
  induction entries with
  | nil => exact List.pairwise_singleton _ _
  | cons first rest ih =>
    obtain ⟨k, v⟩ := first
    have hd := List.pairwise_cons.mp h
    rw [Entries.put]
    split
    · next he => exact List.pairwise_cons.mpr ⟨fun a ha => he ▸ hd.1 a ha, hd.2⟩
    · next hne =>
      split
      · next hlt =>
        refine List.pairwise_cons.mpr ⟨fun a ha => ?_, h⟩
        rcases List.mem_cons.mp ha with rfl | ha
        · exact hlt
        · exact String.lt_trans hlt (hd.1 a ha)
      · next hle =>
        refine List.pairwise_cons.mpr ⟨fun a ha => ?_, ih hd.2⟩
        rcases mem_put ha with rfl | ha
        · exact Decidable.byContradiction fun hn =>
            hne (String.le_antisymm (String.not_lt.mp hle) (String.not_lt.mp hn))
        · exact hd.1 a ha

/-- Removing a key keeps the rest ascending. -/
theorem Ascending.drop {entries : List (String × α)} (h : Ascending entries) (key : String) :
    Ascending (drop key entries) :=
  List.Pairwise.filter _ h

/-- Whatever the input order, collected entries ascend. -/
theorem ascending_collect (entries : List (String × α)) : Ascending (collect entries) := by
  suffices h : ∀ (entries acc : List (String × α)), Ascending acc →
      Ascending (entries.foldl (fun acc entry => Entries.put entry.1 entry.2 acc) acc) from
    h entries [] ascending_nil
  intro entries
  induction entries with
  | nil => exact fun _ h => h
  | cons first rest ih => exact fun acc h => ih _ (h.put _ _)

/-- Only entries that were given are collected. -/
theorem mem_of_mem_collect {entries : List (String × α)} {entry : String × α}
    (h : entry ∈ collect entries) : entry ∈ entries := by
  suffices hfold : ∀ (entries acc : List (String × α)),
      entry ∈ entries.foldl (fun acc entry => put entry.1 entry.2 acc) acc →
        entry ∈ acc ∨ entry ∈ entries from
    (hfold entries [] h).resolve_left List.not_mem_nil
  intro entries
  induction entries with
  | nil => exact fun _ h => .inl h
  | cons first rest ih =>
    intro acc h
    rcases ih _ h with h | h
    · rcases mem_put h with h | h
      · exact .inr (h ▸ List.mem_cons_self)
      · exact .inl h
    · exact .inr (List.mem_cons_of_mem _ h)

/-- An entry with the greatest key goes to the end. -/
theorem put_of_forall_lt {key : String} {entries : List (String × α)}
    (h : ∀ entry ∈ entries, entry.1 < key) (value : α) :
    put key value entries = entries ++ [(key, value)] := by
  induction entries with
  | nil => rfl
  | cons first rest ih =>
    obtain ⟨k, v⟩ := first
    have hlt : k < key := h _ List.mem_cons_self
    have hne : k ≠ key := fun heq => String.lt_irrefl _ (heq ▸ hlt)
    have hle : ¬key < k := fun hgt => String.lt_irrefl _ (String.lt_trans hlt hgt)
    rw [put, if_neg hne, if_neg hle, ih fun entry hentry => h entry (List.mem_cons_of_mem _ hentry)]
    rfl

/-- Entries that ascend already are collected as they are. -/
theorem collect_of_ascending {entries : List (String × α)} (h : Ascending entries) :
    collect entries = entries := by
  suffices hfold : ∀ (entries acc : List (String × α)), Ascending (acc ++ entries) →
      entries.foldl (fun acc entry => put entry.1 entry.2 acc) acc = acc ++ entries from
    hfold entries [] h
  intro entries
  induction entries with
  | nil => exact fun acc _ => (List.append_nil acc).symm
  | cons first rest ih =>
    intro acc hacc
    have hlt : ∀ entry ∈ acc, entry.1 < first.1 := fun entry hentry =>
      (List.pairwise_append.mp hacc).2.2 entry hentry first List.mem_cons_self
    rw [List.foldl_cons, put_of_forall_lt hlt, ih _ (by simpa using hacc)]
    simp

/-- There is nothing under a key that does not occur. -/
theorem find?_eq_none_of_notMem {key : String} {entries : List (String × α)}
    (h : key ∉ entries.map (·.1)) : find? key entries = none := by
  induction entries with
  | nil => rfl
  | cons first rest ih =>
    rw [List.map_cons, List.mem_cons, not_or] at h
    rw [find?, if_neg (Ne.symm h.1), ih h.2]

/-- Where no key occurs twice, every entry is found under its key. -/
theorem find?_of_mem {entries : List (String × α)} (hnodup : (entries.map (·.1)).Nodup)
    {entry : String × α} (h : entry ∈ entries) : find? entry.1 entries = some entry.2 := by
  induction entries with
  | nil => cases h
  | cons first rest ih =>
    rw [List.map_cons, List.nodup_cons] at hnodup
    rcases List.mem_cons.mp h with rfl | hrest
    · rw [find?, if_pos rfl]
    · have hne : first.1 ≠ entry.1 := fun heq =>
        hnodup.1 (heq ▸ List.mem_map_of_mem hrest)
      rw [find?, if_neg hne, ih hnodup.2 hrest]

theorem find?_put_self (key : String) (value : α) (entries : List (String × α)) :
    find? key (put key value entries) = some value := by
  induction entries with
  | nil => simp [put, find?]
  | cons first rest ih =>
    obtain ⟨k, v⟩ := first
    rw [put]
    split
    · simp [find?]
    · next hne => split <;> simp [find?, hne, ih]

theorem find?_put_ne {key other : String} (hne : key ≠ other) (value : α)
    (entries : List (String × α)) :
    find? other (put key value entries) = find? other entries := by
  induction entries with
  | nil => simp [put, find?, hne]
  | cons first rest ih =>
    obtain ⟨k, v⟩ := first
    rw [put]
    split
    · next he => simp [find?, hne, he]
    · split
      · simp [find?, hne]
      · simp only [find?, ih]

theorem find?_drop_self (key : String) (entries : List (String × α)) :
    find? key (drop key entries) = none := by
  induction entries with
  | nil => rfl
  | cons first rest ih =>
    obtain ⟨k, v⟩ := first
    by_cases h : k = key
    · simpa [drop, h] using ih
    · simpa [drop, h, find?] using ih

theorem find?_drop_ne {key other : String} (hne : key ≠ other) (entries : List (String × α)) :
    find? other (drop key entries) = find? other entries := by
  induction entries with
  | nil => rfl
  | cons first rest ih =>
    obtain ⟨k, v⟩ := first
    by_cases h : k = key
    · simpa [drop, h, find?, hne] using ih
    · have hd : drop key ((k, v) :: rest) = (k, v) :: drop key rest := by simp [drop, h]
      rw [hd, find?, find?, ih]

end Entries

/-- A finite map from strings, held as its entries in ascending key order. -/
structure Dict (α : Type u) where
  /-- Keys with their values, in key order. -/
  entries : List (String × α)
  /-- No two entries share a key, and the order is that of the keys. -/
  ascending : Entries.Ascending entries
  deriving DecidableEq

namespace Dict

variable {α : Type u}

/-- The dictionary without entries. -/
def empty : Dict α := ⟨[], Entries.ascending_nil⟩

instance : EmptyCollection (Dict α) := ⟨empty⟩

instance : Inhabited (Dict α) := ⟨empty⟩

/-- Collects entries given in any order; of two with one key the later wins. -/
def ofList (entries : List (String × α)) : Dict α :=
  ⟨Entries.collect entries, Entries.ascending_collect entries⟩

/-- The entries in key order. -/
def toList (d : Dict α) : List (String × α) := d.entries

/-- The value under a key. -/
def get? (d : Dict α) (key : String) : Option α := Entries.find? key d.entries

/-- Stores a value under a key, replacing the one that was there. -/
def insert (d : Dict α) (key : String) (value : α) : Dict α :=
  ⟨Entries.put key value d.entries, d.ascending.put key value⟩

/-- Removes a key. -/
def erase (d : Dict α) (key : String) : Dict α :=
  ⟨Entries.drop key d.entries, d.ascending.drop key⟩

@[simp] theorem get?_empty (key : String) : (empty : Dict α).get? key = none := rfl

@[simp] theorem get?_insert_self (d : Dict α) (key : String) (value : α) :
    (d.insert key value).get? key = some value :=
  Entries.find?_put_self key value d.entries

theorem get?_insert_ne (d : Dict α) {key other : String} (hne : key ≠ other) (value : α) :
    (d.insert key value).get? other = d.get? other :=
  Entries.find?_put_ne hne value d.entries

@[simp] theorem get?_erase_self (d : Dict α) (key : String) :
    (d.erase key).get? key = none :=
  Entries.find?_drop_self key d.entries

theorem get?_erase_ne (d : Dict α) {key other : String} (hne : key ≠ other) :
    (d.erase key).get? other = d.get? other :=
  Entries.find?_drop_ne hne d.entries

end Dict

end Lifecycle
