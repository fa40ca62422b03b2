import Lifecycle.Json.Record
import Lifecycle.Proofs.Json.Exact
import Mathlib.Data.Option.Basic

/-!
# Encoders and decoders that fit together

`Codec` says what an encoder and a decoder of one type need for a round trip over
text: the decoder reads what the encoder writes, it reads nothing that could not be
written again, and the encoder writes nothing that changes on its way through text.
Codecs of members make up the codecs of records; `Codec.roundTrips` draws the
conclusion for whole texts.
-/

namespace Lifecycle.Json

open Document

/-- A type whose values may hold free-form parts, which their records carry as they are. -/
class FreeForm (α : Type) where
  /-- The free-form parts of a value. -/
  parts : α → List Value

section FreeForm

variable {α : Type} [FreeForm α]

/-- All free-form parts of a value have a property. -/
def Every (P : Value → Prop) (a : α) : Prop := ∀ part ∈ FreeForm.parts a, P part

/-- Every free-form part is a well-formed value, and none is null. -/
abbrev Proper (a : α) : Prop := Every (fun part => part.WellFormed ∧ part ≠ .null) a

/-- No free-form part holds a float. -/
abbrev FloatFree (a : α) : Prop := Every Value.FloatFree a

instance : FreeForm String := ⟨fun _ => []⟩

instance : FreeForm Bool := ⟨fun _ => []⟩

instance : FreeForm UInt16 := ⟨fun _ => []⟩

instance : FreeForm UInt32 := ⟨fun _ => []⟩

instance : FreeForm UInt64 := ⟨fun _ => []⟩

instance : FreeForm (List α) := ⟨(·.flatMap FreeForm.parts)⟩

instance : FreeForm (Option α) := ⟨(·.toList.flatMap FreeForm.parts)⟩

theorem every_list {P : Value → Prop} {as : List α} : Every P as ↔ ∀ a ∈ as, Every P a := by
  simp only [Every, FreeForm.parts, List.mem_flatMap]
  exact ⟨fun h a ha part hpart => h part ⟨a, ha, hpart⟩,
    fun h part ⟨a, ha, hpart⟩ => h a ha part hpart⟩

theorem every_option {P : Value → Prop} {a : Option α} : Every P a ↔ ∀ b ∈ a, Every P b := by
  cases a <;>
    simp [Every, FreeForm.parts]

/-- A type whose values have no free-form parts. -/
class Plain (α : Type) [FreeForm α] : Prop where
  /-- There are none. -/
  parts_eq_nil (a : α) : FreeForm.parts a = []

instance : Plain String := ⟨fun _ => rfl⟩

instance : Plain Bool := ⟨fun _ => rfl⟩

instance : Plain UInt16 := ⟨fun _ => rfl⟩

instance : Plain UInt32 := ⟨fun _ => rfl⟩

instance : Plain UInt64 := ⟨fun _ => rfl⟩

theorem Plain.every [Plain α] (P : Value → Prop) (a : α) : Every P a := by
  intro part hpart
  rw [Plain.parts_eq_nil] at hpart
  cases hpart

instance [Plain α] : Plain (List α) :=
  ⟨fun _ => List.flatMap_eq_nil_iff.mpr fun a _ => Plain.parts_eq_nil a⟩

end FreeForm

namespace Decoder

variable {α : Type}

/-- The decoder reads the document as the value, wherever the document may stand. -/
def Reads (decoder : Decoder α) (d : Document) (a : α) : Prop :=
  ∀ levels, d.levels ≤ levels → decoder levels d = some a

/-- A list of encoded items is read item by item. -/
theorem reads_list {decoder : Decoder α} {encode : α → Document} {as : List α}
    (h : ∀ a ∈ as, decoder.Reads (encode a) a) :
    (list decoder).Reads (.array (as.map encode)) as := by
  intro levels hlevels
  obtain ⟨inner, rfl⟩ : ∃ inner, levels = inner + 1 :=
    ⟨levels - 1, by rw [Document.levels] at hlevels; omega⟩
  rw [levels_array_le, List.forall_mem_map] at hlevels
  rw [list]
  induction as with
  | nil => rfl
  | cons a as ih =>
    rw [List.forall_mem_cons] at h hlevels
    rw [List.map_cons, List.mapM_cons, h.1 inner hlevels.1, ih h.2 hlevels.2]
    rfl

/-- A dictionary is read entry by entry. -/
theorem reads_dict {decoder : Decoder α} {encode : α → Document} {entries : Dict α}
    (h : ∀ a, decoder.Reads (encode a) a) :
    (dict decoder).Reads (.object (entries.toList.map fun entry => (entry.1, encode entry.2)))
      entries := by
  intro levels hlevels
  obtain ⟨inner, rfl⟩ : ∃ inner, levels = inner + 1 :=
    ⟨levels - 1, by rw [Document.levels] at hlevels; omega⟩
  rw [levels_object_le, List.forall_mem_map] at hlevels
  have hentries : ∀ list : List (String × α), (∀ entry ∈ list, (encode entry.2).levels ≤ inner) →
      (list.map fun entry => (entry.1, encode entry.2)).mapM (fun member =>
        (member.1, ·) <$> decoder inner member.2) = some list := by
    intro list hlist
    induction list with
    | nil => rfl
    | cons entry list ih =>
      rw [List.forall_mem_cons] at hlist
      rw [List.map_cons, List.mapM_cons, h entry.2 inner hlist.1, ih hlist.2]
      rfl
  rw [dict, hentries _ hlevels]
  obtain ⟨list, hascending⟩ := entries
  simp only [Dict.toList, Dict.ofList, Option.map_eq_map, Option.map_some,
    Entries.collect_of_ascending hascending]

end Decoder

namespace Record

variable {α : Type} {r : Record} {name : String} {decoder : Decoder α}

/-- What a record holds for a member that an encoder wrote or left out. -/
def Holds (r : Record) (name : String) (document : Option Document) : Prop :=
  r.slot name = (document.map .given).getD .missing ∧ ∀ d ∈ document, d.levels ≤ r.levels

theorem Holds.required {d : Document} {a : α} (h : r.Holds name (some d))
    (hreads : decoder.Reads d a) : r.required name decoder = some a := by
  rw [Record.required, h.1]
  exact hreads _ (h.2 d rfl)

theorem Holds.defaulted {d : Document} {a absent : α} (h : r.Holds name (some d))
    (hreads : decoder.Reads d a) : r.defaulted name absent decoder = some a := by
  rw [Record.defaulted, h.1]
  exact hreads _ (h.2 d rfl)

/-- A document other than null is read as something. -/
theorem nullable_of_ne_null {levels : Nat} {d : Document} (hne : d ≠ .null) :
    decoder.nullable levels d = some <$> decoder levels d := by
  cases d with
  | null => exact absurd rfl hne
  | _ => rfl

theorem Holds.nullable {encode : α → Document} {a : Option α} (h : r.Holds name (a.map encode))
    (hne : ∀ b ∈ a, encode b ≠ .null) (hreads : ∀ b ∈ a, decoder.Reads (encode b) b) :
    r.nullable name decoder = some a := by
  cases a with
  | none => rw [Record.nullable, h.1]; rfl
  | some b =>
    rw [Record.nullable, h.1]
    simp only [Option.map_some, Option.getD_some]
    rw [nullable_of_ne_null (hne b rfl), hreads b rfl _ (h.2 _ rfl)]
    rfl

theorem Holds.nullable_orNull {encode : α → Document} {a : Option α}
    (h : r.Holds name (some (.orNull (a.map encode))))
    (hne : ∀ b ∈ a, encode b ≠ .null) (hreads : ∀ b ∈ a, decoder.Reads (encode b) b) :
    r.nullable name decoder = some a := by
  cases a with
  | none => rw [Record.nullable, h.1]; rfl
  | some b => exact Holds.nullable h hne hreads

/-- A member that is not cut off may be null just as well as it may be left out. -/
theorem Holds.optional_eq_nullable {document : Option Document} (h : r.Holds name document) :
    r.optional name decoder = r.nullable name decoder := by
  rw [Record.optional, Record.defaulted, Record.nullable, h.1]
  cases document <;> rfl

/-- What is read for a member that may be null was read from a document other than null. -/
theorem exists_of_decoder_nullable {levels : Nat} {d : Document} {a : Option α}
    (h : decoder.nullable levels d = some a) :
    ∀ b ∈ a, d ≠ .null ∧ decoder levels d = some b := by
  rintro b rfl
  have hne : d ≠ .null := by
    rintro rfl
    cases h
  rw [nullable_of_ne_null hne] at h
  obtain ⟨_, hd, heq⟩ := Option.map_eq_some_iff.mp h
  exact ⟨hne, Option.some.inj heq ▸ hd⟩

theorem exists_of_nullable {a : Option α} (h : r.nullable name decoder = some a) :
    ∀ b ∈ a, ∃ d, decoder r.levels d = some b := by
  rintro b rfl
  rw [Record.nullable] at h
  split at h
  · next d _ => exact ⟨d, (exists_of_decoder_nullable h b rfl).2⟩
  · cases h
  · cases h

theorem exists_of_optional {a : Option α} (h : r.optional name decoder = some a) :
    ∀ b ∈ a, ∃ d, d ≠ .null ∧ decoder r.levels d = some b := by
  rintro b rfl
  rw [Record.optional, Record.defaulted] at h
  split at h
  · next d _ => exact ⟨d, exists_of_decoder_nullable h b rfl⟩
  · cases h

/-- The documents that stand under a name when the members that are set are written. -/
theorem under_ofPresent {members : List (String × Option Document)}
    (hnodup : (members.map (·.1)).Nodup) (name : String) :
    under name (members.filterMap fun member => member.2.map (member.1, ·)) =
      (Entries.find? name members).join.toList := by
  induction members with
  | nil => rfl
  | cons member members ih =>
    obtain ⟨key, document⟩ := member
    rw [List.map_cons, List.nodup_cons] at hnodup
    have hrest := ih hnodup.2
    by_cases hkey : key = name
    · have habsent : Entries.find? name members = none := by
        rw [← hkey]
        exact Entries.find?_eq_none_of_notMem hnodup.1
      rw [habsent] at hrest
      cases document <;>
        simpa [under, Entries.find?, hkey] using hrest
    · cases document <;>
        simpa [under, Entries.find?, hkey] using hrest

/-- Members that are set and have different names are found under their names. -/
theorem ofDocument?_ofPresent {members : List (String × Option Document)}
    (hnodup : (members.map (·.1)).Nodup) (names : List String) (levels : Nat) :
    ofDocument? names (levels + 1) (.ofPresent members) =
      some ⟨levels, fun name => ((Entries.find? name members).join.map .given).getD .missing⟩ := by
  have honce : ∀ name ∈ names, (under name (members.filterMap fun member =>
      member.2.map (member.1, ·))).length ≤ 1 := by
    intro name _
    rw [under_ofPresent hnodup]
    cases (Entries.find? name members).join <;> simp
  rw [ofPresent, ofDocument?, ofMembers?, if_pos (by simpa using honce)]
  simp only [under_ofPresent hnodup, Option.head?_toList]

/-- A record takes up one level. -/
theorem levels_of_ofDocument? {names : List String} {levels : Nat} {d : Document}
    (h : ofDocument? names levels d = some r) : levels = r.levels + 1 := by
  match levels, d with
  | inner + 1, .object members =>
    rw [ofDocument?, ofMembers?] at h
    split at h
    · rw [← Option.some.inj h]
    · cases h
  | inner + 1, .array items =>
    rw [ofDocument?, ofItems?] at h
    split at h
    · rw [← Option.some.inj h]
    · cases h
  | 0, _ | _ + 1, .null | _ + 1, .bool _ | _ + 1, .number _ | _ + 1, .string _
  | _ + 1, .unreadable => cases h

end Record

namespace Decoder

variable {α : Type}

/-- A record that knows the written members is read from those that are set. -/
theorem reads_record (members : List (String × Option Document)) {names : List String}
    {build : Record → Option α} {a : α} (hnames : members.map (·.1) = names)
    (hnodup : names.Nodup)
    (hbuild : ∀ r : Record, (∀ member ∈ members, r.Holds member.1 member.2) → build r = some a) :
    (record names build).Reads (.ofPresent members) a := by
  rw [← hnames] at hnodup
  intro levels hlevels
  obtain ⟨inner, rfl⟩ : ∃ inner, levels = inner + 1 :=
    ⟨levels - 1, by rw [ofPresent, Document.levels] at hlevels; omega⟩
  rw [levels_ofPresent_le] at hlevels
  rw [record, Record.ofDocument?_ofPresent hnodup]
  refine hbuild _ fun member hmember => ⟨?_, hlevels member hmember⟩
  simp only [Entries.find?_of_mem hnodup hmember, Option.join_some]

/-- A record that was read from written members holds them. -/
theorem exists_of_record_ofPresent {members : List (String × Option Document)} {names : List String}
    {build : Record → Option α} {levels : Nat} {a : α}
    (h : record names build levels (.ofPresent members) = some a)
    (hnames : members.map (·.1) = names) (hnodup : names.Nodup) :
    ∃ r : Record, levels = r.levels + 1 ∧ build r = some a ∧
      ∀ member ∈ members, r.slot member.1 = (member.2.map .given).getD .missing := by
  rw [← hnames] at hnodup
  obtain ⟨r, hr, ha⟩ := Option.bind_eq_some_iff.mp h
  cases levels with
  | zero => cases hr
  | succ inner =>
    rw [Record.ofDocument?_ofPresent hnodup] at hr
    obtain rfl := Option.some.inj hr
    refine ⟨_, rfl, ha, fun member hmember => ?_⟩
    simp only [Entries.find?_of_mem hnodup hmember, Option.join_some]

/-- A list takes up one level, and each item was read from a document. -/
theorem exists_of_list {decoder : Decoder α} {levels : Nat} {d : Document} {as : List α}
    (h : list decoder levels d = some as) :
    ∃ inner, levels = inner + 1 ∧ ∀ a ∈ as, ∃ item, decoder inner item = some a := by
  match levels, d with
  | inner + 1, .array items =>
    refine ⟨inner, rfl, ?_⟩
    rw [list] at h
    induction items generalizing as with
    | nil =>
      obtain rfl := Option.some.inj h
      exact nofun
    | cons item items ih =>
      simp only [List.mapM_cons, Option.bind_eq_bind, Option.bind_eq_some_iff, Option.pure_def] at h
      obtain ⟨first, hfirst, others, hothers, heq⟩ := h
      obtain rfl := Option.some.inj heq
      rw [List.forall_mem_cons]
      exact ⟨⟨item, hfirst⟩, ih hothers⟩
  | 0, _ | _ + 1, .null | _ + 1, .bool _ | _ + 1, .number _ | _ + 1, .string _
  | _ + 1, .object _ | _ + 1, .unreadable => cases h

/-- What a record was built from has one level less than the record. -/
theorem exists_of_record {names : List String} {build : Record → Option α} {levels : Nat}
    {d : Document} {a : α} (h : record names build levels d = some a) :
    ∃ r : Record, levels = r.levels + 1 ∧ build r = some a := by
  obtain ⟨r, hr, ha⟩ := Option.bind_eq_some_iff.mp h
  exact ⟨r, Record.levels_of_ofDocument? hr, ha⟩

end Decoder

/-- An encoder and a decoder that fit together. What the encoder writes nests no deeper than what
the value was read from, or than `depth` where the text was shallower. -/
structure Codec {α : Type} [FreeForm α] (depth : Nat) (encode : α → Document)
    (decode : Decoder α) : Prop where
  /-- Nothing is written as null. -/
  ne_null : ∀ a, encode a ≠ .null
  /-- What is written is read. -/
  reads : ∀ {a}, Proper a → decode.Reads (encode a) a
  /-- What is written without floats survives as text. -/
  exact : ∀ {a}, FloatFree a → (encode a).Exact
  /-- What is read can be written. -/
  proper : ∀ {levels d a}, decode levels d = some a → Proper a
  /-- What is read can be written within the levels it was read from. -/
  within : ∀ {levels d a}, decode levels d = some a → (encode a).levels ≤ max depth levels

/-- Values and texts correspond as far as free-form parts allow. The text of a value that nests no
deeper than texts may is read as that value and written again as the same text; a value that was
read from any text is read again from its own text. Floats are exempt: their digits are read as a
close number, not always the same one. -/
def RoundTrips {α : Type} [FreeForm α] (encode : α → Document) (decode : Decoder α) : Prop :=
  (∀ a, Proper a → FloatFree a → (encode a).levels ≤ maxLevels →
    decode.ofText? (encode a).text = some a ∧
      (decode.ofText? (encode a).text).map (fun b => (encode b).text) = some (encode a).text) ∧
  (∀ text a, decode.ofText? text = some a → FloatFree a →
    decode.ofText? (encode a).text = some a)

namespace Codec

variable {α : Type} [FreeForm α] {depth : Nat} {encode : α → Document} {decode : Decoder α}

/-- The text of a value without floats is read as that value, when it nests no deeper than texts
may. -/
theorem ofText?_text (h : Codec depth encode decode) {a : α} (hproper : Proper a)
    (hfloat : FloatFree a) (hlevels : (encode a).levels ≤ maxLevels) :
    decode.ofText? (encode a).text = some a := by
  rw [Decoder.ofText?, read?_text, h.exact hfloat]
  exact h.reads hproper maxLevels hlevels

/-- Codecs whose own members nest no deeper than texts may make for a round trip. -/
theorem roundTrips (h : Codec depth encode decode) (hdepth : depth ≤ maxLevels) :
    RoundTrips encode decode := by
  constructor
  · intro a hproper hfloat hlevels
    have hread := h.ofText?_text hproper hfloat hlevels
    exact ⟨hread, by rw [hread]; rfl⟩
  · intro text a hread hfloat
    obtain ⟨d, _, hdecoded⟩ := Option.bind_eq_some_iff.mp hread
    have hlevels := h.within hdecoded
    rw [Nat.max_eq_right hdepth] at hlevels
    exact h.ofText?_text (h.proper hdecoded) hfloat hlevels

theorem string : Codec 0 Document.string Decoder.string where
  ne_null _ := nofun
  reads _ _ _ := rfl
  exact _ := rfl
  proper _ := Plain.every _ _
  within _ := Nat.zero_le _

theorem bool : Codec 0 Document.bool Decoder.bool where
  ne_null _ := nofun
  reads _ _ _ := rfl
  exact _ := rfl
  proper _ := Plain.every _ _
  within _ := Nat.zero_le _

/-- A word below a bound is read from its numeral. -/
theorem natBelow_ofWord {bound : Nat} {n : UInt64} (h : n.toNat < bound) (levels : Nat) :
    Decoder.natBelow bound levels (.ofWord n) = some n.toNat := by
  rw [ofWord, Decoder.natBelow]
  exact Option.filter_some_pos (decide_eq_true h)

theorem word16 : Codec 0 (fun n : UInt16 => .ofWord n.toUInt64) Decoder.word16 where
  ne_null _ := nofun
  reads {n} _ levels _ := by
    rw [Decoder.word16, natBelow_ofWord (by simpa using n.toNat_lt)]
    simp
  exact _ := rfl
  proper _ := Plain.every _ _
  within _ := Nat.zero_le _

theorem word32 : Codec 0 (fun n : UInt32 => .ofWord n.toUInt64) Decoder.word32 where
  ne_null _ := nofun
  reads {n} _ levels _ := by
    rw [Decoder.word32, natBelow_ofWord (by simpa using n.toNat_lt)]
    simp
  exact _ := rfl
  proper _ := Plain.every _ _
  within _ := Nat.zero_le _

theorem word64 : Codec 0 (fun n : UInt64 => .ofWord n) Decoder.word64 where
  ne_null _ := nofun
  reads {n} _ levels _ := by
    rw [Decoder.word64, natBelow_ofWord n.toNat_lt]
    simp
  exact _ := rfl
  proper _ := Plain.every _ _
  within _ := Nat.zero_le _

/-- A codec for items makes one for lists. -/
theorem list (h : Codec depth encode decode) :
    Codec (depth + 1) (fun as : List α => .array (as.map encode)) (.list decode) where
  ne_null _ := nofun
  reads hproper := Decoder.reads_list fun a ha => h.reads (every_list.mp hproper a ha)
  exact hfloat := by
    rw [exact_array, List.forall_mem_map]
    exact fun a ha => h.exact (every_list.mp hfloat a ha)
  proper hread := by
    obtain ⟨_, _, hitems⟩ := Decoder.exists_of_list hread
    rw [Proper, every_list]
    intro a ha
    obtain ⟨_, hitem⟩ := hitems a ha
    exact h.proper hitem
  within hread := by
    obtain ⟨inner, rfl, hitems⟩ := Decoder.exists_of_list hread
    rw [Nat.add_max_add_right, levels_array_le, List.forall_mem_map]
    intro a ha
    obtain ⟨_, hitem⟩ := hitems a ha
    exact h.within hitem

/-- A codec for plain entries makes a dictionary readable. -/
theorem reads_dict [Plain α] (h : Codec depth encode decode) (entries : Dict α) :
    (Decoder.dict decode).Reads
      (.object (entries.toList.map fun entry => (entry.1, encode entry.2))) entries :=
  Decoder.reads_dict fun a => h.reads (Plain.every _ a)

section Members

variable {r : Record} {name : String} {a : Option α}

theorem nullable (h : Codec depth encode decode) (hholds : r.Holds name (a.map encode))
    (hproper : ∀ b ∈ a, Proper b) : r.nullable name decode = some a :=
  hholds.nullable (fun b _ => h.ne_null b) fun b hb => h.reads (hproper b hb)

theorem nullable_orNull (h : Codec depth encode decode)
    (hholds : r.Holds name (some (.orNull (a.map encode)))) (hproper : ∀ b ∈ a, Proper b) :
    r.nullable name decode = some a :=
  hholds.nullable_orNull (fun b _ => h.ne_null b) fun b hb => h.reads (hproper b hb)

theorem optional (h : Codec depth encode decode) (hholds : r.Holds name (a.map encode))
    (hproper : ∀ b ∈ a, Proper b) : r.optional name decode = some a := by
  rw [hholds.optional_eq_nullable]
  exact h.nullable hholds hproper

theorem optional_orNull (h : Codec depth encode decode)
    (hholds : r.Holds name (some (.orNull (a.map encode)))) (hproper : ∀ b ∈ a, Proper b) :
    r.optional name decode = some a := by
  rw [hholds.optional_eq_nullable]
  exact h.nullable_orNull hholds hproper

end Members

end Codec

end Lifecycle.Json
