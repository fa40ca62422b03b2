import Lifecycle.Proofs.Json.Reread
import Lifecycle.Proofs.Cluster.KeptPolicy
import Lifecycle.Proofs.RoundTrip

/-!
# Written records are read again

The text of a cluster, an endpoint or a progress record is read again exactly when it
nests no deeper than it may where it stands (`Decoder.ReadsWithin`). Floats in a policy
may change on the way, but they never keep the text from being read.
-/

namespace Lifecycle

open Json Document

/-- The decoder reads the document wherever it may nest as deep as it does, and from `depth` levels
on nowhere else. -/
structure Json.Decoder.ReadsWithin {α : Type} (decoder : Decoder α) (depth : Nat) (d : Document) :
    Prop where
  /-- The document is not null, which a record may have in place of anything. -/
  ne_null : d ≠ .null
  /-- The document is read. -/
  exists_reads : ∃ a, decoder.Reads d a
  /-- It is read only when it nests no deeper than it may. -/
  levels_le : ∀ {levels a}, depth ≤ levels → decoder levels d = some a → d.levels ≤ levels

/-- Within enough levels, it is only the nesting that may keep the document from being read. -/
theorem Json.Decoder.ReadsWithin.isSome_iff {α : Type} {decoder : Decoder α} {depth levels : Nat}
    {d : Document} (h : decoder.ReadsWithin depth d) (hdepth : depth ≤ levels) :
    (decoder levels d).isSome ↔ d.levels ≤ levels := by
  constructor
  · intro hsome
    obtain ⟨_, ha⟩ := Option.isSome_iff_exists.mp hsome
    exact h.levels_le hdepth ha
  · intro hle
    obtain ⟨_, hreads⟩ := h.exists_reads
    rw [hreads levels hle]
    rfl

namespace Cluster

/-- A well-formed policy is read, as no policy when it is null. -/
theorem exists_optional_policy {policy : Option Value} (hwell : ∀ part ∈ policy, part.WellFormed) :
    ∃ found, ∀ (r : Record) {name : String}, r.Holds name (policy.map .ofValue) →
      r.optional name .value = some found := by
  by_cases hnull : policy = some .null
  · refine ⟨none, fun r name hholds => ?_⟩
    rw [hnull] at hholds
    rw [Record.optional, Record.defaulted, hholds.1]
    rfl
  · refine ⟨policy, fun r name hholds => optional_policy hholds fun part hpart => ?_⟩
    refine ⟨hwell part hpart, ?_⟩
    rintro rfl
    exact hnull hpart

/-- The text of a well-formed policy is read as one. -/
theorem exists_reread_policy {policy : Option Value} (hwell : ∀ part ∈ policy, part.WellFormed) :
    ∃ found : Option Value, (∀ part ∈ found, part.WellFormed) ∧
      (policy.map ofValue).map reread = found.map ofValue := by
  cases policy with
  | none => exact ⟨none, nofun, rfl⟩
  | some part =>
    obtain ⟨found, hfound, heq⟩ := (hwell part rfl).exists_reread
    refine ⟨some found, ?_, congrArg some heq.symm⟩
    rintro _ ⟨⟩
    exact hfound

theorem map_reread_of_exact {α : Type} {encode : α → Document} (h : ∀ a, (encode a).Exact)
    (a : Option α) : (a.map encode).map reread = a.map encode := by
  cases a with
  | none => rfl
  | some a => exact congrArg some (h a)

/-- What is read from the text of a cluster is the document of a cluster. -/
theorem exists_reread {c : Cluster} (hwell : c.Policies Value.WellFormed) :
    ∃ c' : Cluster, c'.Policies Value.WellFormed ∧ (encode c).reread = encode c' := by
  obtain ⟨policy, hpolicy, heq⟩ := exists_reread_policy hwell
  have htag : ∀ tag : Tag, tag.encode.Exact := fun tag => Tag.codec.exact (Plain.every _ tag)
  have hlogging : ∀ l : LoggingProperties, l.encode.Exact :=
    fun l => LoggingProperties.codec.exact (Plain.every _ l)
  have hendpoint : ∀ e : Endpoint, e.encode.Exact :=
    fun e => Endpoint.codec.exact (Plain.every _ e)
  refine ⟨{ c with namespaceResourcePolicy := policy }, hpolicy, ?_⟩
  rw [encode, encode, reread_ofPresent]
  simp only [List.map_cons, List.map_nil, heq, map_reread_of_exact, exact_string, exact_bool,
    exact_ofWord, exact_array, List.forall_mem_map, htag, hlogging, hendpoint, implies_true]

theorem levels_le_of_nullable {levels : Nat} {d : Document} {found : Option Value}
    (h : Decoder.value.nullable levels d = some found) : d.levels ≤ levels := by
  by_cases hnull : d = .null
  · rw [hnull]
    exact Nat.zero_le _
  · rw [Record.nullable_of_ne_null hnull] at h
    obtain ⟨_, hread, _⟩ := Option.map_eq_some_iff.mp h
    exact levels_le_of_toValue? hread

/-- The policy of a cluster that is read nests no deeper than it may. -/
theorem policy_levels_le {c found : Cluster} {levels : Nat}
    (h : decode (levels + 1) (encode c) = some found) :
    c.Policies fun policy => (ofValue policy).levels ≤ levels := by
  intro policy hpolicy
  obtain ⟨r, hlevels, hbuild, hslots⟩ :=
    Decoder.exists_of_record_ofPresent h rfl (by decide +kernel)
  obtain rfl : levels = r.levels := Nat.succ.inj hlevels
  have hslot : r.slot "NamespaceResourcePolicy" = .given (ofValue policy) := by
    have hmember := hslots ("NamespaceResourcePolicy", c.namespaceResourcePolicy.map ofValue)
      (by simp)
    rwa [hpolicy] at hmember
  -- the policy is the twenty-third of twenty-five members
  iterate 22 obtain ⟨_, _, hbuild⟩ := Option.bind_eq_some_iff.mp hbuild
  obtain ⟨found, hfound, _⟩ := Option.bind_eq_some_iff.mp hbuild
  rw [Record.optional, Record.defaulted, hslot] at hfound
  exact levels_le_of_nullable hfound

/-- It is only its nesting that may keep the text of a cluster from being read. -/
theorem readsWithin {c : Cluster} (hwell : c.Policies Value.WellFormed) :
    (decode : Decoder Cluster).ReadsWithin 3 (encode c).reread := by
  obtain ⟨c', hwell', heq⟩ := exists_reread hwell
  rw [heq]
  refine ⟨nofun, ?_, ?_⟩
  · obtain ⟨policy, hpolicy⟩ := exists_optional_policy hwell'
    exact ⟨_, reads_encode fun r hholds => hpolicy r hholds⟩
  · intro levels found hdepth hread
    obtain ⟨n, rfl⟩ : ∃ n, levels = n + 2 + 1 := ⟨levels - 3, by omega⟩
    exact levels_encode_le (policy_levels_le hread)

end Cluster

/-- It is only its nesting that may keep the text of an endpoint from being read. -/
theorem EndpointAccess.readsWithin (e : EndpointAccess) :
    (decode : Decoder EndpointAccess).ReadsWithin 2 (encode e).reread := by
  have hexact : (encode e).reread = encode e := codec.exact (Plain.every _ e)
  rw [hexact]
  exact ⟨nofun, ⟨e, codec.reads (Plain.every _ e)⟩,
    fun hdepth _ => Nat.le_trans e.levels_encode_le hdepth⟩

section Progress

variable {M : Type} [Resource M] {p : ProgressRecord M}

/-- Only the model of a progress record may change on its way through text. -/
theorem ProgressRecord.reread_encode (p : ProgressRecord M) : p.encode.reread = .ofPresent [
    ("resourceModel", (p.model.map Resource.encode).map reread),
    ("stepFlags", some (.object (p.flags.toList.map fun entry => (entry.1, .bool entry.2)))),
    ("retryCounters",
      some (.object (p.counters.toList.map fun entry => (entry.1, .ofWord entry.2.toUInt64)))),
    ("rememberedIdentifiers",
      some (.object (p.identifiers.toList.map fun entry => (entry.1, .string entry.2))))] := by
  have hentries : ∀ {α : Type} {encode : α → Document}, (∀ a, (encode a).Exact) →
      ∀ entries : Dict α,
        (object (entries.toList.map fun entry => (entry.1, encode entry.2))).Exact :=
    fun h entries => exact_object.mpr (List.forall_mem_map.mpr fun entry _ => h entry.2)
  have hflags := hentries exact_bool p.flags
  have hcounters := hentries (fun n : UInt32 => exact_ofWord n.toUInt64) p.counters
  have hidentifiers := hentries exact_string p.identifiers
  rw [Exact] at hflags hcounters hidentifiers
  rw [encode, reread_ofPresent]
  simp only [List.map_cons, List.map_nil, Option.map_some, hflags, hcounters, hidentifiers]

/-- It is only its nesting that may keep the text of a progress record from being read, when that
holds of the text of its model. -/
theorem ProgressRecord.readsWithin {depth : Nat}
    (hmodel : ∀ model ∈ p.model,
      (Resource.decode : Decoder M).ReadsWithin (depth + 1) (Resource.encode model).reread) :
    (decode : Decoder (ProgressRecord M)).ReadsWithin (depth + 2) p.encode.reread := by
  refine ⟨nofun, ?_, ?_⟩
  · rw [reread_encode]
    cases hset : p.model with
    | none =>
      refine ⟨{ p with model := none }, p.reads_ofPresent fun r hholds => ?_⟩
      rw [Record.nullable, hholds.1]
      rfl
    | some model =>
      obtain ⟨found, hreads⟩ := (hmodel model hset).exists_reads
      refine ⟨{ p with model := some found }, p.reads_ofPresent fun r hholds => ?_⟩
      have hfound : r.Holds "resourceModel"
        ((some found).map fun _ => (Resource.encode model).reread) := hholds
      refine hfound.nullable (fun _ _ => (hmodel model hset).ne_null) ?_
      rintro _ ⟨⟩
      exact hreads
  · intro levels found hdepth hread
    obtain ⟨n, rfl⟩ : ∃ n, levels = n + 2 := ⟨levels - 2, by omega⟩
    rw [levels_reread]
    refine levels_encode_le fun model hset => ?_
    rw [reread_encode] at hread
    obtain ⟨r, hlevels, hbuild, hslots⟩ := Decoder.exists_of_record_ofPresent hread rfl (by decide)
    have hinner : r.levels = n + 1 := by omega
    have hslot : r.slot "resourceModel" = .given (Resource.encode model).reread := by
      have hmember := hslots ("resourceModel", (p.model.map Resource.encode).map reread) (by simp)
      rwa [hset] at hmember
    obtain ⟨_, hnullable, _⟩ := Option.bind_eq_some_iff.mp hbuild
    rw [Record.nullable, hslot] at hnullable
    simp only [Record.nullable_of_ne_null (hmodel model hset).ne_null] at hnullable
    obtain ⟨_, hdecode, _⟩ := Option.map_eq_some_iff.mp hnullable
    have hle := (hmodel model hset).levels_le (by omega) hdecode
    rwa [levels_reread, hinner] at hle

end Progress

end Lifecycle
