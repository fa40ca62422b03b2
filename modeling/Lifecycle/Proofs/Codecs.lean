import Lifecycle.Cluster.Model
import Lifecycle.EndpointAccess.Model
import Lifecycle.Proofs.Json.Codec

/-!
# Codecs of the models

Tags, log destinations, places to connect to, clusters and endpoints are read as they
are written. The policy is the only free-form part of a cluster; everything else has a
fixed shape.
-/

namespace Lifecycle

open Json Document

section Members

variable {r : Record} {name : String}

theorem required_string {s : String} (h : r.Holds name (some (.string s))) :
    r.required name .string = some s :=
  h.required (Codec.string.reads (Plain.every _ s))

theorem optional_string {s : Option String} (h : r.Holds name (s.map .string)) :
    r.optional name .string = some s :=
  Codec.string.optional h fun b _ => Plain.every _ b

theorem optional_strings {l : Option (List String)}
    (h : r.Holds name (l.map fun l => .array (l.map .string))) :
    r.optional name (.list .string) = some l :=
  Codec.string.list.optional h fun b _ => Plain.every _ b

theorem optional_bool {b : Option Bool} (h : r.Holds name (b.map .bool)) :
    r.optional name .bool = some b :=
  Codec.bool.optional h fun b _ => Plain.every _ b

theorem optional_word16 {n : Option UInt16} (h : r.Holds name (n.map fun n => .ofWord n.toUInt64)) :
    r.optional name .word16 = some n :=
  Codec.word16.optional h fun b _ => Plain.every _ b

theorem optional_word32 {n : Option UInt32} (h : r.Holds name (n.map fun n => .ofWord n.toUInt64)) :
    r.optional name .word32 = some n :=
  Codec.word32.optional h fun b _ => Plain.every _ b

end Members

instance : FreeForm Tag := ⟨fun _ => []⟩

instance : Plain Tag := ⟨fun _ => rfl⟩

/-- Tags are read as they are written. -/
theorem Tag.codec : Codec 1 Tag.encode Tag.decode where
  ne_null _ := nofun
  reads {t} _ := by
    refine Decoder.reads_record [("Key", some (.string t.key)), ("Value", some (.string t.value))]
      rfl (by decide) fun r hr => ?_
    simp only [List.forall_mem_cons] at hr
    obtain ⟨hkey, hvalue, _⟩ := hr
    rw [required_string hkey, required_string hvalue]
    rfl
  exact _ := by simp [encode]
  proper _ := Plain.every _ _
  within _ := by simp [encode]

instance : FreeForm LoggingProperties := ⟨fun _ => []⟩

instance : Plain LoggingProperties := ⟨fun _ => rfl⟩

/-- Log destinations are read as they are written. -/
theorem LoggingProperties.codec : Codec 2 LoggingProperties.encode LoggingProperties.decode where
  ne_null _ := nofun
  reads {l} _ := by
    refine Decoder.reads_record _ rfl (by decide) fun r hr => ?_
    simp only [List.forall_mem_cons] at hr
    obtain ⟨hbucket, hstart, htype, hexports, _⟩ := hr
    rw [optional_string hbucket, optional_string hstart, optional_string htype,
      optional_strings hexports]
    rfl
  exact _ := by simp [encode]
  proper _ := Plain.every _ _
  within _ := by simp [encode]

instance : FreeForm Endpoint := ⟨fun _ => []⟩

instance : Plain Endpoint := ⟨fun _ => rfl⟩

/-- Places to connect to are read as they are written. -/
theorem Endpoint.codec : Codec 1 Endpoint.encode Endpoint.decode where
  ne_null _ := nofun
  reads {e} _ := by
    refine Decoder.reads_record _ rfl (by decide) fun r hr => ?_
    simp only [List.forall_mem_cons] at hr
    obtain ⟨haddress, hport, _⟩ := hr
    rw [optional_string haddress, optional_word16 hport]
    rfl
  exact _ := by simp [encode]
  proper _ := Plain.every _ _
  within _ := by simp [encode]

namespace Cluster

instance : FreeForm Cluster := ⟨fun c => c.namespaceResourcePolicy.toList⟩

theorem mem_parts {c : Cluster} {part : Value} :
    part ∈ FreeForm.parts c ↔ part ∈ c.namespaceResourcePolicy :=
  Option.mem_toList

/-- The policy of a cluster is read as it is written. -/
theorem optional_policy {r : Record} {name : String} {policy : Option Value}
    (h : r.Holds name (policy.map .ofValue))
    (hproper : ∀ part ∈ policy, part.WellFormed ∧ part ≠ .null) :
    r.optional name .value = some policy := by
  rw [h.optional_eq_nullable]
  refine h.nullable (fun part hpart => ?_) fun part hpart levels => ?_
  · exact ofValue_ne_null (hproper part hpart).2
  · exact (hproper part hpart).1.toValue?_ofValue

/-- A cluster is read as it is written, but for what is read for its policy. -/
theorem reads_encode {c : Cluster} {policy : Option Value}
    (hpolicy : ∀ r : Record,
      r.Holds "NamespaceResourcePolicy" (c.namespaceResourcePolicy.map .ofValue) →
        r.optional "NamespaceResourcePolicy" .value = some policy) :
    decode.Reads (encode c) { c with namespaceResourcePolicy := policy } := by
  refine Decoder.reads_record _ rfl (by decide +kernel) fun r hr => ?_
  simp only [List.forall_mem_cons] at hr
  obtain ⟨hidentifier, husername, hpassword, hnodeType, hnodes, htype, hdatabase, hversion,
    hupgrade, htrack, hport, hpublic, hencrypted, hkey, hroles, hgroups, hsnapshot, hsource, howner,
    htags, hlogging, haqua, hholds, hendpoint, harn, _⟩ := hr
  rw [optional_string hidentifier, optional_string husername, optional_string hpassword,
    optional_string hnodeType, optional_word32 hnodes, optional_string htype,
    optional_string hdatabase, optional_string hversion, optional_bool hupgrade,
    optional_string htrack, optional_word16 hport, optional_bool hpublic,
    optional_bool hencrypted, optional_string hkey, optional_strings hroles,
    optional_strings hgroups, optional_string hsnapshot, optional_string hsource,
    optional_string howner, Tag.codec.list.optional htags fun _ _ => Plain.every _ _,
    LoggingProperties.codec.optional hlogging fun _ _ => Plain.every _ _, optional_string haqua,
    hpolicy r hholds, Endpoint.codec.optional hendpoint fun _ _ => Plain.every _ _,
    optional_string harn]
  rfl

/-- The policy of a cluster that was read is proper and was found one level below the cluster. -/
theorem policy_of_decode {levels : Nat} {d : Document} {c : Cluster}
    (h : decode levels d = some c) :
    ∃ inner, levels = inner + 1 ∧ ∀ policy ∈ c.namespaceResourcePolicy,
      policy.WellFormed ∧ policy ≠ .null ∧ (ofValue policy).levels ≤ inner := by
  obtain ⟨r, rfl, hbuild⟩ := Decoder.exists_of_record h
  -- the policy is the twenty-third of twenty-five members
  iterate 22 obtain ⟨_, _, hbuild⟩ := Option.bind_eq_some_iff.mp hbuild
  obtain ⟨policy, hpolicy, hbuild⟩ := Option.bind_eq_some_iff.mp hbuild
  iterate 2 obtain ⟨_, _, hbuild⟩ := Option.bind_eq_some_iff.mp hbuild
  obtain rfl := Option.some.inj hbuild
  refine ⟨_, rfl, fun part hpart => ?_⟩
  obtain ⟨d, hne, hread⟩ := Record.exists_of_optional hpolicy part hpart
  obtain ⟨hwell, hlevels⟩ := wellFormed_of_toValue? hread
  refine ⟨hwell, ?_, hlevels⟩
  rintro rfl
  exact hne (eq_null_of_toValue? hread)

/-- A cluster nests one level deeper than its policy, but at least three levels deep. -/
theorem levels_encode_le {c : Cluster} {n : Nat}
    (h : ∀ policy ∈ c.namespaceResourcePolicy, (ofValue policy).levels ≤ n + 2) :
    c.encode.levels ≤ n + 3 := by
  have htag : ∀ tag : Tag, tag.encode.levels ≤ n + 1 := fun tag => by simp [Tag.encode]
  have hlogging : ∀ l : LoggingProperties, l.encode.levels ≤ n + 2 :=
    fun l => by simp [LoggingProperties.encode]
  have hendpoint : ∀ e : Endpoint, e.encode.levels ≤ n + 2 := fun e => by simp [Endpoint.encode]
  simp only [encode, levels_ofPresent_le, List.forall_mem_cons, Option.forall_mem_map,
    levels_string, levels_bool, levels_ofWord, levels_array_le, List.forall_mem_map, htag,
    hlogging, hendpoint, Nat.zero_le, implies_true, true_and, and_true, List.not_mem_nil,
    false_implies]
  exact h

/-- Clusters are read as they are written. -/
theorem codec : Codec 3 encode decode where
  ne_null _ := nofun
  reads {c} hproper := reads_encode fun _ hholds =>
    optional_policy hholds fun part hpart => hproper part (mem_parts.mpr hpart)
  exact {c} hfloat := by
    have hpolicy : ∀ policy ∈ c.namespaceResourcePolicy, (ofValue policy).Exact :=
      fun policy hpolicy => (hfloat policy (mem_parts.mpr hpolicy)).exact
    have htag : ∀ tag : Tag, tag.encode.Exact := fun tag => Tag.codec.exact (Plain.every _ tag)
    have hlogging : ∀ l : LoggingProperties, l.encode.Exact :=
      fun l => LoggingProperties.codec.exact (Plain.every _ l)
    have hendpoint : ∀ e : Endpoint, e.encode.Exact :=
      fun e => Endpoint.codec.exact (Plain.every _ e)
    simp only [encode, exact_ofPresent, List.forall_mem_cons, Option.forall_mem_map, exact_string,
      exact_bool, exact_ofWord, exact_array, List.forall_mem_map, htag, hlogging, hendpoint,
      implies_true, true_and, and_true, List.not_mem_nil, false_implies]
    exact hpolicy
  proper {levels d c} hread := by
    obtain ⟨_, _, hpolicy⟩ := policy_of_decode hread
    intro part hpart
    obtain ⟨hwell, hne, _⟩ := hpolicy part (mem_parts.mp hpart)
    exact ⟨hwell, hne⟩
  within {levels d c} hread := by
    obtain ⟨inner, rfl, hpolicy⟩ := policy_of_decode hread
    obtain ⟨n, hn⟩ : ∃ n, max 2 inner = n + 2 := ⟨max 2 inner - 2, by omega⟩
    have hmax : max 3 (inner + 1) = n + 3 := by omega
    rw [hmax]
    refine levels_encode_le fun policy hmem => ?_
    have hlevels := (hpolicy policy hmem).2.2
    omega

end Cluster

namespace EndpointAccess

instance : FreeForm EndpointAccess := ⟨fun _ => []⟩

instance : Plain EndpointAccess := ⟨fun _ => rfl⟩

theorem levels_encode_le (e : EndpointAccess) : e.encode.levels ≤ 2 := by
  simp [encode]

/-- Endpoints are read as they are written. -/
theorem codec : Codec 2 encode decode where
  ne_null _ := nofun
  reads {e} _ := by
    refine Decoder.reads_record _ rfl (by decide) fun r hr => ?_
    simp only [List.forall_mem_cons] at hr
    obtain ⟨hname, hidentifier, howner, hsubnets, hgroups, haddress, hport, hstatus, _⟩ := hr
    rw [optional_string hname, optional_string hidentifier, optional_string howner,
      optional_string hsubnets, optional_strings hgroups, optional_string haddress,
      optional_word16 hport, optional_string hstatus]
    rfl
  exact _ := by simp [encode]
  proper _ := Plain.every _ _
  within _ := Nat.le_trans (levels_encode_le _) (Nat.le_max_left _ _)

end EndpointAccess

end Lifecycle
