import Lifecycle.Dispatch
import Lifecycle.Proofs.Codecs

/-!
# Round trips of records over text

Progress records, requests and responses are read back from their text as they were
written, and everything that was read can be written and read again.
-/

namespace Lifecycle

open Json Document

namespace Operation

instance : FreeForm Operation := ⟨fun _ => []⟩

instance : Plain Operation := ⟨fun _ => rfl⟩

/-- Operations are read as they are written. -/
theorem codec : Codec 0 encode decode where
  ne_null _ := nofun
  reads {operation} _ _ _ := by cases operation <;> rfl
  exact _ := rfl
  proper _ := Plain.every _ _
  within _ := Nat.zero_le _

end Operation

namespace OperationStatus

instance : FreeForm OperationStatus := ⟨fun _ => []⟩

instance : Plain OperationStatus := ⟨fun _ => rfl⟩

/-- Statuses are read as they are written. -/
theorem codec : Codec 0 encode decode where
  ne_null _ := nofun
  reads {status} _ _ _ := by cases status <;> rfl
  exact _ := rfl
  proper _ := Plain.every _ _
  within _ := Nat.zero_le _

end OperationStatus

namespace FailureKind

instance : FreeForm FailureKind := ⟨fun _ => []⟩

instance : Plain FailureKind := ⟨fun _ => rfl⟩

/-- Kinds of failure are read as they are written. -/
theorem codec : Codec 0 encode decode where
  ne_null _ := nofun
  reads {kind} _ _ _ := by cases kind <;> rfl
  exact _ := rfl
  proper _ := Plain.every _ _
  within _ := Nat.zero_le _

end FailureKind

section Found

variable {M : Type} [Resource M] {levels : Nat} {d : Document}

/-- A progress record nests one level deeper than its model, but at least two levels deep. -/
theorem ProgressRecord.levels_encode_le {p : ProgressRecord M} {n : Nat}
    (h : ∀ model ∈ p.model, (Resource.encode model).levels ≤ n + 1) : p.encode.levels ≤ n + 2 := by
  simp only [encode, levels_ofPresent_le, List.forall_mem_cons, Option.forall_mem_map,
    Option.mem_some_iff, forall_eq', levels_object_le, List.forall_mem_map, levels_bool,
    levels_ofWord, levels_string, Nat.zero_le, implies_true, and_true, List.not_mem_nil,
    false_implies]
  exact h

/-- The model of a record that was read was found one level below the record. -/
theorem ProgressRecord.exists_of_decode {p : ProgressRecord M} (h : decode levels d = some p) :
    ∃ inner, levels = inner + 1 ∧ ∀ model ∈ p.model, ∃ d, Resource.decode inner d = some model := by
  obtain ⟨r, rfl, hbuild⟩ := Decoder.exists_of_record h
  obtain ⟨model, hmodel, hbuild⟩ := Option.bind_eq_some_iff.mp hbuild
  iterate 3 obtain ⟨_, _, hbuild⟩ := Option.bind_eq_some_iff.mp hbuild
  obtain rfl := Option.some.inj hbuild
  exact ⟨r.levels, rfl, Record.exists_of_nullable hmodel⟩

/-- The models and the progress of a request that was read were found one level below the
request. -/
theorem HandlerRequest.exists_of_decode {q : HandlerRequest M} (h : decode levels d = some q) :
    ∃ inner, levels = inner + 1 ∧
      (∀ model ∈ q.desired, ∃ d, Resource.decode inner d = some model) ∧
      (∀ model ∈ q.previous, ∃ d, Resource.decode inner d = some model) ∧
      ∀ p ∈ q.progress, ∃ d, ProgressRecord.decode inner d = some p := by
  obtain ⟨r, rfl, hbuild⟩ := Decoder.exists_of_record h
  obtain ⟨_, _, hbuild⟩ := Option.bind_eq_some_iff.mp hbuild
  obtain ⟨desired, hdesired, hbuild⟩ := Option.bind_eq_some_iff.mp hbuild
  obtain ⟨previous, hprevious, hbuild⟩ := Option.bind_eq_some_iff.mp hbuild
  obtain ⟨progress, hprogress, hbuild⟩ := Option.bind_eq_some_iff.mp hbuild
  obtain ⟨_, _, hbuild⟩ := Option.bind_eq_some_iff.mp hbuild
  obtain rfl := Option.some.inj hbuild
  exact ⟨r.levels, rfl, Record.exists_of_nullable hdesired, Record.exists_of_nullable hprevious,
    Record.exists_of_nullable hprogress⟩

/-- The models and the progress of a response that was read were found one level below the
response. -/
theorem HandlerResponse.exists_of_decode {a : HandlerResponse M} (h : decode levels d = some a) :
    ∃ inner, levels = inner + 1 ∧
      (∀ model ∈ a.model, ∃ d, Resource.decode inner d = some model) ∧
      (∀ models ∈ a.models, ∃ d, Decoder.list Resource.decode inner d = some models) ∧
      ∀ p ∈ a.progress, ∃ d, ProgressRecord.decode inner d = some p := by
  obtain ⟨r, rfl, hbuild⟩ := Decoder.exists_of_record h
  obtain ⟨_, _, hbuild⟩ := Option.bind_eq_some_iff.mp hbuild
  obtain ⟨model, hmodel, hbuild⟩ := Option.bind_eq_some_iff.mp hbuild
  obtain ⟨models, hmodels, hbuild⟩ := Option.bind_eq_some_iff.mp hbuild
  iterate 2 obtain ⟨_, _, hbuild⟩ := Option.bind_eq_some_iff.mp hbuild
  obtain ⟨progress, hprogress, hbuild⟩ := Option.bind_eq_some_iff.mp hbuild
  iterate 2 obtain ⟨_, _, hbuild⟩ := Option.bind_eq_some_iff.mp hbuild
  obtain rfl := Option.some.inj hbuild
  exact ⟨r.levels, rfl, Record.exists_of_nullable hmodel, Record.exists_of_nullable hmodels,
    Record.exists_of_nullable hprogress⟩

end Found

section Parts

variable {M : Type} [FreeForm M] {P : Value → Prop}

instance : FreeForm (ProgressRecord M) := ⟨fun p => FreeForm.parts p.model⟩

instance : FreeForm (HandlerRequest M) :=
  ⟨fun q => FreeForm.parts q.desired ++ FreeForm.parts q.previous ++ FreeForm.parts q.progress⟩

instance : FreeForm (HandlerResponse M) :=
  ⟨fun a => FreeForm.parts a.model ++ FreeForm.parts a.models ++ FreeForm.parts a.progress⟩

theorem ProgressRecord.every_iff {p : ProgressRecord M} :
    Every P p ↔ ∀ model ∈ p.model, Every P model :=
  every_option

theorem HandlerRequest.every_iff {q : HandlerRequest M} :
    Every P q ↔ (∀ model ∈ q.desired, Every P model) ∧ (∀ model ∈ q.previous, Every P model) ∧
      ∀ p ∈ q.progress, Every P p := by
  rw [← every_option, ← every_option, ← every_option, ← and_assoc]
  exact List.forall_mem_append.trans (and_congr_left' List.forall_mem_append)

theorem HandlerResponse.every_iff {a : HandlerResponse M} :
    Every P a ↔ (∀ model ∈ a.model, Every P model) ∧ (∀ models ∈ a.models, Every P models) ∧
      ∀ p ∈ a.progress, Every P p := by
  rw [← every_option, ← every_option, ← every_option, ← and_assoc]
  exact List.forall_mem_append.trans (and_congr_left' List.forall_mem_append)

end Parts

section Codecs

variable {M : Type} [Resource M] [FreeForm M] {depth : Nat}

omit [FreeForm M] in
/-- A progress record is read as it is written, but for what is read for its model. -/
theorem ProgressRecord.reads_ofPresent (p : ProgressRecord M) {document : Option Document}
    {model : Option M}
    (hmodel : ∀ r : Record, r.Holds "resourceModel" document →
      r.nullable "resourceModel" Resource.decode = some model) :
    decode.Reads (.ofPresent [
      ("resourceModel", document),
      ("stepFlags", some (.object (p.flags.toList.map fun entry => (entry.1, .bool entry.2)))),
      ("retryCounters",
        some (.object (p.counters.toList.map fun entry => (entry.1, .ofWord entry.2.toUInt64)))),
      ("rememberedIdentifiers",
        some (.object (p.identifiers.toList.map fun entry => (entry.1, .string entry.2))))])
      { p with model := model } := by
  refine Decoder.reads_record _ rfl (by decide) fun r hr => ?_
  simp only [List.forall_mem_cons] at hr
  obtain ⟨hholds, hflags, hcounters, hidentifiers, _⟩ := hr
  rw [hmodel r hholds, hflags.defaulted (Codec.bool.reads_dict p.flags),
    hcounters.defaulted (Codec.word32.reads_dict p.counters),
    hidentifiers.defaulted (Codec.string.reads_dict p.identifiers)]
  rfl

/-- Progress records are read as they are written when models are. -/
theorem ProgressRecord.codec (h : Codec (depth + 1) Resource.encode (Resource.decode : Decoder M)) :
    Codec (depth + 2) encode (decode : Decoder (ProgressRecord M)) where
  ne_null _ := nofun
  reads {p} hproper := p.reads_ofPresent fun _ hholds => h.nullable hholds (every_iff.mp hproper)
  exact {p} hfloat := by
    simp only [encode, exact_ofPresent, List.forall_mem_cons, Option.forall_mem_map,
      Option.mem_some_iff, forall_eq', exact_object, List.forall_mem_map, exact_bool, exact_ofWord,
      exact_string, implies_true, and_true, List.not_mem_nil, false_implies]
    exact fun model hmem => h.exact (every_iff.mp hfloat model hmem)
  proper {levels d p} hread := by
    obtain ⟨_, _, hmodel⟩ := exists_of_decode hread
    rw [Proper, every_iff]
    intro model hmem
    obtain ⟨_, hread⟩ := hmodel model hmem
    exact h.proper hread
  within {levels d p} hread := by
    obtain ⟨inner, rfl, hmodel⟩ := exists_of_decode hread
    obtain ⟨n, hn⟩ : ∃ n, max (depth + 1) inner = n + 1 := ⟨max (depth + 1) inner - 1, by omega⟩
    have hmax : max (depth + 2) (inner + 1) = n + 1 + 1 := by omega
    rw [hmax]
    refine levels_encode_le fun model hmem => ?_
    obtain ⟨_, hread⟩ := hmodel model hmem
    rw [← hn]
    exact h.within hread

/-- Requests are read as they are written when models are. -/
theorem HandlerRequest.codec (h : Codec (depth + 1) Resource.encode (Resource.decode : Decoder M)) :
    Codec (depth + 3) encode (decode : Decoder (HandlerRequest M)) where
  ne_null _ := nofun
  reads {q} hproper := by
    obtain ⟨hdesiredProper, hpreviousProper, hprogressProper⟩ := every_iff.mp hproper
    refine Decoder.reads_record
      [("operation", some q.operation.encode),
        ("desiredModel", some (.orNull (q.desired.map Resource.encode))),
        ("previousModel", some (.orNull (q.previous.map Resource.encode))),
        ("progress", some (.orNull (q.progress.map ProgressRecord.encode))),
        ("nextToken", some (.orNull (q.nextToken.map .string)))] rfl (by decide) fun r hr => ?_
    simp only [List.forall_mem_cons] at hr
    obtain ⟨hoperation, hdesired, hprevious, hprogress, htoken, _⟩ := hr
    rw [hoperation.required (Operation.codec.reads (Plain.every _ _)),
      h.nullable_orNull hdesired hdesiredProper, h.nullable_orNull hprevious hpreviousProper,
      (ProgressRecord.codec h).nullable_orNull hprogress hprogressProper,
      Codec.string.optional_orNull htoken fun _ _ => Plain.every _ _]
    rfl
  exact {q} hfloat := by
    obtain ⟨hdesired, hprevious, hprogress⟩ := every_iff.mp hfloat
    simp only [encode, exact_object, List.forall_mem_cons, exact_orNull, Option.forall_mem_map,
      exact_string, Operation.encode, implies_true, true_and, and_true, List.not_mem_nil,
      false_implies]
    exact ⟨fun model hmem => h.exact (hdesired model hmem),
      fun model hmem => h.exact (hprevious model hmem),
      fun p hmem => (ProgressRecord.codec h).exact (hprogress p hmem)⟩
  proper {levels d q} hread := by
    obtain ⟨_, _, hdesired, hprevious, hprogress⟩ := exists_of_decode hread
    rw [Proper, every_iff]
    refine ⟨fun model hmem => ?_, fun model hmem => ?_, fun p hmem => ?_⟩
    · exact h.proper (hdesired model hmem).choose_spec
    · exact h.proper (hprevious model hmem).choose_spec
    · exact (ProgressRecord.codec h).proper (hprogress p hmem).choose_spec
  within {levels d q} hread := by
    obtain ⟨inner, rfl, hdesired, hprevious, hprogress⟩ := exists_of_decode hread
    have hmodel : ∀ {d : Document} {model : M}, Resource.decode inner d = some model →
        (Resource.encode model).levels ≤ max (depth + 2) inner := by
      intro d model hread
      have hlevels := h.within hread
      omega
    have hmax : max (depth + 3) (inner + 1) = max (depth + 2) inner + 1 := by omega
    rw [hmax]
    simp only [encode, levels_object_le, List.forall_mem_cons, levels_orNull_le,
      Option.forall_mem_map, levels_string, Operation.encode, Nat.zero_le, implies_true, true_and,
      and_true, List.not_mem_nil, false_implies]
    refine ⟨fun model hmem => ?_, fun model hmem => ?_, fun p hmem => ?_⟩
    · exact hmodel (hdesired model hmem).choose_spec
    · exact hmodel (hprevious model hmem).choose_spec
    · exact (ProgressRecord.codec h).within (hprogress p hmem).choose_spec

/-- Responses are read as they are written when models are. -/
theorem HandlerResponse.codec
    (h : Codec (depth + 1) Resource.encode (Resource.decode : Decoder M)) :
    Codec (depth + 3) encode (decode : Decoder (HandlerResponse M)) where
  ne_null _ := nofun
  reads {a} hproper := by
    obtain ⟨hmodelProper, hmodelsProper, hprogressProper⟩ := every_iff.mp hproper
    refine Decoder.reads_record _ rfl (by decide) fun r hr => ?_
    simp only [List.forall_mem_cons] at hr
    obtain ⟨hstatus, hmodel, hmodels, htoken, hdelay, hprogress, herror, hmessage, _⟩ := hr
    rw [hstatus.required (OperationStatus.codec.reads (Plain.every _ _)),
      h.nullable hmodel hmodelProper, h.list.nullable hmodels hmodelsProper,
      Codec.string.optional htoken fun _ _ => Plain.every _ _,
      hdelay.defaulted (Codec.word64.reads (Plain.every _ _)),
      (ProgressRecord.codec h).nullable hprogress hprogressProper,
      FailureKind.codec.optional herror fun _ _ => Plain.every _ _,
      Codec.string.optional hmessage fun _ _ => Plain.every _ _]
    rfl
  exact {a} hfloat := by
    obtain ⟨hmodel, hmodels, hprogress⟩ := every_iff.mp hfloat
    simp only [encode, exact_ofPresent, List.forall_mem_cons, Option.forall_mem_map,
      Option.mem_some_iff, forall_eq', exact_string, exact_ofWord, OperationStatus.encode,
      FailureKind.encode, implies_true, true_and, and_true, List.not_mem_nil, false_implies]
    exact ⟨fun model hmem => h.exact (hmodel model hmem),
      fun models hmem => h.list.exact (hmodels models hmem),
      fun p hmem => (ProgressRecord.codec h).exact (hprogress p hmem)⟩
  proper {levels d a} hread := by
    obtain ⟨_, _, hmodel, hmodels, hprogress⟩ := exists_of_decode hread
    rw [Proper, every_iff]
    refine ⟨fun model hmem => ?_, fun models hmem => ?_, fun p hmem => ?_⟩
    · exact h.proper (hmodel model hmem).choose_spec
    · exact h.list.proper (hmodels models hmem).choose_spec
    · exact (ProgressRecord.codec h).proper (hprogress p hmem).choose_spec
  within {levels d a} hread := by
    obtain ⟨inner, rfl, hmodel, hmodels, hprogress⟩ := exists_of_decode hread
    have hmax : max (depth + 3) (inner + 1) = max (depth + 2) inner + 1 := by omega
    rw [hmax]
    simp only [encode, levels_ofPresent_le, List.forall_mem_cons, Option.forall_mem_map,
      Option.mem_some_iff, forall_eq', levels_string, levels_ofWord, OperationStatus.encode,
      FailureKind.encode, Nat.zero_le, implies_true, true_and, and_true, List.not_mem_nil,
      false_implies]
    refine ⟨fun model hmem => ?_, fun models hmem => ?_, fun p hmem => ?_⟩
    · have hlevels := h.within (hmodel model hmem).choose_spec
      omega
    · exact h.list.within (hmodels models hmem).choose_spec
    · exact (ProgressRecord.codec h).within (hprogress p hmem).choose_spec

end Codecs

/-- Progress records, requests and responses of both families make round trips over text. -/
theorem wire_roundTrips :
    (RoundTrips ProgressRecord.encode (ProgressRecord.decode : Decoder (ProgressRecord Cluster)) ∧
      RoundTrips HandlerRequest.encode (HandlerRequest.decode : Decoder (HandlerRequest Cluster)) ∧
      RoundTrips HandlerResponse.encode
        (HandlerResponse.decode : Decoder (HandlerResponse Cluster))) ∧
    RoundTrips ProgressRecord.encode
        (ProgressRecord.decode : Decoder (ProgressRecord EndpointAccess)) ∧
      RoundTrips HandlerRequest.encode
        (HandlerRequest.decode : Decoder (HandlerRequest EndpointAccess)) ∧
      RoundTrips HandlerResponse.encode
        (HandlerResponse.decode : Decoder (HandlerResponse EndpointAccess)) := by
  have hcluster : Codec 3 Resource.encode (Resource.decode : Decoder Cluster) := Cluster.codec
  have hendpoint : Codec 2 Resource.encode (Resource.decode : Decoder EndpointAccess) :=
    EndpointAccess.codec
  refine ⟨⟨?_, ?_, ?_⟩, ?_, ?_, ?_⟩
  · exact (ProgressRecord.codec hcluster).roundTrips (by decide)
  · exact (HandlerRequest.codec hcluster).roundTrips (by decide)
  · exact (HandlerResponse.codec hcluster).roundTrips (by decide)
  · exact (ProgressRecord.codec hendpoint).roundTrips (by decide)
  · exact (HandlerRequest.codec hendpoint).roundTrips (by decide)
  · exact (HandlerResponse.codec hendpoint).roundTrips (by decide)

/-- A policy whose text needs escapes and nests. -/
def quotedPolicy : Value :=
  .object [
    ("Note", .string "a \"quoted\" word,\ta tab and \x01"),
    ("Statement", .array [.object [("Effect", .string "Allow"), ("Weight", .number (.ofWord 0))]])]

/-- An answer that carries a policy twice, in the model and in the progress. -/
def policyAnswer : HandlerResponse Cluster where
  status := .inProgress
  model := some { clusterIdentifier := some "analytics", namespaceResourcePolicy := some quotedPolicy }
  callbackDelay := 30
  progress := some
    { model := some { namespaceResourcePolicy := some quotedPolicy, port := some 5439 }
      flags := Dict.empty.insert "create-cluster" true
      counters := Dict.empty.insert "create-cluster-polls" 3 }

/-- The answer is read back from its text. -/
theorem policyAnswer_read : HandlerResponse.decode.ofText? policyAnswer.encode.text =
    some policyAnswer := by
  have hparts : FreeForm.parts policyAnswer = [quotedPolicy, quotedPolicy] := rfl
  have hwell : quotedPolicy.WellFormed :=
    ⟨by decide +kernel, trivial, ⟨⟨by decide +kernel, trivial, trivial, trivial⟩, trivial⟩, trivial⟩
  have hfloat : quotedPolicy.FloatFree := ⟨trivial, ⟨⟨trivial, trivial, trivial⟩, trivial⟩, trivial⟩
  refine (wire_roundTrips.1.2.2.1 policyAnswer ?_ ?_ (by decide +kernel)).1
  · intro part hpart
    rw [hparts] at hpart
    have heq : part = quotedPolicy := by simpa using hpart
    exact heq ▸ ⟨hwell, nofun⟩
  · intro part hpart
    rw [hparts] at hpart
    have heq : part = quotedPolicy := by simpa using hpart
    exact heq ▸ hfloat

end Lifecycle
