import Lifecycle.Cluster.Policy
import Lifecycle.Proofs.Dictionaries
import Lifecycle.Proofs.Json.Exact

/-!
# A policy by way of its text

The service keeps a policy as a text. A policy that is no text itself goes there as its
JSON text, from which it is read back exactly when it does not nest too deep
(`policyOfResponse?_eq_iff`). A policy that is a text goes there as it is and comes back as
what it denotes, or as itself when it is no JSON (`stored_policy_reads_back`).
-/

namespace Lifecycle

open Json

/-- The text of a well-formed value without floats is read as the value exactly when the value does
not nest too deep for a text. -/
theorem Json.Decoder.value_ofText?_eq_iff {v : Value} (hwell : v.WellFormed) (hfree : v.FloatFree) :
    Decoder.value.ofText? v.text = some v ↔ (Document.ofValue v).levels ≤ Document.maxLevels := by
  have hread : Document.read? v.text.toList = some (Document.ofValue v) :=
    (Document.read?_text _).trans (congrArg some hfree.exact)
  rw [Decoder.ofText?, hread, Option.bind_eq_bind, Option.bind_some, Decoder.value]
  exact ⟨Document.levels_le_of_toValue?, hwell.toValue?_ofValue⟩

namespace Cluster

/-- The answer to a policy reading hands out the policy document of a request that attached one. -/
def HandsOut (response : Value) (request : RemoteRequest) : Prop :=
  ∃ document, request.payload.get? "Policy" = some (.string document) ∧
    (response.get? "ResourcePolicy").bind (·.get? "Policy") = some (.string document)

variable {arn : String} {policy response : Value}

/-- The request that attaches a policy sends its text. -/
theorem get?_putPolicyRequest (arn : String) (policy : Value) :
    (putPolicyRequest arn policy).payload.get? "Policy" = some (.string (policyText policy)) :=
  Value.get?_ofMembers (by simp) _

/-- What is read out of an answer is what the text denotes, or the text itself. -/
theorem HandsOut.policyOfResponse?_eq (h : HandsOut response (putPolicyRequest arn policy)) :
    policyOfResponse? response = some
      ((Decoder.value.ofText? (policyText policy)).getD (.string (policyText policy))) := by
  obtain ⟨document, hsent, hstored⟩ := h
  rw [get?_putPolicyRequest] at hsent
  obtain rfl := Value.string.inj (Option.some.inj hsent)
  obtain ⟨attached, hattached, hpolicy⟩ := Option.bind_eq_some_iff.mp hstored
  simp [policyOfResponse?, hattached, hpolicy]

/-- A policy that is no text is sent as its JSON text. -/
theorem policyText_of_ne_string (h : ∀ text, policy ≠ .string text) :
    policyText policy = policy.text := by
  cases policy with
  | string text => exact absurd rfl (h text)
  | _ => rfl

/-- A policy without floats that is no text is read back exactly when it does not nest too deep. -/
theorem HandsOut.policyOfResponse?_eq_iff (h : HandsOut response (putPolicyRequest arn policy))
    (hwell : policy.WellFormed) (hfree : policy.FloatFree) (hkind : ∀ text, policy ≠ .string text) :
    policyOfResponse? response = some policy ↔
      (Document.ofValue policy).levels ≤ Document.maxLevels := by
  rw [h.policyOfResponse?_eq, policyText_of_ne_string hkind,
    ← Decoder.value_ofText?_eq_iff hwell hfree, Option.some.injEq]
  cases Decoder.value.ofText? policy.text with
  | none =>
    simp only [Option.getD_none, reduceCtorEq, iff_false]
    exact fun heq => hkind _ heq.symm
  | some read => simp

/-- A policy without floats that nests at most 127 levels, attached by a request and handed out by
the service. One that is no text is read back as it was. One that is a text is read as the value
that the text denotes, such as the value that it was written for, or as the text where it is no
JSON. -/
theorem stored_policy_reads_back (arn : String) (policy response : Value)
    (hwell : policy.WellFormed) (hfree : policy.FloatFree)
    (hlevels : (Document.ofValue policy).levels ≤ 127)
    (hstored : HandsOut response (putPolicyRequest arn policy)) :
    ((∀ text, policy ≠ .string text) → policyOfResponse? response = some policy) ∧
    ∀ text, policy = .string text →
      (∀ value, Decoder.value.ofText? text = some value →
        policyOfResponse? response = some value) ∧
      (Decoder.value.ofText? text = none → policyOfResponse? response = some (.string text)) ∧
      ∀ value : Value, value.WellFormed → value.FloatFree →
        (Document.ofValue value).levels ≤ 127 → text = value.text →
          policyOfResponse? response = some value := by
  refine ⟨fun hkind => (hstored.policyOfResponse?_eq_iff hwell hfree hkind).mpr hlevels, ?_⟩
  rintro text rfl
  have hread := hstored.policyOfResponse?_eq
  rw [policyText] at hread
  have hdenotes : ∀ value, Decoder.value.ofText? text = some value →
      policyOfResponse? response = some value := by
    intro value hvalue
    rw [hread, hvalue, Option.getD_some]
  refine ⟨hdenotes, ?_, ?_⟩
  · intro hnone
    rw [hread, hnone, Option.getD_none]
  · intro value hwell hfree hlevels htext
    have hread := (Decoder.value_ofText?_eq_iff hwell hfree).mpr hlevels
    rw [← htext] at hread
    exact hdenotes value hread

/-- A policy whose text needs escapes and nests. -/
def grantingPolicy : Value :=
  .object [
    ("Statement", .array [.object [("Effect", .string "Allow"), ("Sid", .string "a \"read\"\n")]]),
    ("Version", .string "2012-10-17")]

/-- The answer to a policy reading with a policy that the service keeps. -/
def kept (policy : Value) : Value :=
  .object [("ResourcePolicy", .object [("Policy", .string (policyText policy))])]

/-- What the service keeps it hands out. -/
theorem handsOut_kept (arn : String) (policy : Value) :
    HandsOut (kept policy) (putPolicyRequest arn policy) :=
  ⟨policyText policy, get?_putPolicyRequest arn policy, rfl⟩

/-- The policy is read back, as well as a text that is no JSON; the text of an empty list is read as
that list. -/
theorem granted_policy_reads_back :
    grantingPolicy.WellFormed ∧ grantingPolicy.FloatFree ∧
    (Document.ofValue grantingPolicy).levels ≤ 127 ∧
    HandsOut (kept grantingPolicy) (putPolicyRequest "arn:ns" grantingPolicy) ∧
    policyOfResponse? (kept grantingPolicy) = some grantingPolicy ∧
    policyOfResponse? (kept (.string "allow all")) = some (.string "allow all") ∧
    policyOfResponse? (kept (.string "[ ]")) = some (.array []) := by
  have hwell : grantingPolicy.WellFormed :=
    ⟨by decide +kernel, ⟨⟨by decide +kernel, trivial, trivial, trivial⟩, trivial⟩, trivial, trivial⟩
  have hfree : grantingPolicy.FloatFree :=
    ⟨⟨⟨trivial, trivial, trivial⟩, trivial⟩, trivial, trivial⟩
  have hlevels : (Document.ofValue grantingPolicy).levels ≤ 127 := by decide
  have hstored := handsOut_kept "arn:ns" grantingPolicy
  have htext := fun text => (stored_policy_reads_back "arn:ns" (.string text) (kept (.string text))
    trivial trivial (Nat.zero_le _) (handsOut_kept _ _)).2 text rfl
  exact ⟨hwell, hfree, hlevels, hstored,
    (stored_policy_reads_back "arn:ns" _ _ hwell hfree hlevels hstored).1 nofun,
    (htext "allow all").2.1 rfl, (htext "[ ]").1 _ rfl⟩

end Cluster

end Lifecycle
