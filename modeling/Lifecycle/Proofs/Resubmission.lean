import Lifecycle.Proofs.HandOver
import Lifecycle.Proofs.Invocations
import Lifecycle.Proofs.Json.WithMember
import Lifecycle.Proofs.Rereading

/-!
# Resuming a suspended operation

The answer of a suspended operation carries its progress, and whoever asked sends the
request again with that progress in it. The progress holds a copy of the desired model
one level below where the request had it, and a text may nest only so deep: the request
is turned away again when the copy takes the text one level too deep.
-/

namespace Lifecycle

open Json Document Record

variable {M : Type} [Resource M]

/-- The names of the members of a request, in order. -/
def HandlerRequest.memberNames : List String :=
  ["operation", "desiredModel", "previousModel", "progress", "nextToken"]

/-- A request that is read is read with other progress as well, exactly when that progress is. -/
theorem HandlerRequest.isSome_decode_iff {levels : Nat} {d d' p : Document} {q : HandlerRequest M}
    (hread : decode (levels + 1) d = some q) (hset : WithMember memberNames "progress" p d d')
    (hne : p ≠ .null) :
    (decode (levels + 1) d' : Option (HandlerRequest M)).isSome ↔
      (ProgressRecord.decode levels p : Option (ProgressRecord M)).isSome := by
  obtain ⟨r, hr, hbuild⟩ := Option.bind_eq_some_iff.mp hread
  obtain rfl : levels = r.levels := Nat.succ.inj (levels_of_ofDocument? hr)
  obtain ⟨operation, hoperation, hbuild⟩ := Option.bind_eq_some_iff.mp hbuild
  obtain ⟨desired, hdesired, hbuild⟩ := Option.bind_eq_some_iff.mp hbuild
  obtain ⟨previous, hprevious, hbuild⟩ := Option.bind_eq_some_iff.mp hbuild
  obtain ⟨progress, hprogress, hbuild⟩ := Option.bind_eq_some_iff.mp hbuild
  obtain ⟨token, htoken, _⟩ := Option.bind_eq_some_iff.mp hbuild
  obtain ⟨r', hr', hbut⟩ := exists_sameBut_of_withMember hset hr (by decide)
    (slot_ne_cut_of_nullable hprogress)
  rw [← hbut.required (by decide) (by decide)] at hoperation
  rw [← hbut.nullable (by decide) (by decide)] at hdesired hprevious
  rw [← hbut.optional (by decide) (by decide)] at htoken
  have hprogress' : r'.nullable "progress" (ProgressRecord.decode : Decoder (ProgressRecord M)) =
      some <$> ProgressRecord.decode r.levels p := by
    rw [nullable, hbut.slot_key, hbut.levels_eq]
    exact nullable_of_ne_null hne
  have hdecode : (decode (r.levels + 1) d' : Option (HandlerRequest M)) =
      (ProgressRecord.decode r.levels p).map fun progress =>
        { operation, desired, previous, progress := some progress, nextToken := token } := by
    rw [memberNames] at hr'
    rw [decode, Decoder.record, hr', Option.bind_eq_bind, Option.bind_some, hoperation, hdesired,
      hprevious, hprogress', htoken]
    cases (ProgressRecord.decode r.levels p : Option (ProgressRecord M)) <;> rfl
  rw [hdecode, Option.isSome_map]

/-- The family takes the payload for a request, whatever the service does. -/
def Family.Accepts (f : Family M) (payload : String) : Prop :=
  ∀ remote past, ((f.dispatchText payload).run remote past).1 ≠ .ok none

/-- The text of an answer says that the operation is suspended, with this progress. -/
def SuspendedWith (answer : String) (p : Document) : Prop :=
  ∃ members, Document.read? answer.toList = some (.object members) ∧
    ("status", .string "InProgress") ∈ members ∧ ("progress", p) ∈ members

/-- The second payload says what the first one says, with this progress. -/
def Resubmits (payload : String) (p : Document) (payload' : String) : Prop :=
  ∃ d d', Document.read? payload.toList = some d ∧ Document.read? payload'.toList = some d' ∧
    WithMember HandlerRequest.memberNames "progress" p d d'

namespace Family

variable {f : Family M} {payload payload' answer : String} {p : Document} {remote : Remote}
  {past : Journal}

/-- A payload is accepted exactly when it is read. -/
theorem accepts_iff : f.Accepts payload ↔
    (HandlerRequest.decode.ofText? payload : Option (HandlerRequest M)).isSome := by
  rw [Accepts]
  cases hread : (HandlerRequest.decode.ofText? payload : Option (HandlerRequest M)) with
  | none => simp [dispatchText, hread]
  | some request =>
    simp only [dispatchText, hread, Option.isSome_some, iff_true]
    intro remote past
    rw [Session.run_bind]
    rcases (f.dispatch request).run remote past with ⟨_ | _, _⟩ <;> exact nofun

/-- An answer is the text of the response to the request that was read. -/
theorem dispatchText_eq_some_iff :
    ((f.dispatchText payload).run remote past).1 = .ok (some answer) ↔
      ∃ request response, HandlerRequest.decode.ofText? payload = some request ∧
        ((f.dispatch request).run remote past).1 = .ok response ∧
        answer = response.encode.text := by
  rw [dispatchText]
  cases hread : (HandlerRequest.decode.ofText? payload : Option (HandlerRequest M)) with
  | none => simp
  | some request =>
    simp only [Session.run_bind, Option.some.injEq, exists_and_left, exists_eq_left']
    rcases (f.dispatch request).run remote past with ⟨defect | response, journal⟩
    · simp
    · simp [eq_comm]

omit [Resource M] in
/-- A response carries progress only when a pass over a chain suspends the operation. -/
theorem exists_pass_of_progress {request : HandlerRequest M} {response : HandlerResponse M}
    {r : ProgressRecord M} (hrun : ((f.dispatch request).run remote past).1 = .ok response)
    (hprogress : response.progress = some r) :
    ∃ chain desired delay journal, f.chain request.operation = some chain ∧
      request.desired = some desired ∧
      (chain.pass f.faults ⟨desired, request.previous⟩ (request.progress.getD .empty)).run remote
        past = (.ok (.inProgress delay r), journal) := by
  rw [dispatch] at hrun
  split at hrun
  · rw [list, Session.run_bind, Session.run_ask] at hrun
    cases hanswer : (remote past.exchanges (.invoke (f.listRequest request.nextToken))).mapError
      f.faults.classify <;>
    · simp only [hanswer] at hrun
      cases hrun
      cases hprogress
  · split at hrun
    · cases hrun
      cases hprogress
    · next chain desired hchain =>
      obtain ⟨hdesired, hfound, _⟩ := of_chainFor_eq_ok hchain
      rw [Session.run_map] at hrun
      rcases hpass : (chain.pass f.faults ⟨desired, request.previous⟩
        (request.progress.getD .empty)).run remote past with
        ⟨_ | _ | _ | ⟨delay, left⟩, journal⟩ <;> rw [hpass] at hrun <;> cases hrun
      · cases hprogress
      · cases hprogress
      · obtain rfl := Option.some.inj hprogress
        exact ⟨chain, desired, delay, journal, hfound, hdesired, hpass⟩

/-- The text of a response says that the operation is suspended when the response does; its progress
is what is read from the text of the response's progress. -/
theorem suspendedWith_text_iff {response : HandlerResponse M} :
    SuspendedWith response.encode.text p ↔
      response.status = .inProgress ∧ ∃ r, response.progress = some r ∧ p = r.encode.reread := by
  rw [SuspendedWith, read?_text, HandlerResponse.encode, reread_ofPresent, ofPresent]
  constructor
  · rintro ⟨members, hread, hstatus, hprogress⟩
    obtain rfl := Document.object.inj (Option.some.inj hread)
    refine ⟨?_, by simpa [eq_comm] using hprogress⟩
    cases hset : response.status with
    | inProgress => rfl
    | _ => simp [hset, OperationStatus.encode, OperationStatus.name, reread] at hstatus
  · rintro ⟨hstatus, r, hprogress, rfl⟩
    refine ⟨_, rfl, ?_, ?_⟩
    · simp [hstatus, OperationStatus.encode, OperationStatus.name, reread]
    · simp [hprogress]

/-- An answer that says so comes from a pass that suspends the operation. -/
theorem exists_suspended_pass
    (hrun : ((f.dispatchText payload).run remote past).1 = .ok (some answer))
    (hanswer : SuspendedWith answer p) :
    ∃ request chain desired delay r journal,
      HandlerRequest.decode.ofText? payload = some request ∧
      f.chain request.operation = some chain ∧ request.desired = some desired ∧
      (chain.pass f.faults ⟨desired, request.previous⟩ (request.progress.getD .empty)).run remote
        past = (.ok (.inProgress delay r), journal) ∧ p = r.encode.reread := by
  obtain ⟨request, response, hread, hdispatch, rfl⟩ := dispatchText_eq_some_iff.mp hrun
  obtain ⟨_, r, hprogress, rfl⟩ := suspendedWith_text_iff.mp hanswer
  obtain ⟨chain, desired, delay, journal, hchain, hdesired, hpass⟩ :=
    exists_pass_of_progress hdispatch hprogress
  exact ⟨request, chain, desired, delay, r, journal, hread, hchain, hdesired, hpass, rfl⟩

/-- A request that was read is accepted with other progress exactly when that progress leaves room
for the level that the request takes, if it is only nesting that may keep it from being read. -/
theorem accepts_resubmitted_iff {request : HandlerRequest M} {depth : Nat}
    (hread : HandlerRequest.decode.ofText? payload = some request)
    (hresubmits : Resubmits payload p payload')
    (hreads : (ProgressRecord.decode : Decoder (ProgressRecord M)).ReadsWithin depth p)
    (hdepth : depth ≤ 126) : f.Accepts payload' ↔ p.levels ≤ 126 := by
  obtain ⟨d, d', hd, hd', hset⟩ := hresubmits
  rw [Decoder.ofText?, hd] at hread
  rw [accepts_iff, Decoder.ofText?, hd', ← hreads.isSome_iff hdepth]
  exact HandlerRequest.isSome_decode_iff hread hset hreads.ne_null

end Family

/-- The policies of a request that is read are well-formed. -/
theorem HandlerRequest.policies_of_decode {levels : Nat} {d : Document}
    {request : HandlerRequest Cluster} (h : decode (levels + 3) d = some request) :
    (∀ desired ∈ request.desired, desired.Policies Value.WellFormed) ∧
      ∀ r ∈ request.progress, r.Models
        (Cluster.Policies fun policy => policy.WellFormed ∧ (ofValue policy).levels ≤ levels) := by
  obtain ⟨inner, hinner, hdesired, _, hprogress⟩ := exists_of_decode h
  refine ⟨fun desired hmem => ?_, fun r hmem => ?_⟩
  · obtain ⟨_, hread⟩ := hdesired desired hmem
    obtain ⟨_, _, hpolicy⟩ := Cluster.policy_of_decode hread
    exact fun policy hmem => (hpolicy policy hmem).1
  · obtain ⟨_, hread⟩ := hprogress r hmem
    obtain ⟨below, hbelow, hmodel⟩ := ProgressRecord.exists_of_decode hread
    intro model hmem
    obtain ⟨_, hread⟩ := hmodel model hmem
    obtain ⟨least, hleast, hpolicy⟩ := Cluster.policy_of_decode hread
    obtain rfl : least = levels := by omega
    exact fun policy hmem => ⟨(hpolicy policy hmem).1, (hpolicy policy hmem).2.2⟩

section Families

variable {payload payload' answer : String} {p : Document} {remote : Remote} {past : Journal}

/-- The record that a suspended operation on a cluster leaves has the policy it was asked for or
began with. -/
theorem Cluster.exists_suspended {s : Settings} {scope : ResourceScope}
    (hrun : (((family s scope).dispatchText payload).run remote past).1 = .ok (some answer))
    (hanswer : SuspendedWith answer p) :
    ∃ (request : HandlerRequest Cluster) (r : ProgressRecord Cluster),
      HandlerRequest.decode.ofText? payload = some request ∧ p = r.encode.reread ∧
      ∀ P : Value → Prop, (∀ desired ∈ request.desired, desired.Policies P) →
        (∀ start ∈ request.progress, start.Models (Policies P)) → r.Models (Policies P) := by
  obtain ⟨request, chain, desired, delay, r, journal, hread, hchain, hset, hpass, heq⟩ :=
    Family.exists_suspended_pass hrun hanswer
  refine ⟨request, r, hread, heq, fun P hdesired hprogress => ?_⟩
  have hstart : (request.progress.getD .empty).Models (Policies P) := by
    cases hbegun : request.progress with
    | none => exact ProgressRecord.models_empty
    | some start => exact hprogress start hbegun
  exact Chain.models_of_pass (keepsModels hchain) hpass hstart (hdesired desired hset)

/-- A request for a cluster is accepted with the progress of its answer exactly when that progress
leaves room for the level that the request takes. -/
theorem Cluster.accepts_resubmitted_iff {s : Settings} {scope : ResourceScope}
    (hrun : (((family s scope).dispatchText payload).run remote past).1 = .ok (some answer))
    (hanswer : SuspendedWith answer p) (hresubmits : Resubmits payload p payload') :
    (family s scope).Accepts payload' ↔ p.levels ≤ 126 := by
  obtain ⟨request, r, hread, rfl, hkeeps⟩ := exists_suspended hrun hanswer
  obtain ⟨_, _, hdecode⟩ := Option.bind_eq_some_iff.mp hread
  obtain ⟨hdesired, hprogress⟩ := HandlerRequest.policies_of_decode hdecode
  have hmodels : r.Models (Policies Value.WellFormed) :=
    hkeeps _ hdesired fun start hmem model hmodel policy hpolicy =>
      (hprogress start hmem model hmodel policy hpolicy).1
  have hreads := ProgressRecord.readsWithin fun model hmem => readsWithin (hmodels model hmem)
  exact Family.accepts_resubmitted_iff hread hresubmits hreads (by decide)

/-- The progress leaves that room when the policy of the desired model does. -/
theorem Cluster.levels_le_of_suspended {s : Settings} {scope : ResourceScope}
    {request : HandlerRequest Cluster}
    (hread : HandlerRequest.decode.ofText? payload = some request)
    (hshallow : ∀ desired ∈ request.desired,
      desired.Policies fun policy => (ofValue policy).levels ≤ 124)
    (hrun : (((family s scope).dispatchText payload).run remote past).1 = .ok (some answer))
    (hanswer : SuspendedWith answer p) : p.levels ≤ 126 := by
  obtain ⟨found, r, hfound, rfl, hkeeps⟩ := exists_suspended hrun hanswer
  obtain rfl := Option.some.inj (hread.symm.trans hfound)
  obtain ⟨_, _, hdecode⟩ := Option.bind_eq_some_iff.mp hread
  obtain ⟨_, hprogress⟩ := HandlerRequest.policies_of_decode hdecode
  have hmodels := hkeeps _ hshallow fun start hmem model hmodel policy hpolicy =>
    (hprogress start hmem model hmodel policy hpolicy).2
  rw [levels_reread]
  exact ProgressRecord.levels_encode_le fun model hmem => levels_encode_le (hmodels model hmem)

/-- A request for an endpoint is always accepted with the progress of its answer. -/
theorem EndpointAccess.accepts_resubmitted {s : Settings}
    (hrun : (((family s).dispatchText payload).run remote past).1 = .ok (some answer))
    (hanswer : SuspendedWith answer p) (hresubmits : Resubmits payload p payload') :
    (family s).Accepts payload' := by
  obtain ⟨request, _, _, _, r, _, hread, _, _, _, rfl⟩ :=
    Family.exists_suspended_pass hrun hanswer
  have hreads := ProgressRecord.readsWithin fun model (_ : model ∈ r.model) => readsWithin model
  refine (Family.accepts_resubmitted_iff hread hresubmits hreads (by decide)).mpr ?_
  rw [levels_reread]
  exact Nat.le_trans (ProgressRecord.levels_encode_le fun model _ => model.levels_encode_le)
    (by decide)

/-- A suspended operation is resumed with the progress of its answer. On an endpoint the request is
always accepted again. On a cluster it is exactly when that progress leaves room for the level that
the request takes, which it does when the policy of the desired model nests at most 124 levels. -/
theorem accepted_again_iff (s : Settings) (remote : Remote) (past : Journal)
    (hanswer : SuspendedWith answer p) (hresubmits : Resubmits payload p payload') :
    (∀ scope : ResourceScope,
      (((Cluster.family s scope).dispatchText payload).run remote past).1 = .ok (some answer) →
        ((Cluster.family s scope).Accepts payload' ↔ p.levels ≤ 126) ∧
        ∀ request : HandlerRequest Cluster, HandlerRequest.decode.ofText? payload = some request →
          (∀ desired ∈ request.desired,
            desired.Policies fun policy => (ofValue policy).levels ≤ 124) →
          (Cluster.family s scope).Accepts payload') ∧
    ((((EndpointAccess.family s).dispatchText payload).run remote past).1 = .ok (some answer) →
      (EndpointAccess.family s).Accepts payload') := by
  constructor
  · intro scope hrun
    have hiff := Cluster.accepts_resubmitted_iff hrun hanswer hresubmits
    exact ⟨hiff, fun request hread hshallow =>
      hiff.mpr (Cluster.levels_le_of_suspended hread hshallow hrun hanswer)⟩
  · exact fun hrun => EndpointAccess.accepts_resubmitted hrun hanswer hresubmits

end Families

/-- The progress with which an invocation suspends the operation. -/
def progressLeft? : Except Defect (HandlerResponse M) → Option (ProgressRecord M)
  | .ok response => if response.status = .inProgress then response.progress else none
  | .error _ => none

/-- The answer carries that progress. -/
theorem Family.exists_answer_of_progressLeft? {f : Family M} {payload : String} {remote : Remote}
    {past : Journal} {request : HandlerRequest M} {r : ProgressRecord M}
    (hread : HandlerRequest.decode.ofText? payload = some request)
    (hleft : progressLeft? ((f.dispatch request).run remote past).1 = some r) :
    ∃ answer, ((f.dispatchText payload).run remote past).1 = .ok (some answer) ∧
      SuspendedWith answer r.encode.reread := by
  rcases hrun : ((f.dispatch request).run remote past).1 with defect | response
  · rw [hrun] at hleft
    cases hleft
  · rw [hrun, progressLeft?] at hleft
    split at hleft
    · next hstatus =>
      refine ⟨response.encode.text, ?_, suspendedWith_text_iff.mpr ⟨hstatus, r, hleft, rfl⟩⟩
      exact dispatchText_eq_some_iff.mpr ⟨request, response, hread, hrun, rfl⟩
    · cases hleft

/-- A request that is written is written again with other progress. -/
theorem HandlerRequest.resubmits_encode (request : HandlerRequest M) (r : ProgressRecord M) :
    Resubmits request.encode.text r.encode.reread
      { request with progress := some r }.encode.text :=
  ⟨_, _, read?_text _, read?_text _, .named rfl rfl⟩

/-- A list in a list and so on, `n + 1` of them. -/
def nestedPolicy : Nat → Value
  | 0 => .array []
  | n + 1 => .array [nestedPolicy n]

theorem wellFormed_nestedPolicy (n : Nat) : (nestedPolicy n).WellFormed := by
  induction n with
  | zero => trivial
  | succ n ih => exact ⟨ih, trivial⟩

theorem floatFree_nestedPolicy (n : Nat) : (nestedPolicy n).FloatFree := by
  induction n with
  | zero => trivial
  | succ n ih => exact ⟨ih, trivial⟩

theorem nestedPolicy_ne_null (n : Nat) : nestedPolicy n ≠ .null := by
  cases n <;> simp [nestedPolicy]

/-- A request to read a cluster with such a policy. -/
def nestedRead (n : Nat) : HandlerRequest Cluster where
  operation := .read
  desired := some
    { clusterIdentifier := some "c", namespaceResourcePolicy := some (nestedPolicy n) }

theorem read_nestedRead {n : Nat} (h : (nestedRead n).encode.levels ≤ maxLevels) :
    HandlerRequest.decode.ofText? (nestedRead n).encode.text = some (nestedRead n) := by
  have hcluster : Codec 3 Resource.encode (Resource.decode : Decoder Cluster) := Cluster.codec
  have hparts : FreeForm.parts (nestedRead n) = [nestedPolicy n] := rfl
  refine (HandlerRequest.codec hcluster).ofText?_text ?_ ?_ h
  · rw [Proper, Every, hparts, List.forall_mem_singleton]
    exact ⟨wellFormed_nestedPolicy n, nestedPolicy_ne_null n⟩
  · rw [FloatFree, Every, hparts, List.forall_mem_singleton]
    exact floatFree_nestedPolicy n

/-- The progress of that request when a busy service suspends it. -/
def busyProgress (n : Nat) : Option (ProgressRecord Cluster) :=
  progressLeft? (((Cluster.family {} {}).dispatch (nestedRead n)).run busy []).1

theorem exists_answer_of_busyProgress {n : Nat} {r : ProgressRecord Cluster}
    (hlevels : (nestedRead n).encode.levels ≤ maxLevels) (hbusy : busyProgress n = some r) :
    ∃ answer, (((Cluster.family {} {}).dispatchText (nestedRead n).encode.text).run busy []).1 =
        .ok (some answer) ∧ SuspendedWith answer r.encode.reread :=
  Family.exists_answer_of_progressLeft? (read_nestedRead hlevels) hbusy

/-- A request to read an endpoint. -/
def endpointRead : HandlerRequest EndpointAccess where
  operation := .read
  desired := some (EndpointAccess.named "e")

theorem read_endpointRead :
    HandlerRequest.decode.ofText? endpointRead.encode.text = some endpointRead := by
  have hendpoint : Codec 2 Resource.encode (Resource.decode : Decoder EndpointAccess) :=
    EndpointAccess.codec
  exact (HandlerRequest.codec hendpoint).ofText?_text nofun nofun (by decide +kernel)

/-- A read of a cluster whose policy nests 124 levels and a read of an endpoint are accepted
again. -/
theorem busyReads_accepted_again :
    (∃ answer p payload',
      (((Cluster.family {} {}).dispatchText (nestedRead 123).encode.text).run busy []).1 =
          .ok (some answer) ∧
        SuspendedWith answer p ∧ Resubmits (nestedRead 123).encode.text p payload' ∧
        (Cluster.family {} {}).Accepts payload') ∧
    ∃ answer p payload',
      (((EndpointAccess.family {}).dispatchText endpointRead.encode.text).run busy []).1 =
          .ok (some answer) ∧
        SuspendedWith answer p ∧ Resubmits endpointRead.encode.text p payload' ∧
        (EndpointAccess.family {}).Accepts payload' := by
  constructor
  · have hlevels : (nestedRead 123).encode.levels ≤ maxLevels := by decide +kernel
    have hshallow : ∀ desired ∈ (nestedRead 123).desired,
        desired.Policies fun policy => (ofValue policy).levels ≤ 124 := by
      rintro _ ⟨⟩ _ ⟨⟩
      decide +kernel
    have hbusy : (busyProgress 123).isSome := by decide +kernel
    obtain ⟨r, hr⟩ := Option.isSome_iff_exists.mp hbusy
    obtain ⟨answer, hrun, hanswer⟩ := exists_answer_of_busyProgress hlevels hr
    have hresubmits := (nestedRead 123).resubmits_encode r
    exact ⟨answer, _, _, hrun, hanswer, hresubmits,
      ((accepted_again_iff {} busy [] hanswer hresubmits).1 {} hrun).2 _
        (read_nestedRead hlevels) hshallow⟩
  · have hbusy : (progressLeft?
        (((EndpointAccess.family {}).dispatch endpointRead).run busy []).1).isSome := by
      decide +kernel
    obtain ⟨r, hr⟩ := Option.isSome_iff_exists.mp hbusy
    obtain ⟨answer, hrun, hanswer⟩ := Family.exists_answer_of_progressLeft? read_endpointRead hr
    have hresubmits := endpointRead.resubmits_encode r
    exact ⟨answer, _, _, hrun, hanswer, hresubmits,
      (accepted_again_iff {} busy [] hanswer hresubmits).2 hrun⟩

/-- With one level more, the progress does not fit into the request. -/
theorem deepRead_refused : ∃ answer p payload',
    (((Cluster.family {} {}).dispatchText (nestedRead 124).encode.text).run busy []).1 =
        .ok (some answer) ∧
      SuspendedWith answer p ∧ Resubmits (nestedRead 124).encode.text p payload' ∧
      ¬(Cluster.family {} {}).Accepts payload' := by
  have hlevels : (nestedRead 124).encode.levels ≤ maxLevels := by decide +kernel
  have hbusy : ((busyProgress 124).filter fun r => 126 < r.encode.levels).isSome := by
    decide +kernel
  obtain ⟨r, hr⟩ := Option.isSome_iff_exists.mp hbusy
  obtain ⟨hset, hdeep⟩ := Option.filter_eq_some_iff.mp hr
  obtain ⟨answer, hrun, hanswer⟩ := exists_answer_of_busyProgress hlevels hset
  have hresubmits := (nestedRead 124).resubmits_encode r
  refine ⟨answer, _, _, hrun, hanswer, hresubmits, fun haccepts => ?_⟩
  have hle := (Cluster.accepts_resubmitted_iff hrun hanswer hresubmits).mp haccepts
  rw [levels_reread] at hle
  exact absurd hle (Nat.not_le.mpr (of_decide_eq_true hdeep))

end Lifecycle
