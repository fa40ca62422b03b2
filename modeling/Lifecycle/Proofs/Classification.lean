import Lifecycle.Cluster.Family
import Lifecycle.EndpointAccess.Family
import Lifecycle.Proofs.Dictionaries

/-!
# What decides on a fault

A fault table comes about by registrations (`FaultTable.BuiltBy`), and all that it says
follows from their history: the latest registration of the code decides, else that of the
code without one trailing `Fault` or `Exception`, and else the status
(`FaultTable.Decides`). Exactly one disposition is decided on for every fault
(`classification_follows_registrations`).
-/

namespace Lifecycle

namespace FaultTable

/-- The registrations by which a table came about, the earliest first. -/
inductive BuiltBy : FaultTable → List (String × Disposition) → Prop
  /-- Nothing is registered. -/
  | empty : BuiltBy empty []
  /-- A code is registered. -/
  | register {t : FaultTable} {history : List (String × Disposition)} (h : BuiltBy t history)
      (code : String) (d : Disposition) : BuiltBy (t.register code d) (history ++ [(code, d)])
  /-- Codes that ask to slow down are registered. -/
  | throttled {t : FaultTable} {history : List (String × Disposition)} (h : BuiltBy t history)
      (codes : List String) :
      BuiltBy (t.throttled codes) (history ++ codes.map (·, .throttled))
  /-- Codes of passing trouble are registered. -/
  | transient {t : FaultTable} {history : List (String × Disposition)} (h : BuiltBy t history)
      (codes : List String) :
      BuiltBy (t.transient codes) (history ++ codes.map (·, .transient))
  /-- Codes that end an operation are registered. -/
  | terminal {t : FaultTable} {history : List (String × Disposition)} (h : BuiltBy t history)
      (codes : List String) (kind : FailureKind) :
      BuiltBy (t.terminal codes kind) (history ++ codes.map (·, .terminal kind))

/-- The latest registration of a code gives it this disposition. -/
def Latest (history : List (String × Disposition)) (code : String) (d : Disposition) : Prop :=
  ∃ before after, history = before ++ (code, d) :: after ∧ code ∉ after.map (·.1)

/-- A code is a stem with one of the two endings. -/
def Extends (code stem : String) : Prop := code = stem ++ "Fault" ∨ code = stem ++ "Exception"

/-- What the status alone says about a fault. -/
inductive StatusSays : UInt16 → Disposition → Prop
  /-- Too many requests. -/
  | tooMany : StatusSays 429 .throttled
  /-- Not allowed. -/
  | forbidden : StatusSays 403 (.terminal .accessDenied)
  /-- Not there. -/
  | missing : StatusSays 404 (.terminal .notFound)
  /-- Trouble on the side of the service. -/
  | server {status : UInt16} (hfrom : 500 ≤ status) (hto : status ≤ 599) :
      StatusSays status .transient
  /-- Anything else. -/
  | other {status : UInt16} (hnone : status ≠ 429 ∧ status ≠ 403 ∧ status ≠ 404)
      (hserver : ¬(500 ≤ status ∧ status ≤ 599)) :
      StatusSays status (.terminal .generalServiceException)

/-- What decides on a fault by the registrations of a table. -/
inductive Decides (history : List (String × Disposition)) (fault : Fault) : Disposition → Prop
  /-- The code is registered as it is. -/
  | code {d : Disposition} (hlatest : Latest history fault.code d) : Decides history fault d
  /-- The code is not registered, but its stem is. -/
  | stem {stem : String} {d : Disposition} (hcode : fault.code ∉ history.map (·.1))
      (hstem : Extends fault.code stem) (hlatest : Latest history stem d) : Decides history fault d
  /-- Neither the code is registered nor a stem of it. -/
  | status {d : Disposition} (hcode : fault.code ∉ history.map (·.1))
      (hstem : ∀ stem, Extends fault.code stem → stem ∉ history.map (·.1))
      (hstatus : StatusSays fault.status d) : Decides history fault d

variable {t : FaultTable} {history : List (String × Disposition)} {code stem : String}
  {d : Disposition}

/-- Several codes are registered one after another. -/
theorem registrations_registerAll (t : FaultTable) (codes : List String) (d : Disposition) :
    (t.registerAll codes d).registrations = (codes.map (·, d)).reverse ++ t.registrations := by
  induction codes generalizing t with
  | nil => rfl
  | cons code codes ih =>
    rw [registerAll, List.foldl_cons, ← registerAll, ih]
    simp [register]

/-- A table holds its history, the latest registration first. -/
theorem BuiltBy.registrations_eq (h : t.BuiltBy history) : t.registrations = history.reverse := by
  induction h with
  | empty => rfl
  | register _ code d ih => simp [FaultTable.register, ih]
  | throttled _ codes ih =>
    rw [FaultTable.throttled, registrations_registerAll, ih, List.reverse_append]
  | transient _ codes ih =>
    rw [FaultTable.transient, registrations_registerAll, ih, List.reverse_append]
  | terminal _ codes kind ih =>
    rw [FaultTable.terminal, registrations_registerAll, ih, List.reverse_append]

/-- What is registered for a code is what the latest registration says. -/
theorem BuiltBy.registered?_eq_some_iff (h : t.BuiltBy history) :
    t.registered? code = some d ↔ Latest history code d := by
  rw [registered?, h.registrations_eq, Entries.find?_eq_some_iff_append]
  constructor
  · rintro ⟨after, before, hsplit, hafter⟩
    refine ⟨before.reverse, after.reverse, ?_, by simpa using hafter⟩
    rw [← List.reverse_reverse history, hsplit]
    simp
  · rintro ⟨before, after, rfl, hafter⟩
    exact ⟨after.reverse, before.reverse, by simp, by simpa using hafter⟩

/-- Nothing is registered for a code that does not occur in the history. -/
theorem BuiltBy.registered?_eq_none_iff (h : t.BuiltBy history) :
    t.registered? code = none ↔ code ∉ history.map (·.1) := by
  rw [registered?, h.registrations_eq, Entries.find?_eq_none_iff, List.map_reverse,
    List.mem_reverse]

/-- A code that occurs in the history is registered. -/
theorem BuiltBy.exists_registered? (h : t.BuiltBy history) (hcode : code ∈ history.map (·.1)) :
    ∃ d, t.registered? code = some d := by
  rw [← Option.ne_none_iff_exists', ne_eq, h.registered?_eq_none_iff, not_not]
  exact hcode

/-- A text without an ending is what stands before it. -/
theorem withoutEnding?_eq_some_iff (ending : String) :
    withoutEnding? ending code = some stem ↔ code = stem ++ ending := by
  simp only [withoutEnding?, Option.ite_none_right_eq_some, List.isSuffixOf_iff_suffix,
    Option.some.injEq]
  constructor
  · rintro ⟨⟨before, hsplit⟩, rfl⟩
    rw [← String.toList_inj, ← hsplit]
    simp
  · rintro rfl
    simp

/-- A code has one stem at most. -/
theorem Extends.unique {other : String} (h : Extends code stem) (h' : Extends code other) :
    stem = other := by
  -- The two endings differ in their last letter, so both stems lack the same one.
  have hends : ∀ a b : String, a ++ "Fault" ≠ b ++ "Exception" := by
    intro a b heq
    have hlast := congrArg (fun s => s.toList.getLast?) heq
    simp at hlast
  rcases h with rfl | rfl <;> rcases h' with heq | heq
  · exact String.append_left_inj _ |>.mp heq
  · exact absurd heq (hends _ _)
  · exact absurd heq.symm (hends _ _)
  · exact String.append_left_inj _ |>.mp heq

/-- The stem of a code is what an ending is added to. -/
theorem stem?_eq_some_iff : stem? code = some stem ↔ Extends code stem := by
  rw [stem?, Extends, ← withoutEnding?_eq_some_iff "Fault",
    ← withoutEnding?_eq_some_iff "Exception"]
  cases hcut : withoutEnding? "Fault" code with
  | none => simp
  | some other =>
    have hother : Extends code other := .inl ((withoutEnding?_eq_some_iff _).mp hcut)
    refine ⟨.inl, fun h => h.elim id fun hstem => ?_⟩
    exact congrArg some (hother.unique (.inr ((withoutEnding?_eq_some_iff _).mp hstem)))

/-- A code without a stem has neither ending. -/
theorem stem?_eq_none_iff : stem? code = none ↔ ∀ stem, ¬Extends code stem := by
  simp only [Option.eq_none_iff_forall_ne_some, ne_eq, stem?_eq_some_iff]

/-- The status says what a table falls back on. -/
theorem statusSays_iff {status : UInt16} : StatusSays status d ↔ ofStatus status = d := by
  constructor
  · intro h
    cases h with
    | tooMany => rfl
    | forbidden => rfl
    | missing => rfl
    | server hfrom hto =>
      have hbelow : ∀ below : UInt16, below < 500 → status ≠ below := by
        rintro below hlt rfl
        exact UInt16.not_lt.mpr hfrom hlt
      rw [ofStatus, if_neg (hbelow 429 (by decide)), if_neg (hbelow 403 (by decide)),
        if_neg (hbelow 404 (by decide)), if_pos ⟨hfrom, hto⟩]
    | other hnone hserver =>
      rw [ofStatus, if_neg hnone.1, if_neg hnone.2.1, if_neg hnone.2.2, if_neg hserver]
  · rintro rfl
    unfold ofStatus
    split
    · next h => exact h ▸ .tooMany
    split
    · next h => exact h ▸ .forbidden
    split
    · next h => exact h ▸ .missing
    split
    · next h => exact .server h.1 h.2
    · next h₁ h₂ h₃ h₄ => exact .other ⟨h₁, h₂, h₃⟩ h₄

/-- A table gives a fault the disposition that is decided on. -/
theorem BuiltBy.dispositionOf_eq {fault : Fault} (h : t.BuiltBy history)
    (hdecides : Decides history fault d) : t.dispositionOf fault = d := by
  cases hdecides with
  | code hlatest =>
    rw [dispositionOf, lookup?, h.registered?_eq_some_iff.mpr hlatest]
    rfl
  | stem hcode hstem hlatest =>
    rw [dispositionOf, lookup?, h.registered?_eq_none_iff.mpr hcode, stem?_eq_some_iff.mpr hstem]
    simp [h.registered?_eq_some_iff.mpr hlatest]
  | status hcode hstem hstatus =>
    have hunknown : (stem? fault.code).bind t.registered? = none := by
      rw [Option.bind_eq_none_iff]
      intro stem hcut
      exact h.registered?_eq_none_iff.mpr (hstem stem (stem?_eq_some_iff.mp hcut))
    rw [dispositionOf, lookup?, h.registered?_eq_none_iff.mpr hcode, hunknown]
    exact statusSays_iff.mp hstatus

/-- What a table gives a fault is decided on by its history. -/
theorem BuiltBy.decides (h : t.BuiltBy history) (fault : Fault) :
    Decides history fault (t.dispositionOf fault) := by
  rw [dispositionOf, lookup?]
  cases hown : t.registered? fault.code with
  | some own => exact .code (h.registered?_eq_some_iff.mp hown)
  | none =>
    have hcode := h.registered?_eq_none_iff.mp hown
    cases hcut : stem? fault.code with
    | none =>
      have hstem : ∀ stem, Extends fault.code stem → stem ∉ history.map (·.1) :=
        fun stem hextends => absurd hextends (stem?_eq_none_iff.mp hcut stem)
      exact .status hcode hstem (statusSays_iff.mpr rfl)
    | some stem =>
      have hextends := stem?_eq_some_iff.mp hcut
      cases hstem : t.registered? stem with
      | some inherited =>
        simp only [Option.bind_some, hstem]
        exact .stem hcode hextends (h.registered?_eq_some_iff.mp hstem)
      | none =>
        simp only [Option.bind_some, hstem]
        refine .status hcode ?_ (statusSays_iff.mpr rfl)
        intro other hother
        rw [← hextends.unique hother]
        exact h.registered?_eq_none_iff.mp hstem

/-- Whatever the two statuses are, a code with an ending is judged like the code that is registered,
unless it is registered itself. -/
theorem BuiltBy.dispositionOf_extends (h : t.BuiltBy history) (hstem : stem ∈ history.map (·.1))
    (hextends : Extends code stem) (hcode : code ∉ history.map (·.1)) (message message' : String)
    (status status' : UInt16) :
    t.dispositionOf ⟨code, message, status⟩ = t.dispositionOf ⟨stem, message', status'⟩ := by
  obtain ⟨d, hregistered⟩ := h.exists_registered? hstem
  have hlatest := h.registered?_eq_some_iff.mp hregistered
  exact (h.dispositionOf_eq (.stem hcode hextends hlatest)).trans
    (h.dispositionOf_eq (.code hlatest)).symm

/-- The codes that all families share are registered one after another. -/
theorem exists_builtBy_common : ∃ history, common.BuiltBy history :=
  ⟨_, .terminal (.terminal (.transient (.throttled .empty _) _) _ _) _ _⟩

end FaultTable

/-- The fault codes of clusters are registered after the common ones. -/
theorem Cluster.exists_builtBy_faults : ∃ history, faults.BuiltBy history := by
  obtain ⟨history, hcommon⟩ := FaultTable.exists_builtBy_common
  exact ⟨_, .terminal (.terminal (.terminal (.terminal (.terminal (.transient
    (.throttled hcommon _) _) _ _) _ _) _ _) _ _) _ _⟩

/-- The fault codes of endpoints are registered after the common ones. -/
theorem EndpointAccess.exists_builtBy_faults : ∃ history, faults.BuiltBy history := by
  obtain ⟨history, hcommon⟩ := FaultTable.exists_builtBy_common
  exact ⟨_, .terminal (.terminal (.terminal (.terminal (.terminal hcommon _ _) _ _) _ _) _ _) _ _⟩

/-- A table that came about by registrations, as the empty one, the common one and those of the two
families did, gives a fault the one disposition that its history decides on. So a code with an
ending is judged like the code that is registered, whatever the status is, unless it is registered
itself. -/
theorem classification_follows_registrations :
    (∀ t ∈ [FaultTable.empty, FaultTable.common, Cluster.faults, EndpointAccess.faults],
      ∃ history, t.BuiltBy history) ∧
    ∀ (t : FaultTable) (history : List (String × Disposition)), t.BuiltBy history →
      (∀ fault d, (t.classify fault).disposition = d ↔ FaultTable.Decides history fault d) ∧
      ∀ code ∈ history.map (·.1), ∀ ending ∈ ["Fault", "Exception"],
        code ++ ending ∉ history.map (·.1) → ∀ message message' status status',
          (t.classify ⟨code ++ ending, message, status⟩).disposition =
            (t.classify ⟨code, message', status'⟩).disposition := by
  refine ⟨?_, fun t history h => ⟨fun fault d => ⟨?_, h.dispositionOf_eq⟩, ?_⟩⟩
  · simp only [List.forall_mem_cons, List.not_mem_nil, false_implies, implies_true, and_true]
    exact ⟨⟨_, .empty⟩, FaultTable.exists_builtBy_common, Cluster.exists_builtBy_faults,
      EndpointAccess.exists_builtBy_faults⟩
  · rintro rfl
    exact h.decides fault
  · intro code hcode ending hending hlonger message message' status status'
    have hextends : FaultTable.Extends (code ++ ending) code := by
      rcases List.mem_pair.mp hending with rfl | rfl
      · exact .inl rfl
      · exact .inr rfl
    exact h.dispositionOf_extends hcode hextends hlonger message message' status status'

/-- The common codes, one of which no longer asks to slow down. -/
def impatient : FaultTable := FaultTable.common.terminal ["Throttling"] .serviceLimitExceeded

/-- The code that is registered anew ends an operation, with the ending `Fault` too and in spite of
the status; with the ending `Exception` it is registered itself and still asks to slow down. -/
theorem impatient_follows_registrations :
    impatient.BuiltBy impatient.registrations.reverse ∧
    "Throttling" ∈ impatient.registrations.reverse.map (·.1) ∧
    "Throttling" ++ "Fault" ∉ impatient.registrations.reverse.map (·.1) ∧
    (impatient.classify ⟨"Throttling" ++ "Fault", "slow down", 429⟩).disposition =
      (impatient.classify ⟨"Throttling", "slow down", 400⟩).disposition ∧
    FaultTable.Decides impatient.registrations.reverse ⟨"Throttling", "slow down", 400⟩
      (.terminal .serviceLimitExceeded) ∧
    FaultTable.Decides impatient.registrations.reverse ⟨"ThrottlingException", "slow down", 400⟩
      .throttled := by
  obtain ⟨history, hcommon⟩ := FaultTable.exists_builtBy_common
  have hbuilt : impatient.BuiltBy impatient.registrations.reverse := by
    have h : impatient.BuiltBy _ := .terminal hcommon ["Throttling"] .serviceLimitExceeded
    rwa [h.registrations_eq, List.reverse_reverse]
  have hcode : "Throttling" ∈ impatient.registrations.reverse.map (·.1) := by decide
  have hlonger : "Throttling" ++ "Fault" ∉ impatient.registrations.reverse.map (·.1) := by decide
  obtain ⟨hdecides, hextends⟩ := classification_follows_registrations.2 _ _ hbuilt
  exact ⟨hbuilt, hcode, hlonger,
    hextends _ hcode "Fault" (by decide) hlonger "slow down" "slow down" 429 400,
    (hdecides _ _).mp (by decide), (hdecides _ _).mp (by decide)⟩

end Lifecycle
