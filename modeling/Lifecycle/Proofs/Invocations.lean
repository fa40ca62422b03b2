import Lifecycle.Dispatch
import Lifecycle.Proofs.Run

/-!
# Invocations as the passes of a run

Whoever invokes the dispatcher hands in the progress that the response before
carried. As long as the request is not turned away, these invocations are the passes
of a run over the chain of the request (`invocations_eq_passes`).
-/

namespace Lifecycle

variable {M : Type}

/-- One invocation as it went. -/
structure Invocation (M : Type) where
  /-- The response, or the defect that the invocation ran into. -/
  response : Except Defect (HandlerResponse M)
  /-- What the invocation did. -/
  journal : Journal

/-- Whether an invocation ended with success. -/
def Invocation.isSuccess (invocation : Invocation M) : Bool :=
  match invocation.response with
  | .ok response => response.status = .success
  | .error _ => false

namespace Family

/-- Invocations of one request, each with the progress that the response before carried, until a
response carries none or so many invocations are made. -/
def invocations (f : Family M) (remote : Remote) (request : HandlerRequest M) :
    Nat → Option (ProgressRecord M) → Journal → List (Invocation M)
  | 0, _, _ => []
  | limit + 1, progress, past =>
    let (response, journal) := (f.dispatch { request with progress }).run remote past
    let invocation := ⟨response, journal.drop past.length⟩
    match response with
    | .ok { progress := some progress, .. } =>
      invocation :: f.invocations remote request limit (some progress) journal
    | _ => [invocation]

/-- The journal of a request that is invoked until it is over or so many invocations are made. -/
def journal (f : Family M) (remote : Remote) (request : HandlerRequest M) (limit : Nat) : Journal :=
  (f.invocations remote request limit request.progress []).flatMap (·.journal)

/-- The run of a request over a chain. -/
def runOf (f : Family M) (remote : Remote) (request : HandlerRequest M) (chain : Chain M)
    (desired : M) : Run M where
  chain := chain
  faults := f.faults
  remote := remote
  targets _ := ⟨desired, request.previous⟩
  start := request.progress.getD .empty

/-- A run carries out an operation of the family from the beginning, always toward one target. -/
structure CarriesOut (f : Family M) (operation : Operation) (target : Target M) (run : Run M) :
    Prop where
  /-- The passes walk over the chain of the operation. -/
  chain : f.chain operation = some run.chain
  /-- Faults mean what they mean to the family. -/
  faults : run.faults = f.faults
  /-- No pass wants anything else. -/
  targets : ∀ n, run.targets n = target
  /-- The first pass takes up no progress. -/
  start : run.start = .empty

variable {f : Family M} {remote : Remote} {request : HandlerRequest M}

/-- A request that is not turned away has a desired model of use, and its operation has a chain. -/
theorem of_chainFor_eq_ok {chain : Chain M} {desired : M}
    (h : f.chainFor request = .ok (chain, desired)) :
    request.desired = some desired ∧ f.chain request.operation = some chain ∧
      f.refusal request.operation desired = none := by
  rw [chainFor] at h
  split at h
  · next wanted hwanted =>
    split at h
    · next found hfound =>
      cases hrefusal : f.refusal request.operation wanted with
      | some message =>
        rw [hrefusal] at h
        cases h
      | none =>
        rw [hrefusal] at h
        cases h
        exact ⟨hwanted, hfound, hrefusal⟩
    · cases h
  · cases h

/-- A request without progress that is not turned away is carried out. -/
theorem carriesOut_runOf {chain : Chain M} {desired : M} (hprogress : request.progress = none)
    (hchain : f.chainFor request = .ok (chain, desired)) :
    f.CarriesOut request.operation ⟨desired, request.previous⟩
      (f.runOf remote request chain desired) where
  chain := (of_chainFor_eq_ok hchain).2.1
  faults := rfl
  targets _ := rfl
  start := by rw [runOf, hprogress, Option.getD_none]

/-- A request that is turned away is answered at once and makes no call. -/
theorem invocations_of_refused {refusal : Refusal} (hlist : request.operation ≠ .list)
    (hchain : f.chainFor request = .error refusal) (limit : Nat)
    (progress : Option (ProgressRecord M)) (past : Journal) :
    ∀ invocation ∈ f.invocations remote request limit progress past,
      invocation = ⟨.ok (.ofOutcome (.failed .invalidRequest refusal.message)), []⟩ := by
  cases limit with
  | zero => simp [invocations]
  | succ limit =>
    have hdispatch : (f.dispatch { request with progress }).run remote past =
        (.ok (.ofOutcome (.failed .invalidRequest refusal.message)), past) := by
      have hchain' : f.chainFor { request with progress } = .error refusal := hchain
      rw [dispatch, if_neg hlist, hchain', Session.run_pure]
    rw [invocations, hdispatch]
    simp [HandlerResponse.ofOutcome]

/-- The response to a request with a chain reports the outcome of a pass. -/
theorem dispatch_eq_pass {chain : Chain M} {desired : M} (hlist : request.operation ≠ .list)
    (hchain : f.chainFor request = .ok (chain, desired)) (progress : Option (ProgressRecord M)) :
    f.dispatch { request with progress } = .ofOutcome <$>
      chain.pass f.faults ⟨desired, request.previous⟩ (progress.getD .empty) := by
  have hchain' : f.chainFor { request with progress } = .ok (chain, desired) := hchain
  rw [dispatch, if_neg hlist, hchain']

/-- A listing is answered at once. -/
theorem invocations_of_list (hlist : request.operation = .list) (limit : Nat)
    (progress : Option (ProgressRecord M)) (past : Journal) :
    ∀ invocation ∈ f.invocations remote request limit progress past,
      ∃ response, invocation.response = .ok response := by
  cases limit with
  | zero => simp [invocations]
  | succ limit =>
    rw [invocations, dispatch, if_pos hlist, list, Session.run_bind, Session.run_ask]
    cases (remote past.exchanges (.invoke (f.listRequest request.nextToken))).mapError
        f.faults.classify <;>
      simp [HandlerResponse.ofPage, HandlerResponse.ofOutcome, Outcome.ofFault]

/-- The invocations of a request with a chain are the passes over it. -/
theorem invocations_eq_passes {chain : Chain M} {desired : M} (hlist : request.operation ≠ .list)
    (hchain : f.chainFor request = .ok (chain, desired)) (limit : Nat)
    (progress : Option (ProgressRecord M)) (past : Journal) :
    f.invocations remote request limit progress past =
      (chain.passes f.faults ⟨desired, request.previous⟩ remote limit (progress.getD .empty)
        past).map fun report => ⟨report.result.map .ofOutcome, report.journal⟩ := by
  induction limit generalizing progress past with
  | zero => rfl
  | succ limit ih =>
    rw [invocations, Chain.passes, dispatch_eq_pass hlist hchain, Session.run_map]
    rcases (chain.pass f.faults ⟨desired, request.previous⟩ (progress.getD .empty)).run remote
      past with ⟨_ | _ | _ | ⟨delay, r⟩, journal⟩
    · rfl
    · rfl
    · rfl
    · simp only [HandlerResponse.ofOutcome, ih, List.map_cons]
      rfl

/-- The invocations of a request are so many passes of a run. -/
def Follows (f : Family M) (remote : Remote) (request : HandlerRequest M) (limit : Nat)
    (run : Run M) : Prop :=
  f.invocations remote request limit request.progress [] =
    (run.passes limit).map fun report => ⟨report.result.map .ofOutcome, report.journal⟩

/-- The invocations of a request with a chain are passes of its run. -/
theorem follows_runOf {chain : Chain M} {desired : M} (hlist : request.operation ≠ .list)
    (hchain : f.chainFor request = .ok (chain, desired)) (limit : Nat) :
    f.Follows remote request limit (f.runOf remote request chain desired) := by
  rw [Follows, invocations_eq_passes hlist hchain, Chain.passes_eq_passesToward _ _ _ _ _ 0]
  rfl

/-- The request ends with success within so many invocations. -/
def Succeeds (f : Family M) (remote : Remote) (request : HandlerRequest M) (limit : Nat) : Prop :=
  ∃ invocation ∈ f.invocations remote request limit request.progress [], invocation.isSuccess = true

instance (f : Family M) (remote : Remote) (request : HandlerRequest M) (limit : Nat) :
    Decidable (f.Succeeds remote request limit) :=
  inferInstanceAs (Decidable (∃ invocation ∈ f.invocations remote request limit request.progress [],
    invocation.isSuccess = true))

/-- An invocation that ends with success reports a pass that succeeds. -/
theorem exists_success_of_isSuccess {result : Except Defect (Outcome M)} {journal : Journal}
    (h : Invocation.isSuccess ⟨result.map .ofOutcome, journal⟩ = true) :
    ∃ model, result = .ok (.success model) := by
  rcases result with _ | model | _ | _
  · cases h
  · exact ⟨model, rfl⟩
  all_goals cases h

section Follows

variable {limit : Nat} {run : Run M} (h : f.Follows remote request limit run)
include h

/-- Each invocation of a request that follows a run is a pass of it. -/
theorem Follows.exists_report {before after : List (Invocation M)} {invocation : Invocation M}
    (hsplit : f.invocations remote request limit request.progress [] =
      before ++ invocation :: after) :
    ∃ reports report later, run.passes limit = reports ++ report :: later ∧
      Chain.journalOf reports = before.flatMap (·.journal) ∧
      invocation = ⟨report.result.map .ofOutcome, report.journal⟩ := by
  obtain ⟨reports, others, hreports, rfl, hothers⟩ := List.map_eq_append_iff.mp (h.symm.trans hsplit)
  obtain ⟨report, later, rfl, rfl, _⟩ := List.map_eq_cons_iff.mp hothers
  refine ⟨reports, report, later, hreports, ?_, rfl⟩
  rw [List.flatMap_map]
  rfl

/-- A request that follows a run has its journal. -/
theorem Follows.journal_eq : f.journal remote request limit = run.journal limit := by
  rw [journal, h, List.flatMap_map]
  rfl

/-- The run that a request follows to success has the journal with which its last pass succeeds. -/
theorem Follows.exists_ends (hsucceeds : f.Succeeds remote request limit) :
    ∃ n model, run.Ends n (.ok (.success model)) (run.journal limit) := by
  obtain ⟨invocation, hinvocation, hsuccess⟩ := hsucceeds
  rw [h] at hinvocation
  obtain ⟨report, hreport, rfl⟩ := List.mem_map.mp hinvocation
  obtain ⟨model, hsuccess⟩ := exists_success_of_isSuccess hsuccess
  obtain ⟨n, hends⟩ := Run.ends_of_success hreport hsuccess
  exact ⟨n, model, hends⟩

end Follows

/-- Each invocation of a request with a chain reports how a pass of its run ends. -/
theorem exists_ends_of_mem_invocations {chain : Chain M} {desired : M}
    (hlist : request.operation ≠ .list) (hchain : f.chainFor request = .ok (chain, desired))
    {limit : Nat} {invocation : Invocation M}
    (hinvocation : invocation ∈ f.invocations remote request limit request.progress []) :
    ∃ n result journal, (f.runOf remote request chain desired).Ends n result journal ∧
      invocation.response = result.map .ofOutcome := by
  obtain ⟨before, after, hsplit⟩ := List.append_of_mem hinvocation
  obtain ⟨_, _, _, hpasses, _, rfl⟩ := (follows_runOf hlist hchain limit).exists_report hsplit
  exact ⟨_, _, _, Run.ends_of_passes hpasses, rfl⟩

/-- The journal of a request with a chain is that of its run. -/
theorem journal_eq_runOf {chain : Chain M} {desired : M} (hlist : request.operation ≠ .list)
    (hchain : f.chainFor request = .ok (chain, desired)) (limit : Nat) :
    f.journal remote request limit = (f.runOf remote request chain desired).journal limit :=
  (follows_runOf hlist hchain limit).journal_eq

/-- A request that is turned away leaves no journal. -/
theorem journal_of_refused {refusal : Refusal} (hlist : request.operation ≠ .list)
    (hchain : f.chainFor request = .error refusal) (limit : Nat) :
    f.journal remote request limit = [] := by
  rw [journal, List.flatMap_eq_nil_iff]
  intro invocation hinvocation
  rw [invocations_of_refused hlist hchain limit _ _ invocation hinvocation]

/-- The invocations of a request without progress are all turned away and make no call, or are the
passes of a run that carries the request out. -/
theorem refused_or_exists_run {desired : M} (hlist : request.operation ≠ .list)
    (hdesired : request.desired = some desired) (hprogress : request.progress = none)
    (remote : Remote) (limit : Nat) :
    (∀ invocation ∈ f.invocations remote request limit request.progress [],
      ∃ message, invocation = ⟨.ok (.ofOutcome (.failed .invalidRequest message)), []⟩) ∨
      ∃ run, f.CarriesOut request.operation ⟨desired, request.previous⟩ run ∧
        f.refusal request.operation desired = none ∧ f.Follows remote request limit run := by
  cases hchain : f.chainFor request with
  | error refusal =>
    refine .inl fun invocation hmem => ⟨refusal.message, ?_⟩
    exact invocations_of_refused hlist hchain limit _ _ invocation hmem
  | ok found =>
    obtain ⟨chain, wanted⟩ := found
    obtain ⟨hwanted, _, hrefusal⟩ := of_chainFor_eq_ok hchain
    obtain rfl : desired = wanted := Option.some.inj (hdesired.symm.trans hwanted)
    exact .inr ⟨f.runOf remote request chain desired, carriesOut_runOf hprogress hchain, hrefusal,
      follows_runOf hlist hchain limit⟩

/-- A request without progress makes no call and does not succeed, or has the journal of a run,
which it follows to the end when it succeeds. -/
theorem journal_eq_nil_or_exists_run {desired : M} (hlist : request.operation ≠ .list)
    (hdesired : request.desired = some desired) (hprogress : request.progress = none)
    (remote : Remote) (limit : Nat) :
    (f.journal remote request limit = [] ∧ ¬f.Succeeds remote request limit) ∨
      ∃ run, f.CarriesOut request.operation ⟨desired, request.previous⟩ run ∧
        f.journal remote request limit = run.journal limit ∧
        (f.Succeeds remote request limit →
          ∃ n model, run.Ends n (.ok (.success model)) (run.journal limit)) := by
  rcases refused_or_exists_run hlist hdesired hprogress remote limit with
    hrefused | ⟨run, hrun, -, hfollows⟩
  · refine .inl ⟨?_, ?_⟩
    · rw [journal, List.flatMap_eq_nil_iff]
      intro invocation hinvocation
      obtain ⟨message, rfl⟩ := hrefused invocation hinvocation
      rfl
    · rintro ⟨invocation, hinvocation, hsuccess⟩
      obtain ⟨message, rfl⟩ := hrefused invocation hinvocation
      cases hsuccess
  · exact .inr ⟨run, hrun, hfollows.journal_eq, hfollows.exists_ends⟩

end Family

end Lifecycle
