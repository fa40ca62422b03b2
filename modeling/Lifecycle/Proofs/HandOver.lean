import Lifecycle.EndpointAccess.Family
import Lifecycle.Proofs.Cluster.KeptPolicy
import Lifecycle.Proofs.RoundTrip

/-!
# Handing the record over as text

Between two passes the record may be kept in memory or as text. A run in which every
record goes through its text goes exactly as one in which none does, as long as each
record is read back as it was (`Chain.passesOverText_eq`). Every record that a chain of
the two families leaves is: the one model that could not be read back is that of a
finished operation.
-/

namespace Lifecycle

open Json Document ProgressRecord Chain

variable {M : Type}

/-- Passes as `passes` makes them, but each record that a pass leaves is written as text and read
again. None when a text is no record. -/
def Chain.passesOverText [Resource M] (c : Chain M) (faults : FaultTable) (target : Target M)
    (remote : Remote) : Nat → ProgressRecord M → Journal → Option (List (PassReport M))
  | 0, _, _ => some []
  | limit + 1, r, past =>
    let (result, journal) := (c.pass faults target r).run remote past
    let report := ⟨result, journal.drop past.length⟩
    match result with
    | .ok (.inProgress _ r) => do
      let r ← ProgressRecord.decode.ofText? r.encode.text
      return report :: (← c.passesOverText faults target remote limit r journal)
    | _ => some [report]

/-- The run of a chain toward one target, from the beginning. -/
def Chain.runToward (c : Chain M) (faults : FaultTable) (target : Target M) (remote : Remote) :
    Run M where
  chain := c
  faults := faults
  remote := remote
  targets _ := target
  start := .empty

namespace Chain

variable [Resource M] {c : Chain M} {faults : FaultTable} {target : Target M} {remote : Remote}

/-- A run goes over text as it goes in memory when every record is read back as it was. -/
theorem passesOverText_eq
    (hread : ∀ {n delay r journal},
      (c.runToward faults target remote).Ends n (.ok (.inProgress delay r)) journal →
        ProgressRecord.decode.ofText? r.encode.text = some r) (limit : Nat) :
    c.passesOverText faults target remote limit .empty [] =
      some (c.passes faults target remote limit .empty []) := by
  suffices hfrom : ∀ n r past,
      (c.runToward faults target remote).Arrives n c.steps (seed target r) past →
        c.passesOverText faults target remote limit r past =
          some (c.passes faults target remote limit r past) from
    hfrom 0 .empty [] .start
  induction limit with
  | zero => exact fun _ _ _ _ => rfl
  | succ limit ih =>
    intro n r past harrives
    obtain ⟨result, gained, hrun, hends⟩ := harrives.exists_ends
    have hpass : (c.pass faults target r).run remote past = (result, past ++ gained) := hrun
    simp only [passesOverText, passes, hpass]
    rcases result with defect | _ | _ | ⟨delay, r'⟩
    · rfl
    · rfl
    · rfl
    · simp only [hread hends, ih (n + 1) r' _ hends.arrives, Option.bind_eq_bind, Option.bind_some,
        Option.pure_def]

end Chain

/-- A policy that survives in the text of a record. -/
structure Portable (policy : Value) : Prop where
  /-- Its objects are proper. -/
  wellFormed : policy.WellFormed
  /-- It is not null, which stands for no policy at all. -/
  ne_null : policy ≠ .null
  /-- Its numbers are integers. -/
  floatFree : policy.FloatFree
  /-- A text nests at most 127 levels, of which the record and the model take two. -/
  shallow : (ofValue policy).levels ≤ 125

/-- A record whose model is a cluster with a portable policy is read back as it was. -/
theorem ofText?_of_portable {r : ProgressRecord Cluster}
    (h : r.Models (Cluster.Policies Portable)) :
    ProgressRecord.decode.ofText? r.encode.text = some r := by
  have hcluster : Codec 3 Resource.encode (Resource.decode : Decoder Cluster) := Cluster.codec
  have hpart : ∀ model ∈ r.model, ∀ part ∈ FreeForm.parts model, Portable part :=
    fun model hmodel part hpart => h model hmodel part (Cluster.mem_parts.mp hpart)
  refine (ProgressRecord.codec hcluster).ofText?_text ?_ ?_ ?_
  · refine ProgressRecord.every_iff.mpr fun model hmodel part hmem => ?_
    have hportable := hpart model hmodel part hmem
    exact ⟨hportable.wellFormed, hportable.ne_null⟩
  · exact ProgressRecord.every_iff.mpr fun model hmodel part hmem =>
      (hpart model hmodel part hmem).floatFree
  · exact ProgressRecord.levels_encode_le fun model hmodel =>
      Cluster.levels_encode_le fun policy hpolicy => (h model hmodel policy hpolicy).shallow

/-- A record whose model is an endpoint is read back as it was. -/
theorem ofText?_of_endpoint (r : ProgressRecord EndpointAccess) :
    ProgressRecord.decode.ofText? r.encode.text = some r := by
  have hendpoint : Codec 2 Resource.encode (Resource.decode : Decoder EndpointAccess) :=
    EndpointAccess.codec
  have hplain : ∀ (P : Value → Prop), Every P r :=
    fun P => ProgressRecord.every_iff.mpr fun model _ => Plain.every P model
  have hlevels : ∀ model ∈ r.model, (Resource.encode model).levels ≤ 2 :=
    fun model _ => model.levels_encode_le
  exact (ProgressRecord.codec hendpoint).ofText?_text (hplain _) (hplain _)
    (Nat.le_trans (ProgressRecord.levels_encode_le hlevels) (by decide))

/-- Whatever a chain of the two families does, it does just the same when each record that it leaves
is handed over as text, if the desired policy is portable. -/
theorem goes_over_text_as_in_memory :
    (∀ (s : Settings) (scope : ResourceScope) (operation : Operation) (chain : Chain Cluster),
      (Cluster.family s scope).chain operation = some chain →
      ∀ (desired : Cluster) (previous : Option Cluster) (remote : Remote) (limit : Nat),
        desired.Policies Portable →
          chain.passesOverText (Cluster.family s scope).faults ⟨desired, previous⟩ remote limit
              .empty [] =
            some (chain.passes (Cluster.family s scope).faults ⟨desired, previous⟩ remote limit
              .empty [])) ∧
    (∀ (s : Settings) (operation : Operation) (chain : Chain EndpointAccess),
      (EndpointAccess.family s).chain operation = some chain →
      ∀ (desired : EndpointAccess) (previous : Option EndpointAccess) (remote : Remote)
        (limit : Nat),
        chain.passesOverText (EndpointAccess.family s).faults ⟨desired, previous⟩ remote limit
            .empty [] =
          some (chain.passes (EndpointAccess.family s).faults ⟨desired, previous⟩ remote limit
            .empty [])) := by
  constructor
  · intro s scope operation chain hchain desired previous remote limit hpolicy
    refine passesOverText_eq (fun hends => ?_) limit
    exact ofText?_of_portable
      (hends.models (Cluster.keepsModels hchain) (fun _ => hpolicy) models_empty)
  · intro s operation chain _ desired previous remote limit
    exact passesOverText_eq (fun _ => ofText?_of_endpoint _) limit

/-- A cluster that is to have a policy with a list in it. -/
def grantedCluster : Cluster where
  clusterIdentifier := some "analytics"
  namespaceResourcePolicy := some
    (.object [("Statement", .array [.object [("Effect", .string "Allow"), ("Sid", .string "\n")]])])

/-- A service that turns every request away. -/
def busy : Remote := fun _ _ => .error { code := "Throttling", message := "Rate exceeded" }

/-- An update that is turned away again and again is suspended each time, over text as in memory. -/
theorem busyUpdate_goes_over_text :
    ((Cluster.updateChain {} {}).passes Cluster.faults ⟨grantedCluster, none⟩ busy 3
        .empty []).length = 3 ∧
      (Cluster.updateChain {} {}).passesOverText Cluster.faults ⟨grantedCluster, none⟩ busy 3
          .empty [] =
        some ((Cluster.updateChain {} {}).passes Cluster.faults ⟨grantedCluster, none⟩ busy 3
          .empty []) := by
  have hportable : grantedCluster.Policies Portable := by
    rintro _ ⟨⟩
    refine ⟨?_, nofun, ?_, by decide +kernel⟩
    · exact ⟨by decide +kernel, ⟨⟨by decide +kernel, trivial, trivial, trivial⟩, trivial⟩, trivial⟩
    · exact ⟨⟨⟨trivial, trivial, trivial⟩, trivial⟩, trivial⟩
  refine ⟨by decide +kernel, ?_⟩
  exact goes_over_text_as_in_memory.1 {} {} .update _ rfl grantedCluster none busy 3 hportable

end Lifecycle
