import Lifecycle.Chain

/-!
# Handler settings

Settings tune all chains at once: schedules, extra delays and how many favourable
observations certain changes need. Every setting has a default, so a text may name
any part of them. Settings are accepted only when the schedules of looks have some time
at all and every count asks for an observation (`Settings.objection?`).
-/

namespace Lifecycle

open Json

/-- Tunables shared by all chains. -/
structure Settings where
  /-- Schedule of looks at the state. -/
  stabilization : BackoffPolicy := .constant 30 10800
  /-- Schedule of requests sent again. -/
  throttling : BackoffPolicy := .doubling 5 60 900
  /-- Schedule of looks after a modification or a feature change. -/
  modification : BackoffPolicy := .doubling 30 300 10800
  /-- Extra delay in seconds after a resource is made. -/
  coolDown : UInt64 := 60
  /-- Wait in place, in seconds, between the removal of a policy and that of its cluster. -/
  settle : UInt64 := 10
  /-- Favourable verdicts that a change of query acceleration needs. -/
  aquaMinObservations : UInt32 := 3
  /-- Favourable verdicts that a change of version or maintenance track needs. -/
  patchMinObservations : UInt32 := 2

/-- Why settings are not accepted. -/
inductive SettingsObjection where
  /-- A schedule of looks at the state gives up before the first look. -/
  | noTime
  /-- A change would need no favourable verdict. -/
  | noObservations
  deriving DecidableEq, Repr

/-- The objection in words. -/
def SettingsObjection.message : SettingsObjection → String
  | .noTime => "stabilization timeouts must be positive"
  | .noObservations => "min observation counts must be at least 1"

namespace Settings

/-- The schedules of a chain that reports its model. -/
def chainConfig (s : Settings) : ChainConfig :=
  { stabilization := s.stabilization, throttling := s.throttling }

/-- What speaks against the settings, if anything; time comes before observations. -/
def objection? (s : Settings) : Option SettingsObjection :=
  if s.stabilization.timeout = 0 ∨ s.modification.timeout = 0 then some .noTime
  else if s.aquaMinObservations = 0 ∨ s.patchMinObservations = 0 then some .noObservations
  else none

/-- The settings in JSON. -/
def encode (s : Settings) : Document :=
  .object [
    ("stabilization", s.stabilization.encode),
    ("throttling", s.throttling.encode),
    ("modification", s.modification.encode),
    ("cool_down_seconds", .ofWord s.coolDown),
    ("settle_seconds", .ofWord s.settle),
    ("aqua_min_observations", .ofWord s.aquaMinObservations.toUInt64),
    ("patch_min_observations", .ofWord s.patchMinObservations.toUInt64)]

/-- Names of the settings, in order. -/
def memberNames : List String :=
  ["stabilization", "throttling", "modification", "cool_down_seconds", "settle_seconds",
    "aqua_min_observations", "patch_min_observations"]

/-- Reads settings; what is not there keeps its default. -/
def decode : Decoder Settings :=
  .record memberNames fun r => do
    let d : Settings := {}
    return { stabilization := ← r.defaulted "stabilization" d.stabilization BackoffPolicy.decode
             throttling := ← r.defaulted "throttling" d.throttling BackoffPolicy.decode
             modification := ← r.defaulted "modification" d.modification BackoffPolicy.decode
             coolDown := ← r.defaulted "cool_down_seconds" d.coolDown .word64
             settle := ← r.defaulted "settle_seconds" d.settle .word64
             aquaMinObservations :=
               ← r.defaulted "aqua_min_observations" d.aquaMinObservations .word32
             patchMinObservations :=
               ← r.defaulted "patch_min_observations" d.patchMinObservations .word32 }

end Settings

end Lifecycle
