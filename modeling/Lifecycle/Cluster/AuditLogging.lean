import Lifecycle.Cluster.Description
import Lifecycle.Diff
import Lifecycle.Step

/-!
# Audit logging of a cluster

Logging is switched on with a destination and switched off without one; in both
cases the logging status tells when the change has set in.
-/

namespace Lifecycle.Cluster

open Json

/-- The request that switches logging on. -/
def enableLoggingRequest (identifier : String) (logging : LoggingProperties) : RemoteRequest :=
  ⟨"EnableLogging", .ofPresent [
    ("ClusterIdentifier", some (.string identifier)),
    ("BucketName", logging.bucketName.map .string),
    ("S3KeyPrefix", logging.s3KeyPrefix.map .string),
    ("LogDestinationType", logging.logDestinationType.map .string),
    ("LogExports", logging.logExports.map .ofStrings)]⟩

/-- The request that switches logging off. -/
def disableLoggingRequest (identifier : String) : RemoteRequest :=
  ⟨"DisableLogging", .ofMembers [("ClusterIdentifier", .string identifier)]⟩

/-- The request for the logging status. -/
def loggingStatusRequest (identifier : String) : RemoteRequest :=
  ⟨"DescribeLoggingStatus", .ofMembers [("ClusterIdentifier", .string identifier)]⟩

/-- A look at the logging status. -/
def loggingProbe (target : Target Cluster) : Except Defect Stabilization := do
  return { probe := .invoke (loggingStatusRequest (← target.desired.id)) }

namespace Step

/-- Switches logging off when the desired model has none any more. -/
def disableLogging : Step Cluster where
  name := "disable-logging"
  shouldRun target _ :=
    target.desired.loggingProperties.isNone &&
      match target.previous with
      | some previous => previous.loggingProperties.isSome
      | none => false
  request target _ := do return disableLoggingRequest (← target.desired.id)
  stabilization target _ := some <$> loggingProbe target
  isStable observation _ :=
    match observation with
    | .present status => !loggingEnabled status
    | .absent => false

/-- Switches logging on when the desired model has another destination than before. -/
def enableLogging : Step Cluster where
  name := "enable-logging"
  shouldRun target _ :=
    target.desired.loggingProperties.isSome
      && Diff.valueChanged (·.loggingProperties) target.desired target.previous
  request target _ := do
    return enableLoggingRequest (← target.desired.id) (target.desired.loggingProperties.getD {})
  stabilization target _ := some <$> loggingProbe target
  isStable observation _ :=
    match observation with
    | .present status => loggingEnabled status
    | .absent => false

end Step

end Lifecycle.Cluster
