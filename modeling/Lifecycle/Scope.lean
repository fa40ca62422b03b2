import Lifecycle.Json.Record

/-!
# Resource scope

Where the managed resources live. Tag requests name a cluster by its full resource
name, which is made of the scope and the identifier.
-/

namespace Lifecycle

open Json

/-- Where the managed resources live. -/
structure ResourceScope where
  /-- Partition of the service. -/
  partition : String := "aws"
  /-- Region in the partition. -/
  region : String := "us-east-1"
  /-- Account that owns the resources. -/
  accountId : String := "123456789012"
  deriving DecidableEq, Repr

namespace ResourceScope

/-- The full resource name of a cluster. -/
def clusterArn (s : ResourceScope) (identifier : String) : String :=
  "arn:" ++ s.partition ++ ":redshift:" ++ s.region ++ ":" ++ s.accountId ++ ":cluster:"
    ++ identifier

/-- The record of a scope. -/
def encode (s : ResourceScope) : Document :=
  .object [("partition", .string s.partition), ("region", .string s.region),
    ("account_id", .string s.accountId)]

/-- Reads a scope; all members must be there. -/
def decode : Decoder ResourceScope :=
  .record ["partition", "region", "account_id"] fun r => do
    return { partition := ← r.required "partition" .string
             region := ← r.required "region" .string
             accountId := ← r.required "account_id" .string }

end ResourceScope

end Lifecycle
