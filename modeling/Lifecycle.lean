import Lifecycle.Cluster.Family
import Lifecycle.EndpointAccess.Family
import Lifecycle.Proofs.Bookkeeping
import Lifecycle.Proofs.Classification
import Lifecycle.Proofs.Cluster.ChangedAttributes
import Lifecycle.Proofs.Cluster.CoolDown
import Lifecycle.Proofs.Cluster.FavourableLooks
import Lifecycle.Proofs.Cluster.FirstUpdate
import Lifecycle.Proofs.Cluster.NewCluster
import Lifecycle.Proofs.Cluster.PolicyText
import Lifecycle.Proofs.Cluster.SettleWait
import Lifecycle.Proofs.Cluster.TagReconciliation
import Lifecycle.Proofs.Cluster.ToldNamespace
import Lifecycle.Proofs.Delays
import Lifecycle.Proofs.EndpointAccess.SecurityGroups
import Lifecycle.Proofs.Failures
import Lifecycle.Proofs.Families
import Lifecycle.Proofs.Readings
import Lifecycle.Proofs.Requests
import Lifecycle.Proofs.Resubmission
import Lifecycle.Proofs.Stabilization
import Lifecycle.Proofs.Termination
import Lifecycle.Relay
import Lifecycle.Scope
import Lifecycle.Settings.Lookup
