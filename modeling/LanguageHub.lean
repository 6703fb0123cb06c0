import LanguageHub.Config.Report
import LanguageHub.Config.Sources
import LanguageHub.Connection.Provider
import LanguageHub.Main
import LanguageHub.Registry.Configured
import LanguageHub.Registry.Described
import LanguageHub.Simulation.Bench
import LanguageHub.Simulation.Report
import LanguageHub.Simulation.Work
import LanguageHub.Proofs.Client.Calls
import LanguageHub.Proofs.Document.Mirror
import LanguageHub.Proofs.Hub.Attaching
import LanguageHub.Proofs.Hub.Copies
import LanguageHub.Proofs.Hub.Singletons
import LanguageHub.Proofs.Session.Closing
import LanguageHub.Proofs.Session.Committing
import LanguageHub.Proofs.Session.Connecting
import LanguageHub.Proofs.Session.Sitting
import LanguageHub.Proofs.Client.Answering
import LanguageHub.Proofs.Client.Correspondence
import LanguageHub.Proofs.Client.Farewell
import LanguageHub.Proofs.Client.Recalling
import LanguageHub.Proofs.Lifecycle.Calls
import LanguageHub.Proofs.Lifecycle.Disconnecting
import LanguageHub.Proofs.Lifecycle.Expiring
import LanguageHub.Proofs.Lifecycle.Reopening
import LanguageHub.Proofs.Merge.Cancellation
import LanguageHub.Proofs.Merge.Completeness
import LanguageHub.Proofs.Merge.Dropping
import LanguageHub.Proofs.Merge.Vigil
import LanguageHub.Proofs.Merge.Watching
import LanguageHub.Proofs.Registry.LanguageIds
import LanguageHub.Proofs.Registry.Log
import LanguageHub.Proofs.Registry.Matching
import LanguageHub.Proofs.Session.Sequence
import LanguageHub.Proofs.Session.Bustle
import LanguageHub.Proofs.Document.Recording
import LanguageHub.Proofs.Parley.Calls
import LanguageHub.Proofs.Parley.Running
import LanguageHub.Proofs.Manners.Running
import LanguageHub.Proofs.Settings.Running
import LanguageHub.Proofs.Registry.Hierarchy
import LanguageHub.Proofs.Text.Splicing
import LanguageHub.Proofs.Text.LineEnds
import LanguageHub.Proofs.Wire.Framing
import LanguageHub.Proofs.Wire.Messages
import LanguageHub.Proofs.Client.Attending
import LanguageHub.Proofs.Hub.Routes
import LanguageHub.Proofs.Hub.Restarting
import LanguageHub.Proofs.MockServer.Serving
import LanguageHub.Proofs.Feature.Usages
