import X509Server.Library.Checked
import X509Server.Library.Window
import X509Server.Library.PrefixCode
import X509Server.Library.Der
import X509Server.Library.Calendar
import X509Server.Library.Ledger
import X509Server.Library.Stateful
import X509Server.Library.Runs
import X509Server.Library.Simulation
import X509Server.Library.Queue
import X509Server.Library.Channel
import X509Server.Library.Pipe
import X509Server.Model.Machine
import X509Server.Model.Element
import X509Server.Model.Extension
import X509Server.Model.Time
import X509Server.Model.Certificate
import X509Server.Model.OpenSsl
import X509Server.Model.Crypto
import X509Server.Model.Load
import X509Server.Model.Server
import X509Server.Model.Process
import X509Server.Model.Startup
import X509Server.Model.Exec
import X509Server.Model.Shell
import X509Server.Model.GenSig
import X509Server.Interface.Grammar
import X509Server.Interface.Dates
import X509Server.Interface.Fields
import X509Server.Interface.Trust
import X509Server.Interface.Purposes
import X509Server.Interface.RsaKeys
import X509Server.Interface.Slots
import X509Server.Interface.Ownership
import X509Server.Interface.Decisions
import X509Server.Interface.Expiry
import X509Server.Interface.Sessions
import X509Server.Interface.Kernel
import X509Server.Interface.Service
import X509Server.Interface.Network
import X509Server.Interface.Attrition
import X509Server.Interface.Availability
import X509Server.Interface.Counts
import X509Server.Interface.Eviction
import X509Server.Interface.Constraints
import X509Server.Interface.Walk
import X509Server.Interface.Buffers
import X509Server.Interface.Wedge
import X509Server.Interface.Delivery
import X509Server.Interface.RoundTrip
import X509Server.Interface.Provenance
import X509Server.Interface.Custody
import X509Server.Interface.Output
import X509Server.Analysis.ElementSpec
import X509Server.Analysis.ConsumeSpec
import X509Server.Analysis.OptionalSpec
import X509Server.Analysis.TimeSpec
import X509Server.Analysis.NameSpec
import X509Server.Analysis.HandlerSpec
import X509Server.Analysis.ExtensionSpec
import X509Server.Analysis.CertificateSpec
import X509Server.Analysis.EncodingSpec
import X509Server.Analysis.ResidueSpec
import X509Server.Analysis.FieldSpec
import X509Server.Analysis.SignedSpec
import X509Server.Analysis.UsageSpec
import X509Server.Analysis.WorldSpec
import X509Server.Analysis.LedgerSpec
import X509Server.Analysis.ExtractSpec
import X509Server.Analysis.TrustSpec
import X509Server.Analysis.ConstraintSpec
import X509Server.Analysis.OrderSpec
import X509Server.Analysis.WalkSpec
import X509Server.Analysis.StrictSpec
import X509Server.Analysis.ValiditySpec
import X509Server.Analysis.PurposeSpec
import X509Server.Analysis.RsaSpec
import X509Server.Analysis.LoadSpec
import X509Server.Analysis.KeySpec
import X509Server.Analysis.StoreSpec
import X509Server.Analysis.OwnershipSpec
import X509Server.Analysis.AuthSpec
import X509Server.Analysis.ServerSpec
import X509Server.Analysis.ExpirySpec
import X509Server.Analysis.TrackSpec
import X509Server.Analysis.DecisionSpec
import X509Server.Analysis.AttritionSpec
import X509Server.Analysis.SessionSpec
import X509Server.Analysis.ProvenanceSpec
import X509Server.Analysis.KernelSpec
import X509Server.Analysis.CountSpec
import X509Server.Analysis.EvictionSpec
import X509Server.Analysis.BufferSpec
import X509Server.Analysis.ExecSpec
import X509Server.Analysis.ShellSpec
import X509Server.Analysis.OutputSpec
import X509Server.Analysis.GenSigSpec
import X509Server.Analysis.RoundTripSpec
import X509Server.Analysis.NetworkSpec
import X509Server.Analysis.ServiceSpec
import X509Server.Analysis.AvailabilitySpec
import X509Server.Analysis.ProcessSpec
import X509Server.Analysis.ReleaseSpec
import X509Server.Analysis.StartupSpec
