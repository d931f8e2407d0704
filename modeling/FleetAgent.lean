import FleetAgent.Archive.Writer
import FleetAgent.Machine.Standard
import FleetAgent.Main
import FleetAgent.Proofs.Update.Coordinator.Exclusion
import FleetAgent.Proofs.Update.Coordinator.Pending
import FleetAgent.Proofs.Update.Coordinator.Restart
import FleetAgent.Proofs.Update.Coordinator.Slot
import FleetAgent.Proofs.Update.Download
import FleetAgent.Proofs.Update.Package
import FleetAgent.Shell.Attach
import FleetAgent.Shell.Session
import FleetAgent.Shell.Start
import FleetAgent.Update.Check
import FleetAgent.Update.Client
import FleetAgent.Update.Coordinator
import FleetAgent.Proofs.Shell.Registry
import FleetAgent.Proofs.Auth.Provider
import FleetAgent.Proofs.Channel.Connection
import FleetAgent.Proofs.Shell.Attach
import FleetAgent.Proofs.Shell.Session
import FleetAgent.Proofs.Shell.Spelling
import FleetAgent.Proofs.Channel.Message
import FleetAgent.Proofs.Channel.Reconnect
import FleetAgent.Proofs.Archive.WholeDirectory
import FleetAgent.Proofs.Update.Found
import FleetAgent.Proofs.Update.OwnRecord
import FleetAgent.Proofs.Update.WideDescriptor
import FleetAgent.Proofs.Update.Commented
import FleetAgent.Proofs.Update.Truncated
import FleetAgent.Proofs.Auth.Lifetime
import FleetAgent.Proofs.Update.Engine.Report
import FleetAgent.Proofs.Update.Engine.Stream
import FleetAgent.Proofs.Shell.Address
import FleetAgent.Proofs.Shell.PlainAddress
import FleetAgent.Proofs.Shell.Transfer
import FleetAgent.Proofs.Channel.Decoding
import FleetAgent.Proofs.Update.Containment
import FleetAgent.Proofs.Time.Delays
import FleetAgent.Proofs.Shell.Gate
import FleetAgent.Proofs.Auth.Registration
import FleetAgent.Proofs.Update.Properties
import FleetAgent.Proofs.Device.Interfaces
import FleetAgent.Proofs.Server.Address
import FleetAgent.Proofs.Settings.Precedence
