import MachineFleet.Data.Json.Printer
import MachineFleet.Main
import MachineFleet.Probe.Check
import MachineFleet.Server.Echo
import MachineFleet.Trial.OfController
import MachineFleet.Trial.OfFleet
import MachineFleet.Trial.OfProbe
import MachineFleet.Trial.OfProcess
import MachineFleet.Trial.OfTicker
import MachineFleet.Proofs.Fleet.Closing
import MachineFleet.Proofs.Fleet.LateMachines
import MachineFleet.Proofs.Machine.AddressPool
import MachineFleet.Proofs.Readiness.Confirmation
import MachineFleet.Proofs.Machine.ProcessFactory
import MachineFleet.Proofs.Lifecycle.Journal
import MachineFleet.Proofs.Lifecycle.Requests
import MachineFleet.Proofs.Ticker.Task
import MachineFleet.Proofs.Log.Pipes
import MachineFleet.Proofs.Probe.Reports
import MachineFleet.Proofs.Machine.FleetAddresses
import MachineFleet.Proofs.Machine.Jail
import MachineFleet.Proofs.Fleet.Relay
import MachineFleet.Proofs.Lifecycle.ProbeTarget
import MachineFleet.Proofs.Fleet.WorkloadEnvelope
import MachineFleet.Proofs.Config.Record
import MachineFleet.Proofs.Probe.WebUrl
import MachineFleet.Proofs.Fleet.Directory
import MachineFleet.Proofs.Fleet.Routing
import MachineFleet.Proofs.Machine.FailedLaunch
import MachineFleet.Proofs.Machine.RootRemoval
import MachineFleet.Proofs.Machine.NetworkCache
import MachineFleet.Proofs.Machine.ExitCalls
import MachineFleet.Proofs.Fleet.WorkloadBody
import MachineFleet.Proofs.Probe.Verdict
import MachineFleet.Proofs.Machine.Metadata
import MachineFleet.Proofs.Server.Echo
import MachineFleet.Proofs.Config.Load
import MachineFleet.Proofs.CommandLine
import MachineFleet.Proofs.Fleet.RoundRobin
import MachineFleet.Proofs.Machine.Launch
