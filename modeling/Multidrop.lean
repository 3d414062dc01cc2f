import Multidrop.Bridge
import Multidrop.Checksum
import Multidrop.Cli.Action
import Multidrop.Cli.Arguments
import Multidrop.Cli.Number
import Multidrop.Field
import Multidrop.Flash
import Multidrop.Flash.Survey
import Multidrop.Host.Client
import Multidrop.Host.Error
import Multidrop.Host.Flashing
import Multidrop.Host.Image
import Multidrop.Host.Transport
import Multidrop.Layout
import Multidrop.Line
import Multidrop.Line.Recorder
import Multidrop.Line.Transceiver
import Multidrop.Lock
import Multidrop.Main
import Multidrop.Network
import Multidrop.Node
import Multidrop.Node.Attached
import Multidrop.Node.Boot
import Multidrop.Node.Bootloader
import Multidrop.Node.Bootloader.Serve
import Multidrop.Node.Chip
import Multidrop.Node.Collector
import Multidrop.Node.CommandSet
import Multidrop.Node.Device
import Multidrop.Node.Firmware
import Multidrop.Node.Identity
import Multidrop.Node.LedTable
import Multidrop.Node.Link
import Multidrop.Node.Report
import Multidrop.Node.Scripted
import Multidrop.Node.SelfCheck
import Multidrop.Node.Session
import Multidrop.Node.Shared
import Multidrop.Packed
import Multidrop.Proofs.Bootloader.Acceptance
import Multidrop.Proofs.Bootloader.Boot
import Multidrop.Proofs.Bootloader.Execution
import Multidrop.Proofs.Bootloader.Identity
import Multidrop.Proofs.Bootloader.Leaving
import Multidrop.Proofs.Bootloader.Memory
import Multidrop.Proofs.Bootloader.Outcome
import Multidrop.Proofs.Bootloader.Page
import Multidrop.Proofs.Bootloader.Request
import Multidrop.Proofs.Bootloader.Update
import Multidrop.Proofs.Bridge.Handling
import Multidrop.Proofs.Bridge.Ledger
import Multidrop.Proofs.Bridge.Polling
import Multidrop.Proofs.Bridge.Timing
import Multidrop.Proofs.Checksum
import Multidrop.Proofs.Checksum.Burst
import Multidrop.Proofs.Checksum.Pieces
import Multidrop.Proofs.Checksum.Register
import Multidrop.Proofs.Cli.Number
import Multidrop.Proofs.Field
import Multidrop.Proofs.Firmware.Execution
import Multidrop.Proofs.Firmware.Outputs
import Multidrop.Proofs.Flash.Change
import Multidrop.Proofs.Flash.Read
import Multidrop.Proofs.Host.Flashing
import Multidrop.Proofs.Host.Observation
import Multidrop.Proofs.Host.Operation
import Multidrop.Proofs.Host.Preparation
import Multidrop.Proofs.Host.Transmission
import Multidrop.Proofs.Image
import Multidrop.Proofs.Line.Discipline
import Multidrop.Proofs.Network.Agreement
import Multidrop.Proofs.Network.Decoding
import Multidrop.Proofs.Network.Exchange
import Multidrop.Proofs.Network.Inquiry
import Multidrop.Proofs.Network.Naming
import Multidrop.Proofs.Network.Request
import Multidrop.Proofs.Node.Address
import Multidrop.Proofs.Node.Answer
import Multidrop.Proofs.Node.Attendance
import Multidrop.Proofs.Node.Call
import Multidrop.Proofs.Node.Event
import Multidrop.Proofs.Node.Framing
import Multidrop.Proofs.Node.Grammar
import Multidrop.Proofs.Node.Hearing
import Multidrop.Proofs.Node.Interleaving
import Multidrop.Proofs.Node.Reachable
import Multidrop.Proofs.Node.Readiness
import Multidrop.Proofs.Node.Reception
import Multidrop.Proofs.Node.Reply
import Multidrop.Proofs.Node.Session
import Multidrop.Proofs.Node.Silence
import Multidrop.Proofs.Node.Timer
import Multidrop.Proofs.Node.Utterance
import Multidrop.Proofs.Packed
import Multidrop.Proofs.Protection
import Multidrop.Proofs.Reply
import Multidrop.Proofs.Ring
import Multidrop.Proofs.SelfCheck
import Multidrop.Proofs.Store.Append
import Multidrop.Proofs.Store.Failure
import Multidrop.Proofs.Store.LastWrite
import Multidrop.Proofs.Store.Log
import Multidrop.Proofs.Store.Region
import Multidrop.Proofs.Store.Scan
import Multidrop.Proofs.Store.Write
import Multidrop.Proofs.Strict.Bootloader
import Multidrop.Proofs.Strict.Collector
import Multidrop.Proofs.Strict.Command
import Multidrop.Proofs.Strict.Framer
import Multidrop.Proofs.Strict.Image
import Multidrop.Proofs.Strict.Node
import Multidrop.Proofs.Strict.Operation
import Multidrop.Proofs.Strict.Store
import Multidrop.Ring
import Multidrop.Store
import Multidrop.Text.Hexadecimal
import Multidrop.Text.Terminal
import Multidrop.Text.Utf8
import Multidrop.Wire.Code
import Multidrop.Wire.Header
import Multidrop.Wire.Payload
