import KnownObjects.Address
import KnownObjects.Channel.Basic
import KnownObjects.Channel.Route
import KnownObjects.Channel.Link
import KnownObjects.Channel.Loopback
import KnownObjects.Channel.Stream
import KnownObjects.ClassInfo
import KnownObjects.Client
import KnownObjects.CommandLine.Arguments
import KnownObjects.CommandLine.Run
import KnownObjects.CommandLine.Sample
import KnownObjects.CommandLine.Texts
import KnownObjects.Compilation
import KnownObjects.Dump.Document
import KnownObjects.Dump.Forest
import KnownObjects.Dump.Graph
import KnownObjects.Dump.Listing
import KnownObjects.Dump.Output
import KnownObjects.Failure
import KnownObjects.Heap.Basic
import KnownObjects.Heap.Collection
import KnownObjects.Heap.Error
import KnownObjects.Heap.HandleTable
import KnownObjects.Heap.Value
import KnownObjects.Index
import KnownObjects.IndexSet
import KnownObjects.Main
import KnownObjects.Message
import KnownObjects.Outcome
import KnownObjects.Proofs.Coupling
import KnownObjects.Proofs.Dump.Accounts
import KnownObjects.Proofs.Dump.Lines
import KnownObjects.Proofs.Dump.Promotion
import KnownObjects.Proofs.Dump.Reading
import KnownObjects.Proofs.Dump.Renaming
import KnownObjects.Proofs.Dump.Roots
import KnownObjects.Proofs.Dump.Texts
import KnownObjects.Proofs.Dump.Walk
import KnownObjects.Proofs.Endings
import KnownObjects.Proofs.Heap.Handles
import KnownObjects.Proofs.Heap.Identity
import KnownObjects.Proofs.Heap.Layout
import KnownObjects.Proofs.Heap.Operations
import KnownObjects.Proofs.Heap.Relocation
import KnownObjects.Proofs.Heap.Renaming
import KnownObjects.Proofs.Heap.WellFormed
import KnownObjects.Proofs.Split.AnyPeer
import KnownObjects.Proofs.Split.Calls
import KnownObjects.Proofs.Split.Facing
import KnownObjects.Proofs.Split.Frames
import KnownObjects.Proofs.Split.Network
import KnownObjects.Proofs.Split.Reconciliation
import KnownObjects.Proofs.Split.Topologies
import KnownObjects.Proofs.Split.Transports
import KnownObjects.Proofs.Table.Known
import KnownObjects.Proofs.Table.Lookup
import KnownObjects.Proofs.Table.Reached
import KnownObjects.Proofs.Table.Renaming
import KnownObjects.Proofs.Table.Roster
import KnownObjects.Proofs.Table.Service
import KnownObjects.Proofs.Table.Slots
import KnownObjects.Proofs.Transparency
import KnownObjects.Proofs.Wire.Lengths
import KnownObjects.Proofs.Wire.RoundTrip
import KnownObjects.Server
import KnownObjects.Session.Command
import KnownObjects.Session.Run
import KnownObjects.Session.State
import KnownObjects.Slot
import KnownObjects.Table
import KnownObjects.Text
import KnownObjects.Wire.Codec
import KnownObjects.Wire.Frame
import KnownObjects.Wire.Varint
import KnownObjects.Proofs.Heap.Chronicle
import KnownObjects.Proofs.Heap.Holdings
import KnownObjects.Proofs.Table.Uses
import KnownObjects.Proofs.Host.Events
import KnownObjects.Proofs.Host.Ownership
import KnownObjects.Proofs.Host.Staleness
import KnownObjects.Proofs.Heap.Typing
import KnownObjects.Proofs.Wire.Delivery
import KnownObjects.Proofs.Heap.Rehandling
import KnownObjects.Proofs.Table.Rehandling
import KnownObjects.Proofs.Host.Isolation
import KnownObjects.Proofs.Split.Pipes
import KnownObjects.Proofs.Split.Severed
import KnownObjects.Proofs.Split.Containment
import KnownObjects.Proofs.Atomicity
import KnownObjects.Proofs.Dump.Order
import KnownObjects.Proofs.Dump.Preorder
import KnownObjects.Proofs.Table.Contract
import KnownObjects.Proofs.Wire.Bodies
import KnownObjects.Proofs.Split.Lockstep
import KnownObjects.Proofs.Split.Serving
import KnownObjects.Proofs.Dump.Completion
import KnownObjects.Proofs.Dump.Settled
import KnownObjects.Proofs.IndexSets
import KnownObjects.Proofs.Heap.Allocation
import KnownObjects.Proofs.Wire.Spellings
import KnownObjects.Proofs.Table.Tags
import KnownObjects.Proofs.Split.Tags
import KnownObjects.Proofs.Blindness
import KnownObjects.Proofs.Inertness
import KnownObjects.Proofs.Hash.Mixing
import KnownObjects.Proofs.Hash.Period
import KnownObjects.Proofs.Heap.Hashes
