import YieldMachine.Proofs.Conservation
import YieldMachine.Proofs.Delegation.Transparency
import YieldMachine.Proofs.Drive.Reentrancy
import YieldMachine.Proofs.Finality
import YieldMachine.Proofs.Lifecycle
import YieldMachine.Proofs.Machine.Budget
import YieldMachine.Proofs.Machine.Fidelity
import YieldMachine.Proofs.Table.Ledger
import YieldMachine.Session
import YieldMachine.Proofs.Delegation.Sharing
import YieldMachine.Proofs.Drive.Discipline
import YieldMachine.Proofs.Machine.Instruction
import YieldMachine.Proofs.Machine.Nesting
import YieldMachine.Proofs.Session.Progress
import YieldMachine.Proofs.Session.Depth
import YieldMachine.Proofs.Machine.Limits
import YieldMachine.Proofs.Session.Limits
import YieldMachine.Proofs.Likeness.Value
import YieldMachine.Proofs.Likeness.Machine
import YieldMachine.Proofs.Likeness.World
import YieldMachine.Proofs.Likeness.Drive
import YieldMachine.Proofs.Independence.Footprint
import YieldMachine.Proofs.Independence.Interleaving
import YieldMachine.Proofs.Independence.Exchange
import YieldMachine.Proofs.Independence.Drivers
import YieldMachine.Proofs.Drive.Passage
import YieldMachine.Proofs.Drive.Nesting
import YieldMachine.Proofs.History.Transcript
import YieldMachine.Proofs.Session.YieldFrom
import YieldMachine.Proofs.Delivery
import YieldMachine.Proofs.Machine.Accounting
import YieldMachine.Proofs.Delegation.Snapshot
import YieldMachine.Proofs.Delegation.Chain
import YieldMachine.Proofs.Delegation.Failure
import YieldMachine.Proofs.Number.Canonical
import YieldMachine.Proofs.Table.Normal
import YieldMachine.Proofs.Table.Cursor
import YieldMachine.Proofs.Value.Equality
import YieldMachine.Proofs.Numbering
import YieldMachine.Proofs.Heap.Reference
import YieldMachine.Proofs.Heap.Inspection
import YieldMachine.Proofs.Session.PlainCall
import YieldMachine.Proofs.Session.Underflow
import YieldMachine.Proofs.Drive.Posting
import YieldMachine.Proofs.History.Advance
import YieldMachine.Proofs.Machine.Contract
import YieldMachine.Proofs.Machine.Setting
import YieldMachine.Proofs.Program.Registry
import YieldMachine.Proofs.Machine.WellFormed
