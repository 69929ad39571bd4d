import StackMachine.CommandLine.Perform
import StackMachine.Main
import StackMachine.Proofs.Action
import StackMachine.Proofs.Pushes
import StackMachine.Proofs.Rollback
import StackMachine.Proofs.Phases
import StackMachine.Proofs.Flow
import StackMachine.Proofs.StepListing
import StackMachine.Proofs.StackContents
import StackMachine.Proofs.CallFrame
import StackMachine.Proofs.Pops
import StackMachine.Proofs.CallReturn
import StackMachine.Proofs.Returns
import StackMachine.Proofs.Discipline
import StackMachine.Proofs.Restoration
import StackMachine.Proofs.Code
import StackMachine.Proofs.FrameCount
import StackMachine.Proofs.Nesting
import StackMachine.Proofs.CodeListing
import StackMachine.Proofs.Emitted
import StackMachine.Proofs.Path
import StackMachine.Proofs.BoundedRun
import StackMachine.Proofs.Extension
import StackMachine.Proofs.Account
import StackMachine.Proofs.AcceptedArguments
import StackMachine.Proofs.RegisterNames
import StackMachine.Proofs.Presets
import StackMachine.Proofs.RunTrace
import StackMachine.Proofs.RunCommand
import StackMachine.Proofs.MemoryHistory
import StackMachine.Proofs.DocumentTokens
import StackMachine.Proofs.DocumentText
import StackMachine.Proofs.Literals
import StackMachine.Proofs.RoundTrip
import StackMachine.Proofs.ReturnOutcome
import StackMachine.Proofs.StackCapacity
import StackMachine.Proofs.Loading
import StackMachine.Proofs.Labels
import StackMachine.Proofs.Sweep
import StackMachine.Proofs.Columns
import StackMachine.Proofs.Lossless
import StackMachine.Proofs.WordText
import StackMachine.Proofs.RegisterCells
import StackMachine.Proofs.FreshMachines
import StackMachine.Proofs.TokenRows
import StackMachine.Proofs.NumberForms
import StackMachine.Proofs.TextForms
import StackMachine.Proofs.Spelling
import StackMachine.Proofs.ConfigText
import StackMachine.Proofs.Views
import StackMachine.Proofs.RoomTest
