import ClosureMachine.Image.Writer
import ClosureMachine.Main
import ClosureMachine.Proofs.CallReturn
import ClosureMachine.Proofs.CellValues
import ClosureMachine.Proofs.CheckedRuns
import ClosureMachine.Proofs.CreationSites
import ClosureMachine.Proofs.InternalFaults
import ClosureMachine.Proofs.Reuse
import ClosureMachine.Proofs.RoundTrip
import ClosureMachine.Proofs.Scrubbing
import ClosureMachine.Proofs.Sharing
import ClosureMachine.Proofs.Termination
import ClosureMachine.Proofs.FailedSteps
import ClosureMachine.Proofs.Returns
import ClosureMachine.Proofs.Leeway
import ClosureMachine.Proofs.LeewayRuns
import ClosureMachine.Proofs.Capacities
import ClosureMachine.Proofs.Noninterference
import ClosureMachine.Proofs.FirstDefect
import ClosureMachine.Proofs.Refusals
import ClosureMachine.Proofs.Stopping
import ClosureMachine.Proofs.Closing
import ClosureMachine.Proofs.Truncation
import ClosureMachine.Proofs.FailedWrites
import ClosureMachine.Proofs.FarConstants
import ClosureMachine.Proofs.Interning
import ClosureMachine.Proofs.ListedWords
import ClosureMachine.Proofs.Loading
import ClosureMachine.Proofs.SlotMap
