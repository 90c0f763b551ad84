import SubroutineVM.Machine.Log
import SubroutineVM.Main
import SubroutineVM.Proofs.Assembly.Acceptance
import SubroutineVM.Proofs.Assembly.Concatenation
import SubroutineVM.Proofs.Assembly.Correspondence
import SubroutineVM.Proofs.Assembly.Reassembly
import SubroutineVM.Proofs.Assembly.RoundTrip
import SubroutineVM.Proofs.CommandLine.Assembling
import SubroutineVM.Proofs.CommandLine.Tracing
import SubroutineVM.Proofs.Machine.Aborts
import SubroutineVM.Proofs.Machine.Budget
import SubroutineVM.Proofs.Machine.CallHistory
import SubroutineVM.Proofs.Machine.Calls
import SubroutineVM.Proofs.Machine.Framing
import SubroutineVM.Proofs.Machine.GasAccounts
import SubroutineVM.Proofs.Machine.GasThreshold
import SubroutineVM.Proofs.Machine.LastPush
import SubroutineVM.Proofs.Machine.Locality
import SubroutineVM.Proofs.Machine.Logging
import SubroutineVM.Proofs.Machine.Observation
import SubroutineVM.Proofs.Machine.Obstacles
import SubroutineVM.Proofs.Machine.Padding
import SubroutineVM.Proofs.Machine.Safety
import SubroutineVM.Proofs.Machine.StackEffect
import SubroutineVM.Proofs.Machine.StackThreshold
import SubroutineVM.Proofs.Machine.Summary
import SubroutineVM.Proofs.Machine.WordSemantics
import SubroutineVM.Proofs.Report.Contents
import SubroutineVM.Proofs.Report.Coverage
import SubroutineVM.Proofs.Report.DirectCalls
import SubroutineVM.Proofs.Report.FallThrough
import SubroutineVM.Proofs.Report.Segments
import SubroutineVM.Proofs.Text.HexReading
