import HackVm.Machine.Step
import HackVm.Main
import HackVm.Proofs.Execution
import HackVm.Proofs.StackMachine
import HackVm.Proofs.Operands
import HackVm.Proofs.Outcome
import HackVm.Proofs.StackBlocks
import HackVm.Proofs.ControlBlocks
import HackVm.Proofs.Emission
import HackVm.Proofs.SymbolTable
import HackVm.Proofs.Simulation
import HackVm.Proofs.Frames
import HackVm.Proofs.Grammar
import HackVm.Proofs.Scanning
import HackVm.Proofs.LineReading
import HackVm.Proofs.Numerals
import HackVm.Proofs.Printing
import HackVm.Proofs.Progress
import HackVm.Proofs.SymbolOrigins
import HackVm.Proofs.Clashes
import HackVm.Proofs.LabelScope
import HackVm.Proofs.Complaints
import HackVm.Proofs.OpenLines
import HackVm.Proofs.Misreadings
import HackVm.Proofs.Decoding
import HackVm.Proofs.Reads
import HackVm.Proofs.SourceText
import HackVm.Proofs.Layout
import HackVm.Proofs.Building
import HackVm.Proofs.Files
import HackVm.Proofs.Rendering
import HackVm.Proofs.Requests
import HackVm.Proofs.Outputs
import HackVm.Proofs.Sessions
import HackVm.Proofs.Diagnostics
import HackVm.Proofs.Comparisons
import HackVm.Proofs.FileCode
import HackVm.Proofs.ReservedNames
import HackVm.Proofs.Annotations
import HackVm.Proofs.RoundTrips
import HackVm.Proofs.Constants
import HackVm.Proofs.ListingText
import HackVm.Proofs.StaticNames
