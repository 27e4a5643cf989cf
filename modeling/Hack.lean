import Hack.Assembly.Listing
import Hack.Build
import Hack.CommandLine.Run
import Hack.CommandLine.World
import Hack.Machine
import Hack.Main
import Hack.Proofs.Assembly.Address
import Hack.Proofs.Sequence
import Hack.Proofs.InPlace
import Hack.Proofs.Assembly.Resolution
import Hack.Proofs.Assembly.Written
import Hack.Proofs.Assembly.Cleaning
import Hack.Proofs.Assembly.TwoPass
import Hack.Proofs.Assembly.Rendering
import Hack.Proofs.Assembly.Naming
import Hack.Proofs.Assembly.Linking
import Hack.Proofs.Assembly.Faults
import Hack.Proofs.Stack.Reading
import Hack.Proofs.Stack.Slots
import Hack.Proofs.Stack.Counting
import Hack.Proofs.Stack.Layout
import Hack.Proofs.Machine.Denotation
import Hack.Proofs.Machine.Execution
import Hack.Proofs.Machine.Mnemonics
import Hack.Proofs.Stack.Agreement
import Hack.Proofs.Stack.Building
import Hack.Proofs.Stack.Simulation
import Hack.Proofs.Stack.Frames
import Hack.Proofs.Stack.Calls
import Hack.Proofs.Stack.Comparing
import Hack.Proofs.Stack.Outline
import Hack.Proofs.Stack.Buildable
import Hack.Proofs.Stack.Uniqueness
import Hack.Proofs.Stack.Statics
import Hack.Proofs.Stack.Failing
import Hack.Proofs.Stack.Words
import Hack.Proofs.Stack.Scopes
import Hack.Proofs.Assembly.Misreading
import Hack.Proofs.Assembly.Rejection
import Hack.Proofs.Assembly.Renaming
import Hack.Proofs.Assembly.Requests
import Hack.Proofs.Assembly.Lines
import Hack.Proofs.Assembly.Preprocessing
import Hack.Proofs.CommandLine.Files
import Hack.Proofs.CommandLine.Sources
import Hack.Proofs.CommandLine.Route
import Hack.Proofs.CommandLine.Outcome
import Hack.Proofs.CommandLine.Extensions
import Hack.Proofs.CommandLine.Defaults
import Hack.Proofs.Assembly.Binary
import Hack.Proofs.Machine.Runs
import Hack.Proofs.Machine.Bounds
import Hack.Proofs.Stack.Tally
