import Pathwise.Coverage
import Pathwise.Main
import Pathwise.Sample.Reference
import Pathwise.Session
import Pathwise.Workload
import Pathwise.Json.Writer
import Pathwise.Proofs.Decision
import Pathwise.Proofs.Rounds
import Pathwise.Proofs.PathOrder
import Pathwise.Proofs.Answers
import Pathwise.Proofs.Walk
import Pathwise.Proofs.Definite
import Pathwise.Proofs.Partition
import Pathwise.Proofs.Lockstep
import Pathwise.Proofs.Fragment
import Pathwise.Proofs.Agreement
import Pathwise.Proofs.Completeness
import Pathwise.Proofs.Reachable
import Pathwise.Proofs.Traversal
import Pathwise.Proofs.Simulation
import Pathwise.Proofs.Independence
import Pathwise.Proofs.Likeness
import Pathwise.Proofs.Transport
import Pathwise.Proofs.Mentions
import Pathwise.Proofs.Neighbours
import Pathwise.Proofs.Entries
import Pathwise.Proofs.Calls
import Pathwise.Proofs.Charts
import Pathwise.Proofs.TestFiles
import Pathwise.Proofs.Imports
import Pathwise.Proofs.Remainders
import Pathwise.Proofs.Expressions
import Pathwise.Proofs.Reflected
import Pathwise.Proofs.Writing
import Pathwise.Proofs.Sorts
import Pathwise.Proofs.Decided
import Pathwise.Proofs.Descriptions
import Pathwise.Proofs.Parameters
import Pathwise.Proofs.LineSets
import Pathwise.Proofs.Replay
