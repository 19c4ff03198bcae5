import SyntaxWalk.Entity.Preorder
import SyntaxWalk.Session
import SyntaxWalk.Walk.Whole
import SyntaxWalk.Proofs.Agenda
import SyntaxWalk.Proofs.Depth
import SyntaxWalk.Proofs.Log
import SyntaxWalk.Proofs.Order
import SyntaxWalk.Proofs.Parents
import SyntaxWalk.Proofs.Census
import SyntaxWalk.Proofs.Serials
import SyntaxWalk.Proofs.Brackets
import SyntaxWalk.Proofs.Contexts
import SyntaxWalk.Proofs.Protocol
import SyntaxWalk.Proofs.Faults
import SyntaxWalk.Proofs.Abridged
import SyntaxWalk.Proofs.Provenance
import SyntaxWalk.Proofs.Leniency
import SyntaxWalk.Proofs.Correspondence
import SyntaxWalk.Proofs.Handlers
import SyntaxWalk.Proofs.Parallel
import SyntaxWalk.Proofs.Untraversed
import SyntaxWalk.Proofs.Termination
import SyntaxWalk.Proofs.Thorough
import SyntaxWalk.Proofs.Kept
import SyntaxWalk.Proofs.Listing
import SyntaxWalk.Proofs.Course
import SyntaxWalk.Proofs.Indifference
import SyntaxWalk.Proofs.Unchecked
import SyntaxWalk.Proofs.Bodies
import SyntaxWalk.Proofs.Mixed
import SyntaxWalk.Proofs.Flattening
import SyntaxWalk.Proofs.Operation
import SyntaxWalk.Proofs.Recorded
import SyntaxWalk.Proofs.Isolation
import SyntaxWalk.Proofs.Payloads
import SyntaxWalk.Proofs.Malformed
import SyntaxWalk.Proofs.Stages
import SyntaxWalk.Proofs.Assignments
import SyntaxWalk.Proofs.Literals
import SyntaxWalk.Proofs.Rebound
import SyntaxWalk.Proofs.Matching
import SyntaxWalk.Proofs.BlockTrees
import SyntaxWalk.Proofs.Blocks
import SyntaxWalk.Proofs.Ancestors
import SyntaxWalk.Proofs.Declarations
import SyntaxWalk.Proofs.Words
import SyntaxWalk.Proofs.Quoting
import SyntaxWalk.Proofs.Print
import SyntaxWalk.Proofs.JsonReading
import SyntaxWalk.Proofs.Decoding
import SyntaxWalk.Proofs.Positions
import SyntaxWalk.Proofs.Registrations
import SyntaxWalk.Proofs.ContextHistories
