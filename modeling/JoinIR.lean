import JoinIR.Arrangement
import JoinIR.Config.File
import JoinIR.Prepare
import JoinIR.Proofs.Declarations.Scan
import JoinIR.Supply
import JoinIR.Term.Recording
import JoinIR.Ty.Order
import JoinIR.Proofs.Declarations.Occurring
import JoinIR.Proofs.Recording
import JoinIR.Proofs.Trail
import JoinIR.Proofs.Scope
import JoinIR.Proofs.Listing.Reading
import JoinIR.Proofs.Decimal
import JoinIR.Proofs.Binary64
import JoinIR.Proofs.Heads
import JoinIR.Proofs.Listing.Faithful
import JoinIR.Proofs.Declarations.Modes
import JoinIR.Proofs.Shape
import JoinIR.Proofs.Tour
import JoinIR.Proofs.Listing.Refusal
import JoinIR.Proofs.Entries
import JoinIR.Proofs.Listing.Rows
import JoinIR.Proofs.Listing.Nodes
import JoinIR.Proofs.Hooks
import JoinIR.Proofs.Projection
import JoinIR.Proofs.Declarations.Log
import JoinIR.Proofs.Prepare.Unit
import JoinIR.Proofs.Prepare.Congruence
import JoinIR.Term.Printing
import JoinIR.Proofs.Listing.Printing
import JoinIR.Proofs.Listing.Nesting
import JoinIR.Proofs.Prepare.Decision
import JoinIR.Proofs.Declarations.Sequence
import JoinIR.Proofs.Equality.PartialEquivalence
import JoinIR.Proofs.Arrangement
import JoinIR.Proofs.Supply
import JoinIR.Proofs.Config
