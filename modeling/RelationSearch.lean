import RelationSearch.Main
import RelationSearch.Puzzles.Sudoku
import RelationSearch.Script.Run
import RelationSearch.Proofs.DepthFirst
import RelationSearch.Proofs.Retrying
import RelationSearch.Proofs.AsBuilt
import RelationSearch.Proofs.Termination
import RelationSearch.Proofs.Bindings
import RelationSearch.Proofs.Exhaustion
import RelationSearch.Proofs.Filtering
import RelationSearch.Proofs.Ways
import RelationSearch.Proofs.Reordering
import RelationSearch.Proofs.Chains
import RelationSearch.Proofs.Sessions
import RelationSearch.Proofs.Window
import RelationSearch.Proofs.Reentry
import RelationSearch.Proofs.Questions
import RelationSearch.Proofs.Histories
import RelationSearch.Proofs.Rearrangement
import RelationSearch.Proofs.Independence
import RelationSearch.Proofs.Algebra
import RelationSearch.Proofs.Rechecking
import RelationSearch.Proofs.Construction
import RelationSearch.Proofs.Listing
import RelationSearch.Proofs.Stages
import RelationSearch.Proofs.Colourings
import RelationSearch.Proofs.Grids
import RelationSearch.Proofs.Conversions
import RelationSearch.Proofs.Conservation
import RelationSearch.Proofs.Interjections
import RelationSearch.Proofs.Traversals
