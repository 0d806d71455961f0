import SyntaxForest.Matching.Search
import SyntaxForest.Proofs.MatchCompleteness
import SyntaxForest.Sketch
import SyntaxForest.Proofs.Sprout
import SyntaxForest.Proofs.CaptureLayout
import SyntaxForest.Proofs.CaptureHistory
import SyntaxForest.Proofs.Lockstep
import SyntaxForest.Proofs.MatchShape
import SyntaxForest.Proofs.CopyExact
import SyntaxForest.Proofs.Refusal
import SyntaxForest.Proofs.EditFrame
import SyntaxForest.Proofs.Enclosure
import SyntaxForest.Proofs.GrammarOrder
import SyntaxForest.Proofs.DepthLimit
import SyntaxForest.Proofs.AmpleDepth
import SyntaxForest.Proofs.Rematch
import SyntaxForest.Proofs.Agenda
import SyntaxForest.Proofs.Skeleton
import SyntaxForest.Proofs.Planting
import SyntaxForest.Proofs.Selection
import SyntaxForest.Proofs.GoingBack
import SyntaxForest.Proofs.Acceptance
import SyntaxForest.Proofs.CaptureBlocks
import SyntaxForest.Proofs.Adoption
import SyntaxForest.Proofs.Traversal
import SyntaxForest.Proofs.Locality
import SyntaxForest.Proofs.Undo
import SyntaxForest.Proofs.SearchExact
import SyntaxForest.Proofs.Rendering
import SyntaxForest.Proofs.HiddenTokens
import SyntaxForest.Proofs.Legible
import SyntaxForest.Proofs.Readability
import SyntaxForest.Proofs.Craft
import SyntaxForest.Proofs.FaithfulDump
import SyntaxForest.Handle
import SyntaxForest.Proofs.Handles
import SyntaxForest.Proofs.Siblings
import SyntaxForest.Proofs.RoleMeaning
import SyntaxForest.Proofs.WorkList
import SyntaxForest.Proofs.DepthCounter
