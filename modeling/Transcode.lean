import Transcode.Main
import Transcode.Proofs.NormalForm
import Transcode.Proofs.Stages
import Transcode.Proofs.Revalidation
import Transcode.Proofs.Rewrites
import Transcode.Proofs.Relations
import Transcode.Proofs.Reattachment
import Transcode.Proofs.Failures
import Transcode.Proofs.Precedence
import Transcode.Proofs.Visits
import Transcode.Proofs.Isomorphism
import Transcode.Proofs.LoopPlaces
import Transcode.Proofs.Loading
import Transcode.Proofs.Reassembly
import Transcode.Proofs.Tally
import Transcode.Proofs.Identity
import Transcode.Proofs.Unbounded
import Transcode.Proofs.Members
import Transcode.Proofs.Hygiene
import Transcode.Proofs.Effect
import Transcode.Proofs.Conservation
import Transcode.Proofs.Positions
import Transcode.Proofs.Ranges
import Transcode.Proofs.Following
import Transcode.Proofs.Replay
import Transcode.Proofs.Concatenation
import Transcode.Proofs.Tiling
import Transcode.Proofs.Rejoining
import Transcode.Proofs.Reporting
import Transcode.Proofs.Brackets
import Transcode.Proofs.Balance
import Transcode.Proofs.Construction
import Transcode.Proofs.Readback
import Transcode.Proofs.TypeImages
import Transcode.Proofs.Backtracking
import Transcode.Proofs.FirstWays
import Transcode.Proofs.Matching
import Transcode.Proofs.Substituting
import Transcode.Proofs.LiteralLayout
import Transcode.Proofs.EqualityRules
import Transcode.Proofs.EqualitySigns
import Transcode.Proofs.Comparisons
import Transcode.Proofs.Preferring
import Transcode.Proofs.TypeTexts
import Transcode.Proofs.LocalDeclarations
import Transcode.Proofs.TypePieces
import Transcode.Proofs.Onsets
import Transcode.Proofs.Framing
import Transcode.Proofs.FramedRules
import Transcode.Proofs.LetStatements
import Transcode.Proofs.Culprits
import Transcode.Proofs.Headers
import Transcode.Proofs.Creations
import Transcode.Proofs.ParameterLists
import Transcode.Proofs.WholeNames
import Transcode.Proofs.Interpolation
import Transcode.Proofs.TreeData
import Transcode.Proofs.Catalogs
