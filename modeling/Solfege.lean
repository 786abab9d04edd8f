import Solfege.Main
import Solfege.Proofs.Blanks.Score
import Solfege.Proofs.Ceiling
import Solfege.Proofs.Chords
import Solfege.Proofs.Conservation.Kinds
import Solfege.Proofs.FixedPoint.Score
import Solfege.Proofs.Frame
import Solfege.Proofs.Inlining.Calls
import Solfege.Proofs.Inlining.Flattening
import Solfege.Proofs.Inlining.Passing
import Solfege.Proofs.Inlining.Reports
import Solfege.Proofs.Playable
import Solfege.Proofs.Names.Definitions
import Solfege.Proofs.Names.Duplicates
import Solfege.Proofs.Names.Expansion
import Solfege.Proofs.Numbers.Score
import Solfege.Proofs.Outcome
import Solfege.Proofs.Pitch
import Solfege.Proofs.Provenance.Score
import Solfege.Proofs.Reading.Balance
import Solfege.Proofs.Reading.Descent
import Solfege.Proofs.Recovery.Call
import Solfege.Proofs.Repetition.Blocks
import Solfege.Proofs.Repetition.Chains
import Solfege.Proofs.Repetition.Leaves
import Solfege.Proofs.Shape.Score
import Solfege.Proofs.Spelling.Score
import Solfege.Proofs.Splicing
import Solfege.Proofs.Stages
import Solfege.Proofs.Containment.Expression
import Solfege.Proofs.Containment.Statement
import Solfege.Proofs.Containment.Score
import Solfege.Proofs.Tokens.Comments
import Solfege.Proofs.Tokens.Strings
