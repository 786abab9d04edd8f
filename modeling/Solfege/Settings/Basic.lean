import Solfege.Expansion.Score
import Solfege.Reading.Statement

/-!
Contract: what a user can set about compilation.

Owns:
- the settings and their defaults.

Does not own: the file that settings are kept in.
-/

namespace Solfege

structure Settings where
  /-- The track of movements where a score opens none. -/
  defaultTrack : String
  /-- Whether an expanded score must be playable. -/
  checkInstruments : Bool
  /-- The limit of a list and the budget of a movement in expansion. -/
  maxExpansion : Nat
  /-- How much the command line logs, where it is not asked for more. -/
  logLevel : String
deriving DecidableEq, Repr

namespace Settings

/-- The settings where nothing is set. -/
def standard : Settings where
  defaultTrack := Score.defaultTrack
  checkInstruments := true
  maxExpansion := Score.defaultLimit
  logLevel := "warn"

end Settings

end Solfege
