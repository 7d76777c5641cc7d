import Renumber.Answer.Basic
import Renumber.Request.Basic

/-!
# Requests about counters

Finding the first counter from which files can be numbered without decorators, and
finding the counter in a name.
-/

namespace Renumber.Request

/-- The first free counter for some sources. -/
def nextCounter (settings : Settings) (w : World) (sources : List Path)
    (pattern : Option String) (start : Option Nat) (folder : Option Path) :
    Except RequestFailure Answer := do
  let pattern := pattern.getD settings.defaults.pattern
  let usual := settings.numberingOptions
  let options :=
    { usual with
      start := start.getD usual.start
      folder
      caseInsensitive := (sources.head?.bind Path.parent?).any w.foldsCase }
  let numbering ←
    (Numbering.make (.parse pattern.toList) options).mapError (.cannotNumber pattern)
  let next ← (numbering.nextFree w.present sources).mapError .part
  return .nextCounter pattern options.start next

/-- The counter in a name. -/
def counterIn (settings : Settings) (name : String) (pattern : Option String) : Answer :=
  let pattern := pattern.getD settings.defaults.pattern
  .counterIn name pattern ((Pattern.Spec.parse pattern.toList).counterOf? name.toList)

end Renumber.Request
