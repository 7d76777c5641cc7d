import Renumber.Request.Failure
import Renumber.World.Basic

/-!
# Choosing files

The paths given to a request become absolute paths without links and dots, in the order
given and without repeats. A path that leads nowhere once links are followed stays as
it is, as long as something is at the path itself.
-/

namespace Renumber

/-- The absolute form of one path. -/
def resolveSource (w : World) (folder p : Path) : Except RequestFailure Path :=
  if p.toString?.isNone then .error (.notText p)
  else
    let absolute := folder.join p
    if w.present absolute then .ok ((w.resolve? absolute).getD absolute)
    else .error (.notFound p)

/-- Drop each path that is the same as an earlier one. -/
def dropRepeats (seen : List Path) : List Path → List Path
  | [] => []
  | p :: rest =>
    if seen.any p.same then dropRepeats seen rest else p :: dropRepeats (p :: seen) rest

/-- The sources that some paths stand for, relative ones being below `folder`. -/
def resolveSources (w : World) (folder : Path) (paths : List Path) :
    Except RequestFailure (List Path) := do
  if paths.isEmpty then throw .noFiles
  return dropRepeats [] (← paths.mapM (resolveSource w folder))

end Renumber
