/-!
# Splitting at a separator

A text is cut at every separator; between two neighbouring ones lies an empty piece.
Putting the separators back gives the text again.
-/

namespace Renumber.Text

variable {α : Type} [DecidableEq α]

/-- The pieces between separators, empty ones included; there is always one. -/
def splitOn (sep : α) : List α → List (List α)
  | [] => [[]]
  | a :: rest =>
    if a = sep then [] :: splitOn sep rest
    else match splitOn sep rest with
      | [] => [[a]]
      | piece :: more => (a :: piece) :: more

/-- Pieces with separators between them. -/
def joinWith (sep : α) : List (List α) → List α
  | [] => []
  | [piece] => piece
  | piece :: rest => piece ++ sep :: joinWith sep rest

theorem splitOn_ne_nil (sep : α) (s : List α) : splitOn sep s ≠ [] := by
  cases s with
  | nil => simp [splitOn]
  | cons a rest =>
    simp only [splitOn]
    split
    · simp
    · split <;> simp

/-- Joining undoes splitting. -/
@[simp] theorem joinWith_splitOn (sep : α) (s : List α) : joinWith sep (splitOn sep s) = s := by
  induction s with
  | nil => simp [splitOn, joinWith]
  | cons a rest ih =>
    have hne := splitOn_ne_nil sep rest
    cases hs : splitOn sep rest with
    | nil => exact absurd hs hne
    | cons piece more =>
      rw [hs] at ih
      simp only [splitOn, hs]
      split
      · next h => simp [joinWith, ih, h]
      · cases more with
        | nil => simpa [joinWith] using ih
        | cons next more => simpa [joinWith] using ih

/-- The lines of a text; a last line need not be ended. -/
def linesOf (newline : α) (s : List α) : List (List α) :=
  let pieces := splitOn newline s
  if pieces.getLast? = some [] then pieces.dropLast else pieces

end Renumber.Text
