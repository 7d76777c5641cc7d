/-!
# Blank characters

The blank characters are those with the Unicode property `White_Space`. Trimming
and word splitting work on lists of characters and never look inside a word.
-/

namespace Renumber.Text

/-- The characters with the Unicode property `White_Space`. -/
def isBlank (c : Char) : Bool :=
  let n := c.toNat
  (9 ≤ n && n ≤ 13) || n == 32 || n == 0x85 || n == 0xA0 || n == 0x1680 ||
    (0x2000 ≤ n && n ≤ 0x200A) || n == 0x2028 || n == 0x2029 || n == 0x202F ||
    n == 0x205F || n == 0x3000

/-- Drop the blanks at the front. -/
def trimStart (s : List Char) : List Char :=
  s.dropWhile isBlank

/-- Drop the blanks at the end. -/
def trimEnd (s : List Char) : List Char :=
  (s.reverse.dropWhile isBlank).reverse

/-- Drop the blanks at both ends. -/
def trim (s : List Char) : List Char :=
  trimEnd (trimStart s)

/-- The word being read, in reverse, is closed by a blank or by the end. -/
private def wordsFrom (word : List Char) : List Char → List (List Char)
  | [] => if word.isEmpty then [] else [word.reverse]
  | c :: rest =>
    if isBlank c then
      if word.isEmpty then wordsFrom [] rest else word.reverse :: wordsFrom [] rest
    else wordsFrom (c :: word) rest

/-- The maximal runs of characters that are not blank, in order. -/
def words (s : List Char) : List (List Char) :=
  wordsFrom [] s

private theorem wordsFrom_append {w : List Char} (word : ∀ c ∈ w, isBlank c = false)
    (front rest : List Char) : wordsFrom front (w ++ rest) = wordsFrom (w.reverse ++ front) rest := by
  induction w generalizing front with
  | nil => rfl
  | cons c w ih =>
      rw [List.forall_mem_cons] at word
      rw [List.cons_append, wordsFrom, if_neg (by simp [word.1]), ih word.2]
      simp

/-- A word that a blank follows is the first one. -/
theorem words_append {w : List Char} (some_char : w ≠ []) (word : ∀ c ∈ w, isBlank c = false)
    {blank : Char} (ends : isBlank blank = true) (rest : List Char) :
    words (w ++ blank :: rest) = w :: words rest := by
  rw [words, wordsFrom_append word, wordsFrom, if_pos ends, if_neg (by simp [some_char])]
  simp [words]

/-- A word alone. -/
theorem words_word {w : List Char} (some_char : w ≠ []) (word : ∀ c ∈ w, isBlank c = false) :
    words w = [w] := by
  have alone := wordsFrom_append word [] []
  rw [List.append_nil, List.append_nil] at alone
  rw [words, alone, wordsFrom, if_neg (by simp [some_char]), List.reverse_reverse]

/-- A text that neither begins nor ends with a blank stays as it is. -/
theorem trim_of_ends {s : List Char} (first : ∀ c, s.head? = some c → isBlank c = false)
    (last : ∀ c, s.getLast? = some c → isBlank c = false) : trim s = s := by
  have drop : ∀ t : List Char, (∀ c, t.head? = some c → isBlank c = false) →
      t.dropWhile isBlank = t := by
    intro t start
    cases t with
    | nil => rfl
    | cons c rest => rw [List.dropWhile_cons, if_neg (by simp [start c rfl])]
  rw [trim, trimStart, drop s first, trimEnd, drop s.reverse, List.reverse_reverse]
  rw [List.head?_reverse]
  exact last

end Renumber.Text
