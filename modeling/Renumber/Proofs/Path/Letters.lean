import Renumber.Proofs.Path.Key

/-!
# The letters of a path

Two spellings of one path differ in separators and dots only. What is left without these is the same
in both of them, so that names which differ in other characters are never one path, and what is broken
in one spelling is broken in the other.
-/

namespace Renumber.Path

open Renumber.Text (encode decodeLossy)

variable {p q base : Path} {c : Char} {s t : List Char}

/-- The bytes that are neither separators nor dots. -/
def letters (bytes : List UInt8) : List UInt8 :=
  bytes.filter fun b => b != slash && b != dot

/-- Separators and dots. -/
def isMark (c : Char) : Bool :=
  c == '/' || c == '.'

theorem letters_append (a b : List UInt8) : letters (a ++ b) = letters a ++ letters b :=
  List.filter_append a b

theorem letters_eq (p : Path) : letters p.bytes = p.reals.flatMap letters :=
  eq_flatMap_reals letters (fun a b => letters_append a (slash :: b)) rfl rfl p

/-- Two spellings of one path have the same letters. -/
theorem letters_congr (same : p.components = q.components) : letters p.bytes = letters q.bytes := by
  rw [letters_eq, letters_eq, (components_eq_iff.1 same).2]

/-- The letters of a text are the bytes of its other characters. -/
theorem letters_encode (s : List Char) : letters (encode s) = encode (s.filter (!isMark ·)) := by
  have one : ∀ c, letters (String.utf8EncodeChar c) = encode ([c].filter (!isMark ·)) := by
    intro c
    by_cases mark : c = '/' ∨ c = '.'
    · obtain rfl | rfl := mark <;> rfl
    · obtain ⟨no_slash, no_dot⟩ := not_or.1 mark
      have plain : isMark c = false := by
        rw [isMark, beq_false_of_ne no_slash, beq_false_of_ne no_dot, Bool.false_or]
      have kept : ∀ b ∈ String.utf8EncodeChar c, (b != slash && b != dot) = true := by
        intro b member
        rw [Bool.and_eq_true, bne_iff_ne, bne_iff_ne]
        constructor
        · rintro rfl
          exact no_slash (Text.eq_of_mem_encodeChar (by decide) member).symm
        · rintro rfl
          exact no_dot (Text.eq_of_mem_encodeChar (by decide) member).symm
      rw [letters, List.filter_eq_self.2 kept, List.filter_cons_of_pos (by rw [plain]; rfl)]
      exact (List.append_nil _).symm
  induction s with
  | nil => rfl
  | cons c s ih =>
      calc letters (encode (c :: s))
          = letters (String.utf8EncodeChar c) ++ letters (encode s) := letters_append _ _
        _ = encode ([c].filter (!isMark ·)) ++ encode (s.filter (!isMark ·)) := by rw [one, ih]
        _ = encode ([c].filter (!isMark ·) ++ s.filter (!isMark ·)) := (Text.encode_append _ _).symm
        _ = encode ((c :: s).filter (!isMark ·)) := by rw [← List.filter_append]; rfl

/-! ## Broken runs -/

/-- What is read of bytes that is no character. -/
def broken (bytes : List UInt8) : List (Option Char) :=
  (Text.pieces bytes).filter Option.isNone

theorem broken_append_slash (a b : List UInt8) : broken (a ++ slash :: b) = broken a ++ broken b := by
  rw [broken, Text.pieces_append_plain (by decide), List.filter_append]
  rfl

theorem broken_eq (p : Path) : broken p.bytes = p.reals.flatMap broken :=
  eq_flatMap_reals broken broken_append_slash (by decide) (by decide) p

/-- A path is text when nothing in it is broken. -/
theorem isText_iff_broken : p.IsText ↔ broken p.bytes = [] := by
  constructor
  · rintro ⟨s, rfl⟩
    rw [broken, ofString, Text.bytesOf, Text.pieces_encode, List.filter_map]
    exact List.map_eq_nil_iff.2 (List.filter_eq_nil_iff.2 fun _ _ => Bool.false_ne_true)
  · intro whole
    have chars : Text.pieces p.bytes = ((Text.pieces p.bytes).map (·.getD '\uFFFD')).map some := by
      rw [List.map_map]
      refine ((List.map_congr_left fun o member => ?_).trans (List.map_id _)).symm
      cases o with
      | none => exact absurd rfl (List.filter_eq_nil_iff.1 whole none member)
      | some c => rfl
    have bytes := Text.encode_of_pieces chars
    refine ⟨String.ofList ((Text.pieces p.bytes).map (·.getD '\uFFFD')), ?_⟩
    rw [ofString, Text.bytesOf, String.toList_ofList, bytes]

/-- A path is text when its real segments are. -/
theorem isText_iff_reals : p.IsText ↔ ∀ s ∈ p.reals, (Path.mk s).IsText := by
  simp only [isText_iff_broken]
  rw [broken_eq, List.flatMap_eq_nil_iff]

/-! ## Joined texts -/

/-- Bytes after which a name begins: none, or some that end in a separator. -/
def EndsFolder (front : List UInt8) : Prop :=
  front = [] ∨ ∃ bytes, front = bytes ++ [slash]

/-- What is joined has the joined text at its end, and what comes before it depends on the text only as
far as that is absolute. -/
theorem exists_join (base : Path) (absolute : Bool) : ∃ front, EndsFolder front ∧
    ∀ p : Path, p.isAbsolute = absolute → (base.join p).bytes = front ++ p.bytes := by
  cases absolute with
  | true =>
      refine ⟨[], .inl rfl, fun p root => ?_⟩
      rw [join, if_pos root]
      rfl
  | false =>
      by_cases ends : base.bytes = [] ∨ base.bytes.getLast? = some slash
      · refine ⟨base.bytes, ends.imp_right fun last => ?_, fun p relative => ?_⟩
        · exact List.getLast?_eq_some_iff.1 last
        · rw [join, relative, if_neg Bool.false_ne_true, if_pos ends]
      · refine ⟨base.bytes ++ [slash], .inr ⟨base.bytes, rfl⟩, fun p relative => ?_⟩
        rw [join, relative, if_neg Bool.false_ne_true, if_neg ends, List.append_assoc]
        rfl

/-- A text is absolute if its first character is a separator. -/
theorem isAbsolute_encode (s : List Char) : (Path.mk (encode s)).isAbsolute = (s.head? == some '/') := by
  cases s with
  | nil => rfl
  | cons c s =>
      by_cases root : c = '/'
      · rw [root]
        rfl
      · have first : (String.utf8EncodeChar c).head? ≠ some slash := by
          intro found
          exact root (Text.eq_of_mem_encodeChar (by decide) (List.mem_of_head? found)).symm
        rw [isAbsolute, Text.encode_cons, List.head?_append_of_ne_nil _ (Text.encodeChar_ne_nil c), beq_false_of_ne first,
          List.head?_cons, beq_false_of_ne (fun same => root (Option.some.inj same))]

/-- A text behind a folder is read as it was written. -/
theorem decodeLossy_folder {front : List UInt8} (ends : EndsFolder front) (s : List Char) :
    decodeLossy (front ++ encode s) = decodeLossy front ++ s := by
  obtain rfl | ⟨bytes, rfl⟩ := ends
  · exact Text.decodeLossy_encode s
  · rw [List.append_assoc, List.singleton_append, Text.decodeLossy_append_slash, Text.decodeLossy_append_slash,
      Text.decodeLossy_encode, List.append_assoc]
    rfl

/-- In lower case as well, what is left of a text behind a folder are the bytes of its other characters. -/
theorem letters_lowerBytes {front : List UInt8} (ends : EndsFolder front) (s : List Char) :
    letters (lowerBytes (front ++ encode s)) =
      encode ((Text.lower (decodeLossy front ++ s)).filter (!isMark ·)) := by
  rw [lowerBytes, letters_encode, decodeLossy_folder ends]

/-- What is joined of texts is text. -/
theorem isText_join (text : base.IsText) (text' : p.IsText) : (base.join p).IsText := by
  rw [isText_iff_broken] at text text' ⊢
  rw [join]
  split
  · exact text'
  · split
    · next ends =>
      obtain empty | slashed := ends
      · rw [empty]
        exact text'
      · obtain ⟨bytes, all⟩ := List.getLast?_eq_some_iff.1 slashed
        rw [all, broken_append_slash, List.append_eq_nil_iff] at text
        rw [all, List.append_assoc, List.singleton_append, broken_append_slash, text.1, text', List.append_nil]
    · rw [broken_append_slash, text, text', List.append_nil]

end Renumber.Path
