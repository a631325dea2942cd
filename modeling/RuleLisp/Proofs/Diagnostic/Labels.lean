import RuleLisp.Diagnostic.Printer
import RuleLisp.Proofs.Text.Position

/-! # Labels and their lines

A label is shown by the line in which it starts and by carets below that line. The carets start
under the first marked character and stay inside the line. They count bytes, so behind a text with
longer characters there may be carets that mark nothing.
-/

namespace RuleLisp.Diagnostic

/-- The line of a position, and below it a number of carets that start at the column. -/
def underlined (color : Bool) (width : Nat) (position : Position) (line : List Char) (carets : Nat)
    (message : String) : String :=
  let bar := " " ++ paint color .boldBlue "|" ++ " "
  let remark := if message.isEmpty then "" else " " ++ message
  padded width (Nat.repr position.line) ++ bar ++ String.ofList line ++ "\n" ++ row width ' ' ++
    bar ++ paint color .red (row (position.column - 1) ' ' ++ row carets '^' ++ remark) ++ "\n"

theorem labelLines_eq_underlined (color : Bool) {source line : List Char} (width : Nat)
    {label : Label}
    (found : lineText ((Position.ofOffset source label.span.start).line - 1) source = some line) :
    labelLines color source width label =
      underlined color width (Position.ofOffset source label.span.start) line
        (caretCount label.span
          (line.length - ((Position.ofOffset source label.span.start).column - 1)))
        label.message := by
  rw [labelLines, found]
  rfl

/-- There is a caret, and the carets stay inside the line. -/
theorem caretCount_bounds (span : Span) (remaining : Nat) :
    1 ≤ caretCount span remaining ∧ caretCount span remaining ≤ max 1 remaining := by
  rw [caretCount]
  omega

/-- Every offset has a line and a column in it, and every label that starts there is shown by that
line, with carets that start at the column and stay inside the line. -/
theorem labels_stay_in_their_line (source : String) (offset : Nat) :
    ∃ position lines line, Position.ofOffset source.toList offset = position ∧
      source.toList.splitOn '\n' = lines ∧ lines[position.line - 1]? = some line ∧
      1 ≤ position.line ∧ 1 ≤ position.column ∧ position.column - 1 ≤ line.length ∧
      (∀ front back, source = front ++ back → front.utf8ByteSize = offset →
        front.toList = (lines.take (position.line - 1)).flatMap (· ++ ['\n']) ++
          line.take (position.column - 1)) ∧
      ∀ (color : Bool) (width stop : Nat) (message : String),
        ∃ carets, 1 ≤ carets ∧ carets ≤ max 1 (line.length - (position.column - 1)) ∧
          labelLines color source.toList width ⟨⟨offset, stop⟩, message⟩ =
            underlined color width position line carets message := by
  obtain ⟨passed, rest, line, _, whole, found, before, _, inside⟩ :=
    Position.exists_line_ofOffset source.toList offset
  have positive := Position.ofOffset_pos source.toList offset
  refine ⟨_, _, line, rfl, rfl, found, positive.1, positive.2, inside, ?_, ?_⟩
  · intro front back cut size
    rw [← whole front.toList back.toList (by rw [cut, String.toList_append])
      (by rw [String.ofList_toList, size])]
    exact before
  · intro color width stop message
    have bounds := caretCount_bounds ⟨offset, stop⟩
      (line.length - ((Position.ofOffset source.toList offset).column - 1))
    refine ⟨_, bounds.1, bounds.2, labelLines_eq_underlined color width ?_⟩
    rw [lineText_eq]
    exact found

/-! ## Carets and characters -/

theorem length_le_utf8ByteSize (text : List Char) :
    text.length ≤ (String.ofList text).utf8ByteSize := by
  induction text with
  | nil => exact Nat.zero_le _
  | cons char rest induction =>
      have positive := char.utf8Size_pos
      rw [String.ofList_cons, String.utf8ByteSize_append, String.utf8ByteSize_singleton,
        List.length_cons]
      omega

/-- A text has as many bytes as characters if and only if each of its characters is one byte. -/
theorem utf8ByteSize_eq_length_iff (text : List Char) :
    (String.ofList text).utf8ByteSize = text.length ↔ ∀ char ∈ text, char.utf8Size = 1 := by
  induction text with
  | nil => simp
  | cons char rest induction =>
      have positive := char.utf8Size_pos
      have enough := length_le_utf8ByteSize rest
      rw [List.forall_mem_cons, ← induction, String.ofList_cons, String.utf8ByteSize_append,
        String.utf8ByteSize_singleton, List.length_cons]
      omega

/-- The carets are right if there is one for each byte of the text or the line ends. -/
theorem caretCount_eq_iff (start : Nat) {bytes chars : Nat} (rest : Nat) (enough : chars ≤ bytes)
    (empty : chars = 0 → bytes = 0) :
    caretCount ⟨start, start + bytes⟩ (chars + rest) = max 1 chars ↔ bytes = chars ∨ rest = 0 := by
  simp only [caretCount, Span.length, Nat.add_sub_cancel_left]
  omega

theorem max_one_le_caretCount (start : Nat) {bytes chars : Nat} (rest : Nat)
    (enough : chars ≤ bytes) :
    max 1 chars ≤ caretCount ⟨start, start + bytes⟩ (chars + rest) := by
  simp only [caretCount, Span.length, Nat.add_sub_cancel_left]
  omega

/-- Every character of a text in one line is underlined. No other character is, if and only if each
character of the text is one byte or the line ends after it. -/
theorem carets_underline_marked_text (front marked back : String) (unbroken : '\n' ∉ marked.toList)
    (width : Nat) (message : String) :
    let source := (front ++ marked ++ back).toList
    let position := Position.ofOffset source front.utf8ByteSize
    ∃ line carets, (source.splitOn '\n')[position.line - 1]? = some line ∧
      (line.drop (position.column - 1)).take marked.length = marked.toList ∧
      labelLines false source width
          ⟨⟨front.utf8ByteSize, (front ++ marked).utf8ByteSize⟩, message⟩ =
        underlined false width position line carets message ∧
      max 1 marked.length ≤ carets ∧
      (carets = max 1 marked.length ↔
        (∀ char ∈ marked.toList, char.utf8Size = 1) ∨ ∀ char ∈ back.toList.head?, char = '\n') := by
  intro source position
  obtain ⟨passed, rest, line, cut, whole, found, before, after, inside⟩ :=
    Position.exists_line_ofOffset source front.utf8ByteSize
  have source_eq : source = front.toList ++ (marked.toList ++ back.toList) := by
    simp [source]
  have passed_eq := whole front.toList _ source_eq (by rw [String.ofList_toList])
  have rest_eq : rest = marked.toList ++ back.toList := by
    rw [source_eq, passed_eq] at cut
    exact (List.append_cancel_left cut).symm
  rw [rest_eq, takeWhile_line unbroken] at after
  have enough := length_le_utf8ByteSize marked.toList
  have empty : marked.length = 0 → marked.utf8ByteSize = 0 := by
    intro nothing
    rw [String.utf8ByteSize_eq_zero_iff, ← String.length_eq_zero_iff, nothing]
  have remaining : line.length - (position.column - 1) =
      marked.length + (back.toList.takeWhile (· ≠ '\n')).length := by
    rw [← List.length_drop, after, List.length_append, String.length_toList]
  rw [String.ofList_toList, String.length_toList] at enough
  refine ⟨line, _, found, ?_, labelLines_eq_underlined false width ?_, ?_, ?_⟩
  · rw [after, ← String.length_toList, List.take_left]
  · rw [lineText_eq]
    exact found
  · rw [remaining, String.utf8ByteSize_append]
    exact max_one_le_caretCount _ _ enough
  · have oneByte := utf8ByteSize_eq_length_iff marked.toList
    rw [String.ofList_toList, String.length_toList] at oneByte
    rw [remaining, String.utf8ByteSize_append, caretCount_eq_iff _ _ enough empty, oneByte,
      List.length_eq_zero_iff, takeWhile_line_eq_nil_iff]

/-- A character of two bytes is underlined by one caret at the end of its line. -/
theorem carets_underline_marked_text_last :
    '\n' ∉ "ü".toList ∧
      labelLines false "(é ü\n)".toList 1 ⟨⟨4, 6⟩, "here"⟩ =
        underlined false 1 ⟨1, 4⟩ "(é ü".toList 1 "here" := by
  have unbroken : '\n' ∉ "ü".toList := by decide
  obtain ⟨line, carets, found, _, shown, _, exactly⟩ :=
    carets_underline_marked_text "(é " "ü" "\n)" unbroken 1 "here"
  have lineEnds : ∀ char ∈ "\n)".toList.head?, char = '\n' := by
    intro char following
    cases following
    rfl
  have one : carets = 1 := exactly.mpr (.inr lineEnds)
  have whole : line = "(é ü".toList := Option.some.inj (found.symm.trans (by decide))
  rw [one, whole] at shown
  exact ⟨unbroken, shown⟩

/-- The two bytes of a character in the middle of a line get two carets. -/
theorem not_caret_for_each_character :
    ¬∀ (front marked back : String) (width : Nat) (message : String), '\n' ∉ marked.toList →
      let source := (front ++ marked ++ back).toList
      let position := Position.ofOffset source front.utf8ByteSize
      ∀ line, (source.splitOn '\n')[position.line - 1]? = some line →
        labelLines false source width
            ⟨⟨front.utf8ByteSize, (front ++ marked).utf8ByteSize⟩, message⟩ =
          underlined false width position line (max 1 marked.length) message := by
  intro claimed
  have oneCaret := claimed "(defun " "é" " x)" 1 "" (by decide) "(defun é x)".toList (by decide)
  revert oneCaret
  decide

end RuleLisp.Diagnostic
