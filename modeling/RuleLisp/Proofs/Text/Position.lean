import RuleLisp.Text.Position

/-! # The line at a position

A position is found by counting line breaks, and its line by splitting the source at them. Both
agree: the characters before a position are the earlier lines with their breaks and the front of
its own line.
-/

namespace RuleLisp

/-! ## Lines -/

section

variable {line : List Char} (unbroken : '\n' ∉ line) (rest : List Char)

include unbroken

theorem takeWhile_line :
    (line ++ rest).takeWhile (· ≠ '\n') = line ++ rest.takeWhile (· ≠ '\n') := by
  apply List.takeWhile_append_of_pos
  intro char member
  simpa using fun equal : char = '\n' => unbroken (equal ▸ member)

theorem dropWhile_line : (line ++ rest).dropWhile (· ≠ '\n') = rest.dropWhile (· ≠ '\n') := by
  apply List.dropWhile_append_of_pos
  intro char member
  simpa using fun equal : char = '\n' => unbroken (equal ▸ member)

/-- What comes before the first break belongs to the first line. -/
theorem splitOn_line :
    (line ++ rest).splitOn '\n' =
      (line ++ rest.takeWhile (· ≠ '\n')) :: (rest.splitOn '\n').tail := by
  by_cases broken : '\n' ∈ rest
  · obtain ⟨other, following, rfl, otherUnbroken⟩ := List.eq_append_cons_of_mem broken
    have whole : '\n' ∉ line ++ other := by simp [unbroken, otherUnbroken]
    rw [← List.append_assoc, List.splitOn_append_cons_self_of_not_mem whole,
      List.splitOn_append_cons_self_of_not_mem otherUnbroken, takeWhile_line otherUnbroken]
    simp
  · have whole : '\n' ∉ line ++ rest := by simp [unbroken, broken]
    have same := takeWhile_line broken []
    rw [List.append_nil, List.takeWhile_nil, List.append_nil] at same
    rw [List.splitOn_eq_singleton whole, List.splitOn_eq_singleton broken, same, List.tail_cons]

end

/-- Nothing is left of a line where a break comes or the source ends. -/
theorem takeWhile_line_eq_nil_iff {text : List Char} :
    text.takeWhile (· ≠ '\n') = [] ↔ ∀ char ∈ text.head?, char = '\n' := by
  cases text <;> simp [List.takeWhile_cons]

/-- The line with an index is the one that splitting the source puts there. -/
theorem lineText_eq (index : Nat) (source : List Char) :
    lineText index source = (source.splitOn '\n')[index]? := by
  induction index generalizing source with
  | zero =>
      have first := splitOn_line List.not_mem_nil source
      rw [List.nil_append, List.nil_append] at first
      rw [lineText, first, List.getElem?_cons_zero]
  | succ index induction =>
      by_cases broken : '\n' ∈ source
      · obtain ⟨line, rest, rfl, unbroken⟩ := List.eq_append_cons_of_mem broken
        have dropped : (line ++ '\n' :: rest).dropWhile (· ≠ '\n') = '\n' :: rest := by
          rw [dropWhile_line unbroken]
          rfl
        rw [lineText, dropped, List.splitOn_append_cons_self_of_not_mem unbroken,
          List.getElem?_cons_succ]
        exact induction rest
      · have dropped := dropWhile_line broken []
        rw [List.append_nil, List.dropWhile_nil] at dropped
        rw [lineText, dropped, List.splitOn_eq_singleton broken]
        rfl

/-- Full lines with their breaks are the first lines of a source. -/
theorem splitOn_lines {lines : List (List Char)} (unbroken : ∀ line ∈ lines, '\n' ∉ line)
    (rest : List Char) :
    (lines.flatMap (· ++ ['\n']) ++ rest).splitOn '\n' = lines ++ rest.splitOn '\n' := by
  induction lines with
  | nil => rfl
  | cons line lines induction =>
      obtain ⟨first, others⟩ := List.forall_mem_cons.mp unbroken
      rw [List.flatMap_cons, List.append_assoc, List.append_assoc, List.singleton_append,
        List.splitOn_append_cons_self_of_not_mem first, induction others, List.cons_append]

namespace Position

/-! ## Walking over a source -/

/-- The characters end at the position: they are full lines with their breaks, and the front of one
more line. -/
def EndsText (position : Position) (text : List Char) : Prop :=
  ∃ (lines : List (List Char)) (last : List Char), text = lines.flatMap (· ++ ['\n']) ++ last ∧
    (∀ line ∈ lines, '\n' ∉ line) ∧ '\n' ∉ last ∧
    position = ⟨lines.length + 1, last.length + 1⟩

variable {position : Position} {text : List Char}

theorem endsText_first : first.EndsText [] :=
  ⟨[], [], rfl, List.forall_mem_nil _, List.not_mem_nil, rfl⟩

theorem EndsText.after (ends : position.EndsText text) (char : Char) :
    (position.after char).EndsText (text ++ [char]) := by
  obtain ⟨lines, last, rfl, unbroken, unbrokenLast, rfl⟩ := ends
  by_cases breaks : char = '\n'
  · refine ⟨lines ++ [last], [], ?_, ?_, List.not_mem_nil, ?_⟩
    · rw [breaks, List.flatMap_append, List.flatMap_singleton, List.append_nil, List.append_assoc]
    · exact List.forall_mem_append.mpr ⟨unbroken, List.forall_mem_singleton.mpr unbrokenLast⟩
    · rw [Position.after, if_pos breaks, List.length_append]
      rfl
  · refine ⟨lines, last ++ [char], (List.append_assoc ..), unbroken, ?_, ?_⟩
    · simpa [unbrokenLast] using Ne.symm breaks
    · rw [Position.after, if_neg breaks, List.length_append]
      rfl

/-- A walk of a number of bytes passes a part of the source, which is the part with so many bytes if
there is one. -/
theorem EndsText.walk (ends : position.EndsText text) (source : List Char) (bytes : Nat) :
    ∃ passed rest, source = passed ++ rest ∧
      (position.walk source bytes).EndsText (text ++ passed) ∧
      ∀ front back, source = front ++ back → (String.ofList front).utf8ByteSize = bytes →
        passed = front := by
  induction source generalizing position text bytes with
  | nil =>
      refine ⟨[], [], rfl, by rwa [List.append_nil], fun front back cut _ => ?_⟩
      exact (List.append_eq_nil_iff.mp cut.symm).1.symm
  | cons char source induction =>
      rw [Position.walk]
      split
      · next arrived =>
        refine ⟨[], char :: source, rfl, by rwa [List.append_nil], fun front back cut size => ?_⟩
        have nothing := String.utf8ByteSize_eq_zero_iff.mp (size.trans arrived)
        exact (String.ofList_eq_empty_iff.mp nothing).symm
      · next further =>
        obtain ⟨passed, rest, rfl, endsLater, whole⟩ :=
          induction (ends.after char) (bytes - char.utf8Size)
        refine ⟨char :: passed, rest, rfl, ?_, ?_⟩
        · rwa [List.append_assoc] at endsLater
        · rintro (_ | ⟨first, front⟩) back cut size
          · exact absurd size.symm further
          · obtain ⟨rfl, remaining⟩ := List.cons.inj cut
            rw [String.ofList_cons, String.utf8ByteSize_append,
              String.utf8ByteSize_singleton] at size
            rw [whole front back remaining (by omega)]

/-- Behind the end of a text, its last line goes on up to the next break. -/
theorem EndsText.exists_line (ends : position.EndsText text) (rest : List Char) :
    ∃ line, ((text ++ rest).splitOn '\n')[position.line - 1]? = some line ∧
      text = (((text ++ rest).splitOn '\n').take (position.line - 1)).flatMap (· ++ ['\n']) ++
        line.take (position.column - 1) ∧
      line.drop (position.column - 1) = rest.takeWhile (· ≠ '\n') ∧
      position.column - 1 ≤ line.length := by
  obtain ⟨lines, last, rfl, unbroken, unbrokenLast, rfl⟩ := ends
  have split := splitOn_lines unbroken (last ++ rest)
  rw [splitOn_line unbrokenLast, ← List.append_assoc] at split
  simp only [Nat.add_sub_cancel, split]
  refine ⟨last ++ rest.takeWhile (· ≠ '\n'), ?_, ?_, ?_, ?_⟩
  · rw [List.getElem?_append_right (Nat.le_refl _), Nat.sub_self, List.getElem?_cons_zero]
  · rw [List.take_left, List.take_left]
  · exact List.drop_left
  · simp

/-- Lines and columns count from one. -/
theorem ofOffset_pos (source : List Char) (offset : Nat) :
    1 ≤ (ofOffset source offset).line ∧ 1 ≤ (ofOffset source offset).column := by
  obtain ⟨passed, rest, cut, ⟨lines, last, _, _, _, same⟩, _⟩ :=
    endsText_first.walk source offset
  rw [ofOffset, same]
  exact ⟨Nat.le_add_left .., Nat.le_add_left ..⟩

/-- The line at an offset, with the text that has been passed on the way there. -/
theorem exists_line_ofOffset (source : List Char) (offset : Nat) :
    ∃ passed rest line, source = passed ++ rest ∧
      (∀ front back, source = front ++ back → (String.ofList front).utf8ByteSize = offset →
        passed = front) ∧
      (source.splitOn '\n')[(ofOffset source offset).line - 1]? = some line ∧
      passed = ((source.splitOn '\n').take ((ofOffset source offset).line - 1)).flatMap
        (· ++ ['\n']) ++ line.take ((ofOffset source offset).column - 1) ∧
      line.drop ((ofOffset source offset).column - 1) = rest.takeWhile (· ≠ '\n') ∧
      (ofOffset source offset).column - 1 ≤ line.length := by
  obtain ⟨passed, rest, cut, ends, whole⟩ := endsText_first.walk source offset
  obtain ⟨line, found⟩ := ends.exists_line rest
  rw [List.nil_append, ← cut] at found
  exact ⟨passed, rest, line, cut, whole, found⟩

end Position

end RuleLisp
