import RuleLisp.Diagnostic.Printer

/-! # Diagnostics with and without colour

Colour only adds control sequences to the text of a diagnostic. Where no text has the character
that starts such a sequence, removing the sequences again leaves the text without colour.
-/

namespace RuleLisp.Diagnostic

/-! ## Removing colour -/

/-- What follows the rest of a control sequence: behind the escape character, it has an opening
bracket, one or more digits and an `m`. -/
def afterControl? : List Char → Option (List Char)
  | bracket :: digit :: rest =>
      let behind := rest.dropWhile Char.isDigit
      if bracket = '[' ∧ digit.isDigit ∧ behind.head? = some 'm' then some behind.tail else none
  | _ => none

theorem length_lt_of_afterControl? {text behind : List Char}
    (found : afterControl? text = some behind) : behind.length < text.length := by
  rcases text with _ | ⟨bracket, _ | ⟨digit, rest⟩⟩
  · cases found
  · cases found
  · have shorter := (List.dropWhile_suffix (l := rest) Char.isDigit).length_le
    simp only [afterControl?, Option.ite_none_right_eq_some, Option.some.injEq] at found
    rw [← found.2, List.length_tail, List.length_cons, List.length_cons]
    omega

def uncoloredChars : List Char → List Char
  | [] => []
  | char :: rest =>
      if char = '\x1b' then
        match found : afterControl? rest with
        | some behind =>
            have : behind.length < rest.length := length_lt_of_afterControl? found
            uncoloredChars behind
        | none => char :: uncoloredChars rest
      else char :: uncoloredChars rest
termination_by text => text.length

def uncolored (text : String) : String :=
  String.ofList (uncoloredChars text.toList)

theorem uncoloredChars_append {text : List Char} (plain : '\x1b' ∉ text) (rest : List Char) :
    uncoloredChars (text ++ rest) = text ++ uncoloredChars rest := by
  induction text with
  | nil => rfl
  | cons char text induction =>
      rw [List.mem_cons, not_or] at plain
      rw [List.cons_append, uncoloredChars, if_neg (Ne.symm plain.1), induction plain.2,
        List.cons_append]

theorem uncoloredChars_control {rest behind : List Char}
    (found : afterControl? rest = some behind) :
    uncoloredChars ('\x1b' :: rest) = uncoloredChars behind := by
  rw [uncoloredChars, if_pos rfl]
  split
  · next other same =>
    cases same.symm.trans found
    rfl
  · next same => cases same.symm.trans found

/-! ## Texts that lose their colour -/

/-- A text without the character that starts control sequences. -/
def IsPlain (text : String) : Prop :=
  '\x1b' ∉ text.toList

instance : DecidablePred IsPlain :=
  fun text => inferInstanceAs (Decidable ('\x1b' ∉ text.toList))

/-- Without its control sequences the first text is the second one, whatever follows it. -/
def Fades (colored plain : String) : Prop :=
  ∀ rest, uncoloredChars (colored.toList ++ rest) = plain.toList ++ uncoloredChars rest

theorem Fades.uncolored_eq {colored plain : String} (fades : Fades colored plain) :
    uncolored colored = plain := by
  have whole := fades []
  rw [List.append_nil, uncoloredChars, List.append_nil] at whole
  rw [uncolored, whole, String.ofList_toList]

theorem Fades.append {colored plain otherColored otherPlain : String}
    (fades : Fades colored plain) (otherFades : Fades otherColored otherPlain) :
    Fades (colored ++ otherColored) (plain ++ otherPlain) := by
  intro rest
  rw [String.toList_append, String.toList_append, List.append_assoc, List.append_assoc, fades,
    otherFades]

theorem Fades.join {α : Type} {items : List α} {colored plain : α → String}
    (fades : ∀ item ∈ items, Fades (colored item) (plain item)) :
    Fades (String.join (items.map colored)) (String.join (items.map plain)) := by
  induction items with
  | nil => exact fun rest => rfl
  | cons item items induction =>
      obtain ⟨first, others⟩ := List.forall_mem_cons.mp fades
      rw [List.map_cons, List.map_cons, String.join_cons, String.join_cons]
      exact first.append (induction others)

theorem IsPlain.fades {text : String} (plain : IsPlain text) : Fades text text :=
  uncoloredChars_append plain

theorem Fades.push {colored plain text : String} (fades : Fades colored plain)
    (plainText : IsPlain text) : Fades (colored ++ text) (plain ++ text) :=
  fades.append plainText.fades

theorem afterControl?_digits {digits : List Char} (isDigit : ∀ char ∈ digits, char.isDigit = true)
    (nonempty : digits ≠ []) (rest : List Char) :
    afterControl? ('[' :: (digits ++ 'm' :: rest)) = some rest := by
  cases digits with
  | nil => exact absurd rfl nonempty
  | cons digit digits =>
      obtain ⟨first, others⟩ := List.forall_mem_cons.mp isDigit
      have behind : (digits ++ 'm' :: rest).dropWhile Char.isDigit = 'm' :: rest :=
        List.dropWhile_append_of_pos others
      rw [List.cons_append, afterControl?, behind]
      exact if_pos ⟨rfl, first, rfl⟩

theorem fades_control (mode : Nat) : Fades (control mode) "" := by
  intro rest
  have isDigit : ∀ char ∈ (Nat.repr mode).toList, char.isDigit = true := by
    intro char member
    rw [Nat.toList_repr] at member
    exact Nat.isDigit_of_mem_toDigits (by decide) (by decide) member
  have nonempty : (Nat.repr mode).toList ≠ [] := by
    rw [Nat.toList_repr]
    exact Nat.toDigits_ne_nil
  have chars : (control mode).toList ++ rest =
      '\x1b' :: '[' :: ((Nat.repr mode).toList ++ 'm' :: rest) := by
    simp [control]
  rw [chars, uncoloredChars_control (afterControl?_digits isDigit nonempty rest)]
  rfl

theorem fades_controls (modes : List Nat) : Fades (String.join (modes.map control)) "" := by
  induction modes with
  | nil => exact fun rest => rfl
  | cons mode modes induction =>
      rw [List.map_cons, String.join_cons]
      exact (fades_control mode).append induction

theorem fades_paint (ink : Ink) {text : String} (plain : IsPlain text) :
    Fades (paint true ink text) (paint false ink text) := by
  have wrapped := ((fades_controls ink.modes.1).append plain.fades).append
    (fades_controls ink.modes.2)
  rwa [String.empty_append, String.append_empty] at wrapped

/-! ## Plain texts -/

theorem IsPlain.append {text other : String} (plain : IsPlain text) (otherPlain : IsPlain other) :
    IsPlain (text ++ other) := by
  rw [IsPlain, String.toList_append, List.mem_append, not_or]
  exact ⟨plain, otherPlain⟩

theorem isPlain_row (count : Nat) {char : Char} (different : char ≠ '\x1b') :
    IsPlain (row count char) := by
  rw [IsPlain, row, String.toList_ofList]
  intro member
  exact different (List.eq_of_mem_replicate member).symm

theorem isPlain_repr (number : Nat) : IsPlain (Nat.repr number) := by
  rw [IsPlain, Nat.toList_repr]
  intro member
  have digit := Nat.isDigit_of_mem_toDigits (by decide) (by decide) member
  revert digit
  decide

theorem isPlain_padded (width number : Nat) : IsPlain (padded width (Nat.repr number)) :=
  (isPlain_row _ (by decide)).append (isPlain_repr number)

theorem isPlain_marker {label : Label} (plain : IsPlain label.message) (column lineLength : Nat) :
    IsPlain (marker label column lineLength) := by
  have remark : IsPlain (if label.message.isEmpty then "" else " " ++ label.message) := by
    split
    · exact List.not_mem_nil
    · exact IsPlain.append (by decide) plain
  exact ((isPlain_row _ (by decide)).append (isPlain_row _ (by decide))).append remark

theorem subset_of_lineText {index : Nat} {source line : List Char}
    (found : lineText index source = some line) : line ⊆ source := by
  induction index generalizing source with
  | zero =>
      cases found
      exact (List.takeWhile_prefix _).subset
  | succ index induction =>
      rw [lineText] at found
      split at found
      · cases found
      · next first rest dropped =>
        have behind : rest ⊆ source := by
          apply List.Subset.trans (List.subset_cons_self first rest)
          rw [← dropped]
          exact (List.dropWhile_suffix _).subset
        exact List.Subset.trans (induction found) behind

/-! ## The parts of a diagnostic -/

/-- No text of the diagnostic has the character that starts control sequences. -/
structure HasPlainTexts (diagnostic : Diagnostic) : Prop where
  code : ∀ code ∈ diagnostic.code, IsPlain code
  message : IsPlain diagnostic.message
  labels : ∀ label ∈ diagnostic.labels, IsPlain label.message
  notes : ∀ note ∈ diagnostic.notes, IsPlain note

section

variable {diagnostic : Diagnostic} (plain : diagnostic.HasPlainTexts)

include plain

theorem fades_header : Fades (diagnostic.header true) (diagnostic.header false) := by
  obtain ⟨code, message, labels, notes⟩ := diagnostic
  have severity : Fades (paint true .boldRed "error") (paint false .boldRed "error") :=
    fades_paint .boldRed (by decide)
  have separator : IsPlain ": " := by decide
  have ending : IsPlain "\n" := by decide
  cases code with
  | none =>
      have nothing : IsPlain "" := by decide
      exact (((severity.push nothing).push separator).append
        (fades_paint .bold plain.message)).push ending
  | some code =>
      have bracketed : IsPlain ("[" ++ code ++ "]") :=
        ((show IsPlain "[" by decide).append (plain.code code rfl)).append (by decide)
      exact (((severity.push bracketed).push separator).append
        (fades_paint .bold plain.message)).push ending

theorem fades_notes : Fades (String.join (diagnostic.notes.map (noteLine true)))
    (String.join (diagnostic.notes.map (noteLine false))) := by
  apply Fades.join
  intro note member
  have space : IsPlain " " := by decide
  have sign : IsPlain "=" := by decide
  have ending : IsPlain "\n" := by decide
  exact (((space.fades.append (fades_paint .boldBlue sign)).push space).push
    (plain.notes note member)).push ending

end

theorem fades_bar : Fades (" " ++ paint true .boldBlue "|" ++ " ")
    (" " ++ paint false .boldBlue "|" ++ " ") := by
  have space : IsPlain " " := by decide
  have bar : IsPlain "|" := by decide
  exact (space.fades.append (fades_paint .boldBlue bar)).push space

theorem fades_labelLines {source : List Char} (plain : '\x1b' ∉ source) (width : Nat)
    {label : Label} (plainLabel : IsPlain label.message) :
    Fades (labelLines true source width label) (labelLines false source width label) := by
  rw [labelLines, labelLines]
  cases found : lineText ((Position.ofOffset source label.span.start).line - 1) source with
  | none => exact fun rest => rfl
  | some line =>
      have plainLine : IsPlain (String.ofList line) := by
        rw [IsPlain, String.toList_ofList]
        exact fun member => plain (subset_of_lineText found member)
      have ending : IsPlain "\n" := by decide
      have marked := fades_paint .red (isPlain_marker plainLabel
        (Position.ofOffset source label.span.start).column line.length)
      exact (((((((isPlain_padded width _).fades.append fades_bar).push plainLine).push ending).push
        (isPlain_row width (by decide))).append fades_bar).append marked).push ending

theorem fades_rule (width : Nat) : Fades (row width ' ' ++ paint true .boldBlue "|" ++ "\n")
    (row width ' ' ++ paint false .boldBlue "|" ++ "\n") := by
  have spaces : IsPlain (row width ' ') := isPlain_row width (by decide)
  have bar : IsPlain "|" := by decide
  exact (spaces.fades.append (fades_paint .boldBlue bar)).push (by decide)

theorem fades_place {origin : String} (plain : IsPlain origin) (width line column : Nat) :
    Fades
      (row width ' ' ++ paint true .boldBlue "-->" ++ " " ++ origin ++ ":" ++ Nat.repr line ++
        ":" ++ Nat.repr column ++ "\n")
      (row width ' ' ++ paint false .boldBlue "-->" ++ " " ++ origin ++ ":" ++ Nat.repr line ++
        ":" ++ Nat.repr column ++ "\n") := by
  have spaces : IsPlain (row width ' ') := isPlain_row width (by decide)
  have arrow : IsPlain "-->" := by decide
  have colon : IsPlain ":" := by decide
  have pointed := (spaces.fades.append (fades_paint .boldBlue arrow)).push
    (show IsPlain " " by decide)
  exact (((((pointed.push plain).push colon).push (isPlain_repr line)).push colon).push
    (isPlain_repr column)).push (by decide)

theorem fades_labelBlock {source : List Char} (plain : '\x1b' ∉ source) {origin : String}
    (plainOrigin : IsPlain origin) {labels : List Label}
    (plainLabels : ∀ label ∈ labels, IsPlain label.message) :
    Fades (labelBlock true source origin labels) (labelBlock false source origin labels) := by
  cases labels with
  | nil => exact fun rest => rfl
  | cons first rest =>
      have lines (width : Nat) := Fades.join fun label member =>
        fades_labelLines plain width (plainLabels label member)
      exact (((fades_place plainOrigin _ _ _).append (fades_rule _)).append (lines _)).append
        (fades_rule _)

theorem isPlain_summary (count : Nat) : IsPlain (summary count) := by
  unfold summary
  split
  · decide
  · have opening : IsPlain "error: aborting due to " := by decide
    refine (opening.append (isPlain_repr count)).append ?_
    split <;> decide

/-- Without its control sequences, the coloured text of diagnostics is the text without colour. -/
theorem color_adds_only_color {source origin : String} {diagnostics : List Diagnostic}
    (plainSource : IsPlain source) (plainOrigin : IsPlain origin)
    (plain : ∀ diagnostic ∈ diagnostics, HasPlainTexts diagnostic) :
    uncolored (renderAll true source origin diagnostics) =
      renderAll false source origin diagnostics := by
  apply Fades.uncolored_eq
  apply Fades.push _ (isPlain_summary diagnostics.length)
  apply Fades.join
  intro diagnostic member
  have ending : IsPlain "\n" := by decide
  have texts := plain diagnostic member
  have labels := fades_labelBlock plainSource plainOrigin texts.labels
  exact (((fades_header texts).append labels).append (fades_notes texts)).push ending

/-- Texts that look like the rest of a control sequence stay, wherever colour puts them. -/
theorem color_adds_only_color_look_alikes :
    let report : Diagnostic := ⟨some "1m", "[0m", [⟨⟨4, 99⟩, "m"⟩], ["[39m"]⟩
    (IsPlain "[31m é" ∧ IsPlain "34m" ∧ ∀ diagnostic ∈ [report], HasPlainTexts diagnostic) ∧
      renderAll true "[31m é" "34m" [report] ≠ renderAll false "[31m é" "34m" [report] ∧
      uncolored (renderAll true "[31m é" "34m" [report]) =
        renderAll false "[31m é" "34m" [report] := by
  intro report
  have source : IsPlain "[31m é" := by decide
  have origin : IsPlain "34m" := by decide
  have code : ∀ code ∈ report.code, IsPlain code := by
    intro code same
    cases same
    decide
  have texts : ∀ diagnostic ∈ [report], HasPlainTexts diagnostic :=
    List.forall_mem_singleton.mpr ⟨code, by decide, by decide, by decide⟩
  exact ⟨⟨source, origin, texts⟩, by decide, color_adds_only_color source origin texts⟩

end RuleLisp.Diagnostic
