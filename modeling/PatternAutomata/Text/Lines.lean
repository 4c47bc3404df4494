import PatternAutomata.Text.Basic

/-!
# Cutting a text into lines

A line feed, a carriage return, or the two together end a line. Which other characters do is a parameter: none in a
file, `isSeparator` in text that is printed. The text after the last line end is a line only if it is not empty.
-/

namespace PatternAutomata.Text

/-- The lines of a text, where the characters in `extra` also end a line. -/
def linesWith (extra : Char → Bool) : Text → List Text
  | [] => []
  | '\r' :: '\n' :: rest => [] :: linesWith extra rest
  | c :: rest =>
    if c = '\n' ∨ c = '\r' ∨ extra c then [] :: linesWith extra rest
    else match linesWith extra rest with
      | [] => [[c]]
      | first :: others => (c :: first) :: others

/-- The lines of a file: only line feeds and carriage returns end them. -/
def fileLines (text : Text) : List Text := linesWith (fun _ => false) text

/-- The vertical tab, the form feed, the file, group and record separators, the next-line control, and the line and
paragraph separators. -/
def isSeparator (c : Char) : Bool :=
  c ∈ ['\x0b', '\x0c', '\x1c', '\x1d', '\x1e', '\u0085', '\u2028', '\u2029']

/-- The lines of printed text: separators end them too. -/
def printedLines (text : Text) : List Text := linesWith isSeparator text

/-! ### Lines that were written -/

/-- A line ends at the character. -/
def IsLineEnd (extra : Char → Bool) (c : Char) : Prop := c = '\n' ∨ c = '\r' ∨ extra c = true

instance (extra : Char → Bool) (c : Char) : Decidable (IsLineEnd extra c) :=
  inferInstanceAs (Decidable (c = '\n' ∨ c = '\r' ∨ extra c = true))

/-- No line ends within the text. -/
def Unbroken (extra : Char → Bool) (text : Text) : Prop := ∀ c ∈ text, ¬ IsLineEnd extra c

-- the text is searched, not all characters there are
instance (extra : Char → Bool) (text : Text) : Decidable (Unbroken extra text) :=
  List.decidableBAll (fun c => ¬ IsLineEnd extra c) text

theorem unbroken_cons {extra : Char → Bool} {c : Char} {text : Text} :
    Unbroken extra (c :: text) ↔ ¬ IsLineEnd extra c ∧ Unbroken extra text :=
  List.forall_mem_cons

theorem unbroken_append {extra : Char → Bool} {front back : Text} :
    Unbroken extra (front ++ back) ↔ Unbroken extra front ∧ Unbroken extra back :=
  List.forall_mem_append

/-- What is written behind a line: a line feed, both characters together, or a carriage return. -/
inductive LineEnding
  | lf
  | crlf
  | cr
deriving DecidableEq, Repr

namespace LineEnding

/-- The characters that are written. -/
def mark : LineEnding → Text
  | lf => ['\n']
  | crlf => ['\r', '\n']
  | cr => ['\r']

/-- All texts, each with the line ending behind it. -/
def write (ending : LineEnding) (texts : List Text) : Text := texts.flatMap fun text => text ++ ending.mark

theorem write_cons (ending : LineEnding) (text : Text) (texts : List Text) :
    ending.write (text :: texts) = text ++ (ending.mark ++ ending.write texts) := by
  rw [write, List.flatMap_cons, List.append_assoc, ← write]

end LineEnding

section Written

variable {extra : Char → Bool} {text rest : Text} {texts : List Text}

/-- A text within which no line ends goes to the first line of what stands behind it. -/
theorem linesWith_append {first : Text} {others : List Text} (h : Unbroken extra text)
    (hrest : linesWith extra rest = first :: others) : linesWith extra (text ++ rest) = (text ++ first) :: others := by
  induction text with
  | nil => exact hrest
  | cons c text ih =>
    obtain ⟨hc, htext⟩ := unbroken_cons.mp h
    have hnone : ¬ (c = '\n' ∨ c = '\r' ∨ extra c = true) := hc
    show linesWith extra (c :: (text ++ rest)) = (c :: (text ++ first)) :: others
    rw [linesWith, if_neg hnone, ih htext]
    -- the two characters that end a line together do not stand here
    rintro tail rfl -
    exact hnone (Or.inr (Or.inl rfl))

/-- A text that is not empty and within which no line ends is a line without anything behind it. -/
theorem linesWith_eq_singleton (h : Unbroken extra text) (hne : text ≠ []) : linesWith extra text = [text] := by
  have hsplit := List.dropLast_concat_getLast hne
  rw [← hsplit, unbroken_append, unbroken_cons] at h
  have hlast : ¬ (text.getLast hne = '\n' ∨ text.getLast hne = '\r' ∨ extra (text.getLast hne) = true) := h.2.1
  have hsingle : linesWith extra [text.getLast hne] = [[text.getLast hne]] := by
    rw [linesWith, if_neg hlast, linesWith]
    rintro tail - htail
    cases htail
  have happend := linesWith_append h.1 hsingle
  rwa [hsplit] at happend

namespace LineEnding

variable {ending : LineEnding}

/-- A line ends, unless a line feed behind a carriage return goes with it. -/
theorem linesWith_mark_append (h : ending = cr → rest.head? ≠ some '\n') :
    linesWith extra (ending.mark ++ rest) = [] :: linesWith extra rest := by
  cases ending with
  | lf =>
    show linesWith extra ('\n' :: rest) = [] :: linesWith extra rest
    rw [linesWith, if_pos (Or.inl rfl)]
    rintro tail heq -
    cases heq
  | crlf =>
    show linesWith extra ('\r' :: '\n' :: rest) = [] :: linesWith extra rest
    rw [linesWith]
  | cr =>
    show linesWith extra ('\r' :: rest) = [] :: linesWith extra rest
    rw [linesWith, if_pos (Or.inr (Or.inl rfl))]
    rintro tail - rfl
    exact h rfl rfl

theorem head?_write_append (h : ∀ text ∈ texts, Unbroken extra text) (hrest : ending = cr → rest.head? ≠ some '\n') :
    ending = cr → (ending.write texts ++ rest).head? ≠ some '\n' := by
  rintro rfl
  cases texts with
  | nil => exact hrest rfl
  | cons text texts =>
    rw [write_cons]
    cases text with
    | nil => simp [mark]
    | cons c text =>
      intro hhead
      cases hhead
      exact (unbroken_cons.mp (List.forall_mem_cons.mp h).1).1 (Or.inl rfl)

/-- The texts that are written are the lines that are found, in front of those of what stands behind. -/
theorem linesWith_write_append (h : ∀ text ∈ texts, Unbroken extra text) (hrest : ending = cr → rest.head? ≠ some '\n') :
    linesWith extra (ending.write texts ++ rest) = texts ++ linesWith extra rest := by
  induction texts with
  | nil => rfl
  | cons text texts ih =>
    obtain ⟨htext, htexts⟩ := List.forall_mem_cons.mp h
    have hend : linesWith extra (ending.mark ++ (ending.write texts ++ rest)) =
        [] :: linesWith extra (ending.write texts ++ rest) :=
      linesWith_mark_append (head?_write_append htexts hrest)
    rw [write_cons, List.append_assoc, List.append_assoc, linesWith_append htext hend, List.append_nil, ih htexts]
    rfl

end LineEnding

/-- The lines of a text are found again if none is broken itself. -/
theorem linesWith_unlines (h : ∀ text ∈ texts, Unbroken extra text) : linesWith extra (unlines texts) = texts := by
  have hlines : linesWith extra (LineEnding.lf.write texts ++ []) = texts ++ linesWith extra [] :=
    LineEnding.linesWith_write_append h fun heq => nomatch heq
  rw [List.append_nil, linesWith, List.append_nil] at hlines
  exact hlines

end Written

end PatternAutomata.Text
