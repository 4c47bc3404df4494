import PatternAutomata.Compilation
import PatternAutomata.Proofs.Completion
import PatternAutomata.Proofs.Construction

/-!
# A compiled pattern accepts the texts that it describes

The four passes together: a pattern that is a rendering of an expression, with or without the dots that may be left out, is
completed to the rendering, put into the postorder of the expression and built, and the automaton reads the texts of the
expression (`Automaton.ofPattern_accepts_texts`).
-/

namespace PatternAutomata

open Pattern

namespace Pattern

/-- In a rendering every literal is one character, so words of its expression are texts read character by character. -/
theorem language_of_rendering {level : Level} {e : Expr} {r : Text} (h : Rendering level e r) :
    e.language = Language.map (fun c => [c]) e.texts := by
  induction h with
  | @literal c _ =>
    have hne : ([c] : Symbol) ≠ Symbol.epsilon := List.cons_ne_nil c []
    rw [Expr.language, if_neg hne, Expr.texts]
    show ({[[c]]} : Set Word) = (List.map fun c => [c]) '' {[c]}
    rw [Set.image_singleton]
    rfl
  | group _ ih => exact ih
  | ofAtom _ ih => exact ih
  | star _ ih => rw [Expr.language, Expr.texts, ih, Language.map_kstar]
  | ofRepetition _ ih => exact ih
  | concat _ _ ihf ihs => rw [Expr.language, Expr.texts, ihf, ihs, map_mul]
  | ofConcatenation _ ih => exact ih
  | alternate _ _ ihf ihs => rw [Expr.language, Expr.texts, ihf, ihs, map_add]

theorem ofText_mem_language_iff {level : Level} {e : Expr} {r s : Text} (h : Rendering level e r) :
    Word.ofText s ∈ e.language ↔ s ∈ e.texts := by
  rw [language_of_rendering h]
  exact (List.map_injective_iff.mpr List.singleton_injective).mem_set_image

theorem parse_of_elision {level : Level} {e : Expr} {r p : Text} (hr : Rendering level e r)
    (hp : Elision none r p 0) : parse p = e.postorder := by
  rw [parse, complete_of_elision hp, complete_of_rendering hr, toPostfix_of_rendering hr]

end Pattern

theorem Word.epsilon_notMem_ofText (s : Text) : Symbol.epsilon ∉ Word.ofText s := by
  simp [Word.ofText, Symbol.epsilon]

/-- **A pattern compiles to an automaton that accepts the texts of its expression**, whatever parentheses are added to it
and whichever dots are left out where they may. -/
theorem Automaton.ofPattern_accepts_texts {e : Expr} {r p : Text} (hr : Rendering .alternation e r)
    (hp : Elision none r p 0) :
    ∃ A, ofPattern p = .ok A ∧ ∀ s : Text, A.accepts (Word.ofText s) = true ↔ s ∈ e.texts := by
  refine ⟨e.automaton, ?_, fun s => ?_⟩
  · rw [ofPattern_none, parse_of_elision hr hp, ofPostfix_postorder]
  · rw [e.accepts_automaton_iff (Word.epsilon_notMem_ofText s), ofText_mem_language_iff hr]

/-- In `((a|b))*a.é` a dot is left out, parentheses are doubled, and an operand is no letter of ASCII. -/
theorem Automaton.ofPattern_accepts_texts_doubled :
    let repeated := Expr.star (.alternate (.literal ['a']) (.literal ['b']))
    let e := Expr.concat (.concat repeated (.literal ['a'])) (.literal ['é'])
    let r := "((a|b))*.a.é".toList
    let p := "((a|b))*a.é".toList
    Rendering .alternation e r ∧ Elision none r p 0 ∧
      ∃ A, ofPattern p = .ok A ∧ ∀ s : Text, A.accepts (Word.ofText s) = true ↔ s ∈ e.texts := by
  intro repeated e r p
  have operand : ∀ c, c ∉ reserved → Rendering .repetition (.literal [c]) [c] := fun c hc => .ofAtom (.literal hc)
  have either : Rendering .alternation (.alternate (.literal ['a']) (.literal ['b'])) ['a', '|', 'b'] :=
    .alternate (.ofConcatenation (.ofRepetition (operand 'a' (by decide)))) (.ofRepetition (operand 'b' (by decide)))
  have hrepeated : Rendering .repetition repeated "((a|b))*".toList :=
    .star (.ofAtom (.group (.ofConcatenation (.ofRepetition (.ofAtom (.group either))))))
  have hr : Rendering .alternation e r :=
    .ofConcatenation (.concat (.concat (.ofRepetition hrepeated) (operand 'a' (by decide))) (operand 'é' (by decide)))
  have hp : Elision none r p 0 :=
    .keep (.keep (.keep (.keep (.keep (.keep (.keep (.keep (.drop rfl (.keep (.keep (.keep .nil)))))))))))
  exact ⟨hr, hp, ofPattern_accepts_texts hr hp⟩

end PatternAutomata
