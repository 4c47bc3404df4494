import Mathlib.Data.List.Chain
import PatternAutomata.Pattern.Postfix
import PatternAutomata.Proofs.Completion

/-!
# Patterns with explicit dots

A pattern is explicit if nothing that ends an operand stands directly before something that begins one. The completion of
a pattern is the only explicit pattern that it is what is left of, when dots are left out where completion writes them
(`complete_unique`).

* `explicit_complete`, `elision_complete` — the completion is such a pattern;
* `complete_of_explicit` — completion changes nothing that is explicit already, so there is no other one.
-/

namespace PatternAutomata.Pattern

/-- A letter, a digit, a star or a closing parenthesis. -/
def Ender (c : Char) : Prop := c.isAlphanum = true ∨ c = '*' ∨ c = ')'

/-- A letter, a digit or an opening parenthesis. -/
def Starter (c : Char) : Prop := c.isAlphanum = true ∨ c = '('

instance (c : Char) : Decidable (Ender c) := inferInstanceAs (Decidable (c.isAlphanum = true ∨ c = '*' ∨ c = ')'))

instance (c : Char) : Decidable (Starter c) := inferInstanceAs (Decidable (c.isAlphanum = true ∨ c = '('))

/-- No ender is followed directly by a starter. -/
def Explicit (r : Text) : Prop := r.IsChain fun c d => ¬ (Ender c ∧ Starter d)

variable {c d : Char} {p q r : Text}

theorem joins_eq_true_iff : joins (some c) (some d) = true ↔ Ender c ∧ Starter d := by
  simp [joins, isEnder, isStarter, Ender, Starter, or_assoc]

theorem explicit_cons : Explicit (c :: r) ↔ joins (some c) r.head? = false ∧ Explicit r := by
  cases r with
  | nil => exact iff_of_true (.singleton c) ⟨rfl, .nil⟩
  | cons d r =>
    rw [Explicit, List.isChain_cons_cons, ← joins_eq_true_iff, Bool.not_eq_true]
    rfl

theorem explicit_cons_dot_cons : Explicit (c :: '.' :: r) ↔ Explicit r := by
  rw [explicit_cons, explicit_cons, List.head?_cons, and_iff_right (joins_eq_false_of_not_starter (by decide)),
    and_iff_right (joins_eq_false_of_not_ender (by decide))]

/-- **Completion makes a pattern explicit.** -/
theorem explicit_complete (p : Text) : Explicit (complete p) := by
  induction p with
  | nil => exact .nil
  | cons c p ih =>
    rw [complete_cons]
    split
    next => exact explicit_cons_dot_cons.mpr ih
    next hjoins =>
      rw [Bool.not_eq_true, ← head?_complete p] at hjoins
      exact explicit_cons.mpr ⟨hjoins, ih⟩

/-- The dots that completion writes can be left out again. -/
theorem elision_complete (a : Option Char) (p : Text) : Elision a (complete p) p 0 := by
  induction p generalizing a with
  | nil => exact .nil
  | cons c p ih =>
    rw [complete_cons]
    split
    next hjoins =>
      rw [← head?_complete p] at hjoins
      exact .keep (.drop hjoins (ih (some '.')))
    next => exact .keep (ih (some c))

/-- **Completion leaves an explicit pattern as it is.** -/
theorem complete_of_explicit (h : Explicit r) : complete r = r := by
  induction r with
  | nil => rfl
  | cons c r ih =>
    obtain ⟨hjoins, hr⟩ := explicit_cons.mp h
    rw [complete_cons_eq hjoins, ih hr]

theorem eq_complete_iff : r = complete p ↔ Explicit r ∧ Elision none r p 0 := by
  constructor
  · rintro rfl
    exact ⟨explicit_complete p, elision_complete none p⟩
  · rintro ⟨hexplicit, helision⟩
    rw [complete_of_elision helision, complete_of_explicit hexplicit]

theorem complete_complete (p : Text) : complete (complete p) = complete p := complete_of_explicit (explicit_complete p)

/-- Completion works on two parts of a pattern, with a dot between them if they meet like operands. -/
theorem complete_append_of_ne_nil (hp : p ≠ []) (hq : q ≠ []) :
    complete (p ++ q) =
      complete p ++ (if Ender (p.getLast hp) ∧ Starter (q.head hq) then ['.'] else []) ++ complete q := by
  rw [complete_append, List.getLast?_eq_some_getLast hp, List.head?_eq_some_head hq]
  simp only [joins_eq_true_iff]

/-- **The completion of a pattern is unique**: it is the only text in which no ender is followed directly by a starter and
of which the pattern is left when some dots between an ender and a starter are left out. So completing it again changes
nothing, it has the tokens of the pattern, and completion works on the parts of a pattern, up to a dot where they meet. -/
theorem complete_unique (p : Text) :
    (∀ r, Explicit r ∧ Elision none r p 0 ↔ r = complete p) ∧
      complete (complete p) = complete p ∧
      parse (complete p) = parse p ∧
      ∀ q (hp : p ≠ []) (hq : q ≠ []),
        complete (p ++ q) =
          complete p ++ (if Ender (p.getLast hp) ∧ Starter (q.head hq) then ['.'] else []) ++ complete q := by
  refine ⟨fun r => eq_complete_iff.symm, complete_complete p, ?_, fun q hp hq => complete_append_of_ne_nil hp hq⟩
  rw [parse, complete_complete, parse]

/-- Of the dots of `a*.(b).c` only the first one is left out, and the pattern is cut where it stood. -/
theorem complete_unique_grouped :
    let p := ['a', '*']
    let q := ['(', 'b', ')', '.', 'c']
    let r := ['a', '*', '.', '(', 'b', ')', '.', 'c']
    p ≠ [] ∧ q ≠ [] ∧ Explicit r ∧ Elision none r (p ++ q) 0 ∧ r = complete (p ++ q) ∧
      complete (p ++ q) = complete p ++ ['.'] ++ complete q := by
  intro p q r
  have hp : p ≠ [] := by decide
  have hq : q ≠ [] := by decide
  have hexplicit : Explicit r := by simp [r, Explicit, Ender, Starter]
  have helision : Elision none r (p ++ q) 0 := .keep (.keep (.drop rfl (.keep (.keep (.keep (.keep (.keep .nil)))))))
  obtain ⟨hunique, -⟩ := complete_unique (p ++ q)
  obtain ⟨-, -, -, happend⟩ := complete_unique p
  exact ⟨hp, hq, hexplicit, helision, (hunique r).mp ⟨hexplicit, helision⟩, happend q hp hq⟩

end PatternAutomata.Pattern
