import PatternAutomata.Pattern.Completion
import PatternAutomata.Proofs.Rendering

/-!
# Dots that are left out

* `Elision` — what remains of a pattern when some of its dots are left out, with the number of those that completion does
  not write back;
* `complete_append` — completion works on the parts of a pattern, up to a dot where they meet;
* `complete_of_elision` — if every dot that was left out is written back, nothing is lost;
* `complete_of_rendering` — in a rendering no dot is missing.
-/

namespace PatternAutomata.Pattern

/-- Whether a dot may be left out between two characters, if there are such. -/
def joins : Option Char → Option Char → Bool
  | some a, some b => isEnder a && isStarter b
  | _, _ => false

/-- `Elision a r p m`: `p` is the pattern `r`, which stands behind `a`, without some of its dots. `m` of these do not stand
where a dot may be left out. -/
inductive Elision : Option Char → Text → Text → Nat → Prop
  | nil {a : Option Char} : Elision a [] [] 0
  | keep {a : Option Char} {c : Char} {r p : Text} {m : Nat} : Elision (some c) r p m → Elision a (c :: r) (c :: p) m
  | drop {a : Option Char} {r p : Text} {m : Nat} :
    joins a r.head? = true → Elision (some '.') r p m → Elision a ('.' :: r) p m
  | lose {a : Option Char} {r p : Text} {m : Nat} :
    joins a r.head? = false → Elision (some '.') r p m → Elision a ('.' :: r) p (m + 1)

section Complete

variable {a b : Char} {p q r : Text}

theorem complete_cons_cons :
    complete (a :: b :: p) = if joins a b then a :: '.' :: complete (b :: p) else a :: complete (b :: p) := by
  rw [complete]
  rfl

theorem complete_cons :
    complete (a :: p) = if joins a p.head? then a :: '.' :: complete p else a :: complete p := by
  cases p with
  | nil => rfl
  | cons b p => exact complete_cons_cons

theorem complete_cons_eq (h : joins a p.head? = false) : complete (a :: p) = a :: complete p := by
  rw [complete_cons, h]
  rfl

theorem head?_complete (p : Text) : (complete p).head? = p.head? := by
  cases p with
  | nil => rfl
  | cons a p =>
    rw [complete_cons]
    split <;> rfl

/-- Completion works on the parts of a pattern, up to a dot where they meet. -/
theorem complete_append :
    complete (p ++ q) = complete p ++ (if joins p.getLast? q.head? then ['.'] else []) ++ complete q := by
  induction p with
  | nil => simp [complete, joins]
  | cons a p ih =>
    cases p with
    | nil =>
      cases q with
      | nil => simp [complete, joins]
      | cons b q =>
        rw [List.singleton_append, complete_cons_cons]
        cases hjoins : joins (some a) (some b) <;> simp [complete, hjoins]
    | cons b p =>
      rw [List.cons_append, List.cons_append, complete_cons_cons, complete_cons_cons, ← List.cons_append, ih,
        List.getLast?_cons_cons]
      split <;> simp

/-- Where no dot belongs between two parts, completion works on each of them. -/
theorem complete_append_of_joins_eq_false (h : joins p.getLast? q.head? = false) :
    complete (p ++ q) = complete p ++ complete q := by
  rw [complete_append, h]
  simp

theorem joins_eq_false_of_not_starter {a : Option Char} (h : isStarter b = false) : joins a (some b) = false := by
  cases a <;> simp [joins, h]

theorem joins_eq_false_of_not_ender {b : Option Char} (h : isEnder a = false) : joins (some a) b = false := by
  cases b <;> simp [joins, h]

/-- A character around which no dot may be left out separates the parts. -/
theorem complete_append_cons (hstarter : isStarter a = false) (hender : isEnder a = false) :
    complete (p ++ a :: q) = complete p ++ a :: complete q := by
  rw [complete_append_of_joins_eq_false (joins_eq_false_of_not_starter hstarter),
    complete_cons_eq (joins_eq_false_of_not_ender hender)]

theorem complete_dot_cons : complete ('.' :: p) = '.' :: complete p :=
  complete_cons_eq (joins_eq_false_of_not_ender (by decide))

theorem complete_of_elision_cons {m : Nat} (h : Elision (some a) r p m) (hm : m = 0) :
    complete (a :: p) = complete (a :: r) := by
  generalize ha : some a = a' at h
  induction h generalizing a with
  | nil => rfl
  | keep _ ih =>
    rw [complete_cons_cons, complete_cons_cons, ih hm rfl]
  | @drop _ r p m hjoins helision ih =>
    subst ha
    -- the character behind the dot begins an operand, so it is no dot and was kept
    obtain _ | ⟨d, r⟩ := r
    · simp [joins] at hjoins
    have hd : isStarter d = true := by simp_all [joins]
    cases helision with
    | @keep _ _ _ p _ _ =>
      have ih := ih hm rfl
      rw [complete_dot_cons, complete_dot_cons, List.cons.injEq] at ih
      rw [List.head?_cons] at hjoins
      have hdot : joins (some a) (some '.') = false := joins_eq_false_of_not_starter (by decide)
      rw [complete_cons_cons, if_pos hjoins, ih.2, complete_cons_eq (p := '.' :: d :: r) hdot, complete_dot_cons]
    | drop _ _ => exact absurd hd (by decide)
    | lose _ _ => exact absurd hd (by decide)
  | lose _ _ _ => cases hm

/-- **Completion writes back the dots that were left out**, if they stood where they may. -/
theorem complete_of_elision (h : Elision none r p 0) : complete p = complete r := by
  cases h with
  | nil => rfl
  | keep h => exact complete_of_elision_cons h rfl
  | drop hjoins _ => simp [joins] at hjoins

/-- In a rendering no dot is missing. -/
theorem complete_of_rendering {level : Level} {e : Expr} (h : Rendering level e r) : complete r = r := by
  induction h with
  | literal _ => rfl
  | @group e r _ ih =>
    rw [complete_append_of_joins_eq_false (joins_eq_false_of_not_starter (by decide)),
      complete_cons_eq (joins_eq_false_of_not_ender (by decide)), ih]
    rfl
  | ofAtom _ ih => exact ih
  | star _ ih =>
    rw [complete_append_of_joins_eq_false (joins_eq_false_of_not_starter (by decide)), ih]
    rfl
  | ofRepetition _ ih => exact ih
  | concat _ _ ihf ihs => rw [complete_append_cons (by decide) (by decide), ihf, ihs]
  | ofConcatenation _ ih => exact ih
  | alternate _ _ ihf ihs => rw [complete_append_cons (by decide) (by decide), ihf, ihs]

end Complete
end PatternAutomata.Pattern
