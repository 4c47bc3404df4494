import PatternAutomata.Compilation
import PatternAutomata.Proofs.Outcome
import PatternAutomata.Proofs.Parentheses

/-!
# Operands that are missing and operands too many

A pattern may lack operands, and it may have some that nothing joins to the others: where an operand follows another one and
completion writes no dot, and where a group is never closed, whose parenthesis comes out as an operand. The construction
sees only how many operands are left, so the two make up for each other: `a(` and `éb.` compile.

* `height_parse` — the operands that a pattern leaves are counted by the two numbers;
* `fed_parse` — where no operand is missing, no operator lacks one;
* `Automaton.ofPattern_isOk_iff_surplus_eq_missing` — a pattern with operands too many compiles only if as many are missing.
-/

namespace PatternAutomata

open Token

namespace Pattern

/-- An operand ends with the character. -/
def endsOperand (c : Char) : Bool := !reserved.contains c || c == '*' || c == ')'

/-- An operand begins with the character. -/
def startsOperand (c : Char) : Bool := !reserved.contains c || c == '('

/-- The number of places of a text where an operand is missing, `isHeld` if one ends in front of it. -/
def missing (isHeld : Bool) : Text → Nat
  | [] => if isHeld then 0 else 1
  | c :: p => (if isHeld || startsOperand c then 0 else 1) + missing (endsOperand c) p

/-- The number of places of a text where an operand directly follows another one, `isHeld` if one ends in front of it. -/
def adjacent (isHeld : Bool) : Text → Nat
  | [] => 0
  | c :: p => (if isHeld && startsOperand c then 1 else 0) + adjacent (endsOperand c) p

/-- The number of operands of a pattern that directly follow another one and are not joined to it by completion: one of the
two is no letter or digit of ASCII, nor a group. -/
def stranded (p : Text) : Nat :=
  (p.zip p.tail).countP fun (a, b) => endsOperand a && startsOperand b && !joins (some a) (some b)

/-- The number of operands that nothing joins to the others. -/
def surplus (p : Text) : Nat := unclosed 0 p + stranded p

/-! ### Counting operands -/

section Count

variable {a b c : Char} {p : Text}

theorem endsOperand_of_isEnder (h : isEnder c = true) : endsOperand c = true := by
  by_cases hc : c ∈ reserved
  · rcases mem_reserved_iff.mp hc with rfl | rfl | rfl | rfl | rfl <;> first | rfl | exact absurd h (by decide)
  · simp [endsOperand, hc]

theorem startsOperand_of_isStarter (h : isStarter c = true) : startsOperand c = true := by
  by_cases hc : c ∈ reserved
  · rcases mem_reserved_iff.mp hc with rfl | rfl | rfl | rfl | rfl <;> first | rfl | exact absurd h (by decide)
  · simp [startsOperand, hc]

/-- A character adds an operand if one begins with it, and takes one away if none ends with it. -/
theorem charWeight_add_one (c : Char) :
    charWeight c + 1 = (if startsOperand c then 1 else 0) + (if endsOperand c then 1 else 0) := by
  by_cases hc : c ∈ reserved
  · rcases mem_reserved_iff.mp hc with rfl | rfl | rfl | rfl | rfl <;> rfl
  · simp [charWeight, token?_of_not_reserved hc, weight, startsOperand, endsOperand, hc]

/-- Between two places an operand is missing, or there is one, or there are two that meet. -/
theorem ite_and_add_one (ends starts : Bool) :
    ((if ends && starts then 1 else 0 : Nat) : ℤ) + 1 =
      (if ends then 1 else 0) + (if starts then 1 else 0) + (if ends || starts then 0 else 1 : Nat) := by
  cases ends <;> cases starts <;> rfl

theorem sum_charWeight (isHeld : Bool) (p : Text) :
    (p.map charWeight).sum + (if isHeld then 1 else 0) + missing isHeld p = 1 + adjacent isHeld p := by
  induction p generalizing isHeld with
  | nil => cases isHeld <;> rfl
  | cons c p ih =>
    have hc := charWeight_add_one c
    have hplace := ite_and_add_one isHeld (startsOperand c)
    have ih := ih (endsOperand c)
    rw [List.map_cons, List.sum_cons, missing, adjacent, Nat.cast_add, Nat.cast_add]
    omega

theorem missing_complete (isHeld : Bool) (p : Text) : missing isHeld (complete p) = missing isHeld p := by
  induction p generalizing isHeld with
  | nil => rfl
  | cons a p ih =>
    cases p with
    | nil => rfl
    | cons b p =>
      rw [complete_cons_cons]
      split
      next h =>
        -- the dot stands between two operands, so none is missing beside it
        obtain ⟨ha, hb⟩ := Bool.and_eq_true_iff.mp h
        simp [missing, ih, endsOperand_of_isEnder ha, startsOperand_of_isStarter hb]
      next => simp only [missing, ih]

theorem stranded_cons_cons : stranded (a :: b :: p) =
    (if endsOperand a && startsOperand b && !joins (some a) (some b) then 1 else 0) + stranded (b :: p) := by
  simp only [stranded, List.tail_cons, List.zip_cons_cons, List.countP_cons]
  exact Nat.add_comm _ _

theorem adjacent_complete_cons (isHeld : Bool) (a : Char) (p : Text) :
    adjacent isHeld (complete (a :: p)) = (if isHeld && startsOperand a then 1 else 0) + stranded (a :: p) := by
  induction p generalizing isHeld a with
  | nil => rfl
  | cons b p ih =>
    rw [complete_cons_cons, stranded_cons_cons]
    cases hjoins : joins (some a) (some b) with
    | true => simp [adjacent, ih, startsOperand, endsOperand, reserved]
    | false => simp [adjacent, ih]

theorem adjacent_complete (p : Text) : adjacent false (complete p) = stranded p := by
  cases p with
  | nil => rfl
  | cons a p => simp [adjacent_complete_cons]

/-- **The operands that a pattern leaves** are one, those too many, and less those that are missing. -/
theorem height_parse (p : Text) : height (parse p) + missing false p = 1 + surplus p := by
  have hsum := sum_charWeight false (complete p)
  rw [missing_complete, adjacent_complete] at hsum
  rw [height_eq_sum_weight, sum_weight_parse, surplus]
  push_cast
  simp at hsum
  omega

end Count

/-! ### Where no operand is missing -/

section Fed

variable {isHeld : Bool} {c : Char} {p : Text} {n : ℤ} {stack : List Pending} {waiting : List Operator}

theorem missing_cons_eq_zero_iff :
    missing isHeld (c :: p) = 0 ↔ (isHeld || startsOperand c) = true ∧ missing (endsOperand c) p = 0 := by
  rw [missing, Nat.add_eq_zero_iff]
  split <;> simp_all

theorem weight_operator_nonpos (o : Operator) : (operator o).weight ≤ 0 := by cases o <;> decide

theorem height_held_nonpos (stack : List Pending) : height (held stack) ≤ 0 := by
  induction stack with
  | nil => exact le_refl 0
  | cons top stack ih =>
    cases top with
    | group => exact ih
    | operator o =>
      have ho := weight_operator_nonpos o
      rw [held, height_cons]
      omega

/-- What waits can be taken if an operand is left over in the end. -/
theorem fed_map_token (h : 1 ≤ n + height (held stack)) : Fed n (stack.map Pending.token) := by
  induction stack generalizing n with
  | nil => trivial
  | cons top stack ih =>
    cases top with
    | group =>
      have hrest : 1 ≤ n + Pending.group.token.weight + height (held stack) := by
        simp only [held] at h
        simp only [Pending.token, weight]
        omega
      exact ⟨not_false, ih hrest⟩
    | operator o =>
      rw [held, height_cons, ← add_assoc] at h
      have hrest := height_held_nonpos stack
      refine ⟨fun hstuck => ?_, ih h⟩
      simp only [Pending.token, Stuck, weight] at hstuck h
      omega

theorem held_operators (waiting : List Operator) : held (waiting.map .operator) = waiting.map .operator := by
  simpa [held] using held_operators_append waiting []

theorem fed_waiting_append {ts : List Token} (h : 1 ≤ n + height (waiting.map .operator))
    (hts : Fed (n + height (waiting.map .operator)) ts) : Fed n (waiting.map .operator ++ ts) := by
  have hwaiting : Fed n ((waiting.map Pending.operator).map Pending.token) := fed_map_token (by rwa [held_operators])
  rw [List.map_map] at hwaiting
  exact fed_append.mpr ⟨hwaiting, hts⟩

/-- **Where no operand is missing, no operator lacks one.** As many operands have come out as binary operators wait, and one
more if the text in front ends with an operand; only then an operator is released. -/
theorem fed_toPostfixFrom (h : missing isHeld p = 0) (hn : (if isHeld then 1 else 0) ≤ n + height (held stack)) :
    Fed n (toPostfixFrom stack p) := by
  induction stack, p using stack_induction generalizing isHeld n with
  | nil stack =>
    cases isHeld with
    | false => cases h
    | true => exact fed_map_token hn
  | opening stack p ih =>
    obtain ⟨-, hp⟩ := missing_cons_eq_zero_iff.mp h
    rw [toPostfixFrom_open]
    refine ih hp (le_trans ?_ hn)
    cases isHeld <;> decide
  | unmatched waiting p ih =>
    obtain ⟨hheld, hp⟩ := missing_cons_eq_zero_iff.mp h
    obtain rfl : isHeld = true := by simpa [startsOperand, reserved] using hheld
    rw [held_operators] at hn
    rw [toPostfixFrom_waiting_close_nil]
    refine fed_waiting_append hn (ih hp ?_)
    simpa [held, endsOperand] using hn
  | closing waiting below p ih =>
    obtain ⟨hheld, hp⟩ := missing_cons_eq_zero_iff.mp h
    obtain rfl : isHeld = true := by simpa [startsOperand, reserved] using hheld
    rw [held_operators_append, held, height_append, ← add_assoc] at hn
    have hbelow := height_held_nonpos below
    rw [toPostfixFrom_waiting_close]
    refine fed_waiting_append ?_ (ih hp ?_)
    · simp only [if_true] at hn
      omega
    · simpa [endsOperand] using hn
  | operator o waiting below p hwaiting hbelow ih =>
    obtain ⟨hheld, hp⟩ := missing_cons_eq_zero_iff.mp h
    obtain rfl : isHeld = true := by cases o <;> simpa [startsOperand, reserved, Operator.symbol] using hheld
    rw [held_operators_append, height_append, ← add_assoc] at hn
    have hnonpos := height_held_nonpos below
    rw [toPostfixFrom_waiting_operator hwaiting hbelow]
    refine fed_waiting_append ?_ (ih hp ?_)
    · simp only [if_true] at hn
      omega
    · -- a star still ends an operand, a binary operator takes one back
      rw [held, height_cons]
      cases o <;> simp [endsOperand, reserved, Operator.symbol, weight, Operator.arity] at hn ⊢ <;> omega
  | literal c stack p hc ih =>
    obtain ⟨-, hp⟩ := missing_cons_eq_zero_iff.mp h
    rw [toPostfixFrom_literal hc]
    refine ⟨not_false, ih hp ?_⟩
    simp only [weight]
    split at hn <;> split <;> omega

theorem fed_parse (h : missing false p = 0) : Fed 0 (parse p) := by
  have hcomplete : missing false (complete p) = 0 := by rw [missing_complete, h]
  exact fed_toPostfixFrom hcomplete (le_refl 0)

end Fed
end Pattern

open Pattern

/-! ### What compiles -/

/-- **A pattern with operands too many compiles only if as many are missing**, and no operator lacks one. If none is missing
they are counted. -/
theorem Automaton.ofPattern_isOk_iff_surplus_eq_missing (p : Text) :
    ((∃ A, ofPattern p = .ok A) ↔ surplus p = missing false p ∧ ∀ i, ¬ StuckAt (parse p) i) ∧
      (missing false p = 0 → 0 < surplus p →
        ofPattern p = .error (.operandOverflow (surplus p + 1) (textOf (parse p)) ((parse p).length - 1))) := by
  have hheight := height_parse p
  rw [ofPattern_none, exists_ofPostfix_eq_ok_iff]
  constructor
  · rw [and_comm]
    refine and_congr_left fun _ => ?_
    omega
  · intro hmissing hsurplus
    have hne : parse p ≠ [] := by
      intro hnil
      rw [hnil, height_nil] at hheight
      omega
    rcases ofPostfix_of_fed (fed_parse hmissing) hne with ⟨hone, -⟩ | ⟨-, count, hcount, herror⟩
    · omega
    · obtain rfl : count = surplus p + 1 := by omega
      exact herror

/-- In `(a-b` nothing joins the three characters, and the group is never closed. -/
theorem Automaton.ofPattern_isOk_iff_surplus_eq_missing_unjoined :
    let p := ['(', 'a', '-', 'b']
    missing false p = 0 ∧ 0 < surplus p ∧
      ofPattern p = .error (.operandOverflow 4 ['a', '-', 'b', '('] 3) := by
  intro p
  have hmissing : missing false p = 0 := by decide
  have hsurplus : 0 < surplus p := by decide
  exact ⟨hmissing, hsurplus, (ofPattern_isOk_iff_surplus_eq_missing p).2 hmissing hsurplus⟩

/-- The group of `a(` is never closed, and nothing joins the two operands of `éb.`, but each lacks an operand as well. -/
theorem Automaton.exists_ofPattern_eq_ok_of_surplus :
    (unclosed 0 ['a', '('] = 1 ∧ ∃ A, ofPattern ['a', '('] = .ok A) ∧
      stranded ['é', 'b', '.'] = 1 ∧ ∃ A, ofPattern ['é', 'b', '.'] = .ok A :=
  ⟨⟨by decide, _, rfl⟩, by decide, _, rfl⟩

end PatternAutomata
