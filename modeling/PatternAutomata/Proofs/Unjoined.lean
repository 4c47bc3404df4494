import PatternAutomata.Proofs.Surplus

/-!
# Dots that are not written back

A rendering without some of its dots is refused if one of these stood where completion writes none, and the refusal
tells how many did (`Automaton.ofPattern_of_elision`).

* `whole_of_rendering` — in a rendering no operand is missing, none directly follows another one, and every group is
  closed;
* `missing_of_elision` — no operand is missing either when dots are left out;
* `stranded_of_elision` — but the operands beside a dot meet then, and nothing joins them if no dot is written back.

The character behind a dot begins an operand, so it is no dot itself and is still there when the dot is left out
(`exists_beside_of_elision`): two dots that are left out never stand beside each other.
-/

namespace PatternAutomata
namespace Pattern

variable {level : Level} {e : Expr} {r s p : Text} {m d : Nat} {b c : Char} {isHeld : Bool} {a : Option Char}

/-! ### Single characters -/

theorem endsOperand_of_not_reserved (h : c ∉ reserved) : endsOperand c = true := by simp [endsOperand, h]

theorem startsOperand_of_not_reserved (h : c ∉ reserved) : startsOperand c = true := by simp [startsOperand, h]

theorem missing_cons_of_starts (h : startsOperand c = true) :
    missing isHeld (c :: p) = missing (endsOperand c) p := by
  simp [missing, h]

theorem missing_true_cons : missing true (c :: p) = missing (endsOperand c) p := by simp [missing]

theorem adjacent_false_cons : adjacent false (c :: p) = adjacent (endsOperand c) p := by simp [adjacent]

theorem adjacent_cons_of_not_starts (h : startsOperand c = false) :
    adjacent isHeld (c :: p) = adjacent (endsOperand c) p := by
  simp [adjacent, h]

/-! ### Renderings -/

/-- Whatever follows, the text is read as one operand. -/
structure Whole (r : Text) : Prop where
  missing_append : ∀ rest, missing false (r ++ rest) = missing true rest
  adjacent_append : ∀ rest, adjacent false (r ++ rest) = adjacent true rest
  unclosed_append : ∀ d rest, unclosed d (r ++ rest) = unclosed d rest

namespace Whole

theorem operand (h : c ∉ reserved) : Whole [c] where
  missing_append rest := by
    rw [List.singleton_append, missing_cons_of_starts (startsOperand_of_not_reserved h), endsOperand_of_not_reserved h]
  adjacent_append rest := by rw [List.singleton_append, adjacent_false_cons, endsOperand_of_not_reserved h]
  unclosed_append d rest := unclosed_literal h

theorem group (h : Whole r) : Whole ('(' :: r ++ [')']) := by
  have happend : ∀ rest, '(' :: r ++ [')'] ++ rest = '(' :: (r ++ ')' :: rest) := fun rest => by simp
  constructor
  · intro rest
    rw [happend, missing_cons_of_starts rfl]
    exact (h.missing_append _).trans missing_true_cons
  · intro rest
    rw [happend, adjacent_false_cons]
    exact (h.adjacent_append _).trans (adjacent_cons_of_not_starts rfl)
  · intro d rest
    rw [happend, unclosed_open, h.unclosed_append]
    rfl

theorem star (h : Whole r) : Whole (r ++ [Operator.star.symbol]) := by
  constructor
  · intro rest
    rw [List.append_assoc, h.missing_append]
    exact missing_true_cons
  · intro rest
    rw [List.append_assoc, h.adjacent_append]
    exact adjacent_cons_of_not_starts rfl
  · intro d rest
    rw [List.append_assoc, h.unclosed_append]
    exact unclosed_operator .star

/-- No operand ends or begins with a binary operator. -/
theorem binary (o : Operator) (ho : o ≠ .star) (h : Whole r) (h' : Whole s) : Whole (r ++ o.symbol :: s) := by
  have hends : endsOperand o.symbol = false := by cases o <;> first | rfl | exact absurd rfl ho
  have hstarts : startsOperand o.symbol = false := by cases o <;> rfl
  constructor
  · intro rest
    rw [List.append_assoc, h.missing_append, List.cons_append, missing_true_cons, hends, h'.missing_append]
  · intro rest
    rw [List.append_assoc, h.adjacent_append, List.cons_append, adjacent_cons_of_not_starts hstarts, hends,
      h'.adjacent_append]
  · intro d rest
    rw [List.append_assoc, h.unclosed_append, List.cons_append, unclosed_operator, h'.unclosed_append]

end Whole

/-- **A rendering is read as one operand.** -/
theorem whole_of_rendering (h : Rendering level e r) : Whole r := by
  induction h with
  | literal hc => exact .operand hc
  | group _ ih => exact ih.group
  | ofAtom _ ih => exact ih
  | star _ ih => exact ih.star
  | ofRepetition _ ih => exact ih
  | concat _ _ ihf ihs => exact ihf.binary .concat (by decide) ihs
  | ofConcatenation _ ih => exact ih
  | alternate _ _ ihf ihs => exact ihf.binary .alternate (by decide) ihs

/-! ### Leaving out dots -/

theorem unclosed_dot_cons : unclosed d ('.' :: p) = unclosed d p := unclosed_operator .concat

theorem unclosed_of_elision (h : Elision a r p m) (d : Nat) : unclosed d p = unclosed d r := by
  induction h generalizing d with
  | nil => rfl
  | @keep a c r p m _ ih => rw [unclosed_cons, ih, ← unclosed_cons]
  | drop _ _ ih => rw [ih, unclosed_dot_cons]
  | lose _ _ ih => rw [ih, unclosed_dot_cons]

/-- Where no operand is missing, one is held in front of a dot, and another one begins behind it. -/
theorem missing_dot_cons_eq_zero (h : missing isHeld ('.' :: r) = 0) : isHeld = true ∧ missing false r = 0 := by
  obtain ⟨hheld, hr⟩ := missing_cons_eq_zero_iff.mp h
  exact ⟨by simpa [startsOperand, reserved] using hheld, hr⟩

theorem missing_true_eq_zero (h : missing false r = 0) : missing true r = 0 := by
  cases r with
  | nil => rfl
  | cons c r => exact missing_true_cons.trans (missing_cons_eq_zero_iff.mp h).2

theorem missing_of_elision (h : Elision a r p m) (hr : missing isHeld r = 0) : missing isHeld p = 0 := by
  induction h generalizing isHeld with
  | nil => exact hr
  | keep _ ih =>
    obtain ⟨hheld, hrest⟩ := missing_cons_eq_zero_iff.mp hr
    exact missing_cons_eq_zero_iff.mpr ⟨hheld, ih hrest⟩
  | drop _ _ ih =>
    obtain ⟨rfl, hrest⟩ := missing_dot_cons_eq_zero hr
    exact ih (missing_true_eq_zero hrest)
  | lose _ _ ih =>
    obtain ⟨rfl, hrest⟩ := missing_dot_cons_eq_zero hr
    exact ih (missing_true_eq_zero hrest)

/-- An operand ends in front of a dot that is left out. Behind it another one begins, and this is not left out. -/
theorem exists_beside_of_elision (h : Elision (some '.') r p m) (hr : missing (a.any endsOperand) ('.' :: r) = 0) :
    ∃ b c r' p', a = some b ∧ r = c :: r' ∧ p = c :: p' ∧ endsOperand b = true ∧ startsOperand c = true := by
  obtain ⟨hheld, hrest⟩ := missing_dot_cons_eq_zero hr
  obtain ⟨b, rfl, hb⟩ := (Option.any_eq_true endsOperand a).mp hheld
  cases h with
  | nil => cases hrest
  | @keep _ c r p _ _ =>
    have hc : startsOperand c = true := by simpa using (missing_cons_eq_zero_iff.mp hrest).1
    exact ⟨b, c, r, p, rfl, rfl, rfl, hb, hc⟩
  | drop _ _ => exact absurd (missing_dot_cons_eq_zero hrest).1 (by decide)
  | lose _ _ => exact absurd (missing_dot_cons_eq_zero hrest).1 (by decide)

theorem stranded_dot_cons : stranded ('.' :: p) = stranded p := by
  cases p with
  | nil => rfl
  | cons c p => simp [stranded_cons_cons, endsOperand, reserved]

/-- Where a dot is left out, the operands beside it meet. -/
theorem stranded_beside (hb : endsOperand b = true) (hc : startsOperand c = true) :
    stranded (b :: c :: p) = (if joins (some b) (some c) then 0 else 1) + stranded ('.' :: c :: p) := by
  rw [stranded_cons_cons, stranded_dot_cons, hb, hc]
  cases joins (some b) (some c) <;> rfl

theorem adjacent_cons_eq_zero (h : adjacent isHeld (c :: r) = 0) :
    (isHeld && startsOperand c) = false ∧ adjacent (endsOperand c) r = 0 := by
  rw [adjacent, Nat.add_eq_zero_iff] at h
  exact ⟨by simpa using h.1, h.2⟩

/-- **Every dot that is not written back leaves two operands that nothing joins.** -/
theorem stranded_of_elision (h : Elision a r p m) (hmissing : missing (a.any endsOperand) r = 0)
    (hadjacent : adjacent (a.any endsOperand) r = 0) : stranded (a.toList ++ p) = m := by
  induction h with
  | @nil a => cases a <;> rfl
  | @keep a c r p m _ ih =>
    obtain ⟨hapart, hrest⟩ := adjacent_cons_eq_zero hadjacent
    have hp : stranded (c :: p) = m := ih (missing_cons_eq_zero_iff.mp hmissing).2 hrest
    cases a with
    | none => exact hp
    | some b =>
      rw [Option.any_some] at hapart
      rw [Option.toList_some, List.singleton_append, stranded_cons_cons, hapart, hp]
      exact Nat.zero_add m
  | @drop a r p m hjoins helision ih =>
    have hp : stranded ('.' :: p) = m := ih (missing_dot_cons_eq_zero hmissing).2 (adjacent_cons_eq_zero hadjacent).2
    obtain ⟨b, c, r, p, rfl, rfl, rfl, hb, hc⟩ := exists_beside_of_elision helision hmissing
    have hjoins : joins (some b) (some c) = true := hjoins
    rw [Option.toList_some, List.singleton_append, stranded_beside hb hc, if_pos hjoins, hp, Nat.zero_add]
  | @lose a r p m hjoins helision ih =>
    have hp : stranded ('.' :: p) = m := ih (missing_dot_cons_eq_zero hmissing).2 (adjacent_cons_eq_zero hadjacent).2
    obtain ⟨b, c, r, p, rfl, rfl, rfl, hb, hc⟩ := exists_beside_of_elision helision hmissing
    have hjoins : ¬ joins (some b) (some c) = true := Bool.eq_false_iff.mp hjoins
    rw [Option.toList_some, List.singleton_append, stranded_beside hb hc, if_neg hjoins, hp, Nat.add_comm]

/-- The operands too many in a rendering without some dots are the dots that are not written back. -/
theorem surplus_of_elision (hr : Rendering level e r) (h : Elision none r p m) :
    missing false p = 0 ∧ surplus p = m := by
  have hwhole : Whole r := whole_of_rendering hr
  have hmissing : missing false r = 0 := by simpa [missing] using hwhole.missing_append []
  have hadjacent : adjacent false r = 0 := by simpa [adjacent] using hwhole.adjacent_append []
  have hclosed : unclosed 0 r = 0 := by simpa using hwhole.unclosed_append 0 []
  refine ⟨missing_of_elision h hmissing, ?_⟩
  have hstranded : stranded p = m := stranded_of_elision h hmissing hadjacent
  rw [surplus, unclosed_of_elision h, hclosed, hstranded, Nat.zero_add]

end Pattern

open Pattern

/-- **Dots that are missing are counted.** If dots are left out of a rendering and `m` of them, at least one, stood
where completion writes none, then the operands are too many, by `m`. -/
theorem Automaton.ofPattern_of_elision {e : Expr} {r p : Text} {m : Nat} (hr : Rendering .alternation e r)
    (h : Elision none r p m) (hm : 1 ≤ m) :
    ofPattern p = .error (.operandOverflow (m + 1) (textOf (parse p)) ((parse p).length - 1)) := by
  obtain ⟨hmissing, hsurplus⟩ := surplus_of_elision hr h
  have hheight : Token.height (parse p) = m + 1 := by
    have hcount := height_parse p
    rw [hmissing, hsurplus] at hcount
    omega
  have hne : parse p ≠ [] := by
    intro hnil
    rw [hnil, Token.height_nil] at hheight
    omega
  rw [ofPattern_none]
  rcases ofPostfix_of_fed (fed_parse hmissing) hne with ⟨hone, -⟩ | ⟨-, count, hcount, herror⟩
  · omega
  · obtain rfl : count = m + 1 := by omega
    exact herror

/-- Of the three dots of `(é.a)*.b.-` the second one is written back. -/
theorem Automaton.ofPattern_of_elision_grouped :
    let e := Expr.concat (.concat (.star (.concat (.literal ['é']) (.literal ['a']))) (.literal ['b'])) (.literal ['-'])
    let r := ['(', 'é', '.', 'a', ')', '*', '.', 'b', '.', '-']
    let p := ['(', 'é', 'a', ')', '*', 'b', '-']
    Rendering .alternation e r ∧ Elision none r p 2 ∧
      ofPattern p = .error (.operandOverflow 3 ['é', 'a', '*', 'b', '-', '.'] 5) := by
  intro e r p
  have operand : ∀ c, c ∉ reserved → Rendering .repetition (.literal [c]) [c] := fun c hc => .ofAtom (.literal hc)
  have hinner : Rendering .concatenation (.concat (.literal ['é']) (.literal ['a'])) ['é', '.', 'a'] :=
    .concat (.ofRepetition (operand 'é' (by decide))) (operand 'a' (by decide))
  have hstar : Rendering .concatenation _ ['(', 'é', '.', 'a', ')', '*'] :=
    .ofRepetition (.star (.ofAtom (.group (.ofConcatenation hinner))))
  have hr : Rendering .alternation e r :=
    .ofConcatenation (.concat (.concat hstar (operand 'b' (by decide))) (operand '-' (by decide)))
  have hback : Elision (some '*') ['.', 'b', '.', '-'] ['b', '-'] 1 := .drop rfl (.keep (.lose rfl (.keep .nil)))
  have hp : Elision none r p 2 := .keep (.keep (.lose rfl (.keep (.keep (.keep hback)))))
  exact ⟨hr, hp, ofPattern_of_elision hr hp (by decide)⟩

end PatternAutomata
