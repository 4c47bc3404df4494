import PatternAutomata.Proofs.Expr
import PatternAutomata.Proofs.Postfix

/-!
# Renderings in postfix order

A rendering writes an expression as a pattern with all dots, and with any parentheses beyond those that are needed. It is
put into postfix order as the postorder of the expression (`toPostfix_of_rendering`).

An operator comes out of the stack no sooner than the next one that binds as loosely arrives. So the tokens of a rendering
have come out of the pattern up to some operators that still wait, none of which binds more loosely than the level of the
rendering, and this is what the induction on renderings proves (`emits_of_rendering`). Since postorders can be read back, a
pattern is a rendering of one expression at most (`toPostfix_inverts_rendering`).
-/

namespace PatternAutomata.Pattern

/-- The levels of patterns, from those that an operator binds most loosely to those without one. -/
inductive Level
  | alternation
  | concatenation
  | repetition
  | atom
deriving DecidableEq, Repr

/-- No operator outside of parentheses binds more loosely. -/
def Level.precedence : Level → Nat
  | alternation => 1
  | concatenation => 2
  | repetition => 3
  | atom => 4

/-- The text writes the expression at a level, with all dots. -/
inductive Rendering : Level → Expr → Text → Prop
  | literal {c : Char} : c ∉ reserved → Rendering .atom (.literal [c]) [c]
  | group {e : Expr} {r : Text} : Rendering .alternation e r → Rendering .atom e ('(' :: r ++ [')'])
  | ofAtom {e : Expr} {r : Text} : Rendering .atom e r → Rendering .repetition e r
  | star {e : Expr} {r : Text} : Rendering .repetition e r → Rendering .repetition (.star e) (r ++ ['*'])
  | ofRepetition {e : Expr} {r : Text} : Rendering .repetition e r → Rendering .concatenation e r
  | concat {first second : Expr} {r s : Text} :
    Rendering .concatenation first r → Rendering .repetition second s →
      Rendering .concatenation (.concat first second) (r ++ '.' :: s)
  | ofConcatenation {e : Expr} {r : Text} : Rendering .concatenation e r → Rendering .alternation e r
  | alternate {first second : Expr} {r s : Text} :
    Rendering .alternation first r → Rendering .concatenation second s →
      Rendering .alternation (.alternate first second) (r ++ '|' :: s)

/-! ### Renderings -/

/-- Wherever the text stands, its tokens come out of it up to some operators, and these wait until one that binds more
loosely than `n` says arrives. -/
def Emits (n : Nat) (r : Text) (ts : List Token) : Prop :=
  ∃ (out : List Token) (waiting : List Operator), out ++ waiting.map .operator = ts ∧
    (∀ o ∈ waiting, n ≤ o.precedence) ∧
    ∀ stack rest, Settled n stack →
      toPostfixFrom stack (r ++ rest) = out ++ toPostfixFrom (waiting.map .operator ++ stack) rest

namespace Emits

variable {m n : Nat} {r s : Text} {ts us : List Token}

theorem mono (h : Emits n r ts) (hle : m ≤ n) : Emits m r ts := by
  obtain ⟨out, waiting, hout, hwaiting, hread⟩ := h
  exact ⟨out, waiting, hout, fun o ho => Nat.le_trans hle (hwaiting o ho), fun stack rest hstack =>
    hread stack rest (hstack.mono hle)⟩

theorem operand {c : Char} (h : c ∉ reserved) : Emits n [c] [.literal [c]] := by
  refine ⟨[.literal [c]], [], rfl, by simp, fun stack rest _ => ?_⟩
  exact toPostfixFrom_literal h

theorem group (h : Emits m r ts) : Emits n ('(' :: r ++ [')']) ts := by
  obtain ⟨out, waiting, hout, -, hread⟩ := h
  refine ⟨ts, [], List.append_nil ts, by simp, fun stack rest _ => ?_⟩
  have hstack : Settled m (.group :: stack) := trivial
  rw [List.cons_append, List.cons_append, toPostfixFrom_open, List.append_assoc, hread _ _ hstack, List.singleton_append,
    toPostfixFrom_waiting_close, ← List.append_assoc, hout]
  rfl

theorem star (h : Emits Operator.star.precedence r ts) :
    Emits Operator.star.precedence (r ++ [Operator.star.symbol]) (ts ++ [.operator .star]) := by
  obtain ⟨out, waiting, hout, hwaiting, hread⟩ := h
  refine ⟨ts, [.star], rfl, by simp, fun stack rest hstack => ?_⟩
  rw [List.append_assoc, hread _ _ hstack, List.singleton_append, toPostfixFrom_waiting_operator hwaiting hstack,
    ← List.append_assoc, hout]
  rfl

/-- The operator releases what waits in front of it, and then waits itself. -/
theorem binary (o : Operator) (h : Emits o.precedence r ts) (h' : Emits (o.precedence + 1) s us) :
    Emits o.precedence (r ++ o.symbol :: s) (ts ++ us ++ [.operator o]) := by
  obtain ⟨out, waiting, hout, hwaiting, hread⟩ := h
  obtain ⟨out', waiting', hout', hwaiting', hread'⟩ := h'
  refine ⟨ts ++ out', waiting' ++ [o], by simp [← hout'], fun p hp => ?_, fun stack rest hstack => ?_⟩
  · rcases List.mem_append.mp hp with hp | hp
    · exact Nat.le_of_succ_le (hwaiting' p hp)
    · rw [List.mem_singleton.mp hp]
  · have hsettled : Settled (o.precedence + 1) (.operator o :: stack) := Nat.lt_succ_self _
    rw [List.append_assoc, hread _ _ hstack, List.cons_append, toPostfixFrom_waiting_operator hwaiting hstack,
      hread' _ _ hsettled, ← List.append_assoc, hout]
    simp

end Emits

theorem emits_of_rendering {level : Level} {e : Expr} {r : Text} (h : Rendering level e r) :
    Emits level.precedence r e.postorder := by
  induction h with
  | literal hc => exact .operand hc
  | group _ ih => exact ih.group
  | ofAtom _ ih => exact ih.mono (by decide)
  | star _ ih => exact ih.star
  | ofRepetition _ ih => exact ih.mono (by decide)
  | concat _ _ ihf ihs => exact ihf.binary .concat ihs
  | ofConcatenation _ ih => exact ih.mono (by decide)
  | alternate _ _ ihf ihs => exact ihf.binary .alternate ihs

/-- **The postfix order of a rendering is the postorder of its expression.** -/
theorem toPostfix_of_rendering {level : Level} {e : Expr} {r : Text} (h : Rendering level e r) :
    toPostfix r = e.postorder := by
  obtain ⟨out, waiting, hout, -, hread⟩ := emits_of_rendering h
  have hread := hread [] [] trivial
  rw [List.append_nil, List.append_nil, toPostfixFrom_waiting_nil, hout] at hread
  exact hread

/-- **Postfix order inverts renderings**: it gives the postorder of the expression that is written, and the text writes no
other one. -/
theorem toPostfix_inverts_rendering {e : Expr} {r : Text} (h : Rendering .alternation e r) :
    toPostfix r = e.postorder ∧ ∀ f, Rendering .alternation f r → f = e := by
  have hpostorder : toPostfix r = e.postorder := toPostfix_of_rendering h
  refine ⟨hpostorder, fun f hf => ?_⟩
  apply Expr.postorder_injective
  rw [← hpostorder, toPostfix_of_rendering hf]

/-- A star waits in a group, which is closed in front of an operator that binds more tightly than the one in the group. -/
theorem toPostfix_inverts_rendering_grouped :
    let either := Expr.alternate (.literal ['a']) (.star (.literal ['b']))
    let e := Expr.alternate (.concat (.concat either (.literal ['c'])) (.literal ['d'])) (.star (.literal ['é']))
    let r := "(a|b*).((c)).d|é*".toList
    Rendering .alternation e r ∧ toPostfix r = tokenize "ab*|c.d.é*|".toList := by
  intro either e r
  have operand : ∀ c, c ∉ reserved → Rendering .repetition (.literal [c]) [c] := fun c hc => .ofAtom (.literal hc)
  have widen : ∀ {f : Expr} {s : Text}, Rendering .repetition f s → Rendering .alternation f s := fun h =>
    .ofConcatenation (.ofRepetition h)
  have heither : Rendering .alternation either ['a', '|', 'b', '*'] :=
    .alternate (widen (operand 'a' (by decide))) (.ofRepetition (.star (operand 'b' (by decide))))
  have hdoubled : Rendering .repetition (.literal ['c']) ['(', '(', 'c', ')', ')'] :=
    .ofAtom (.group (widen (.ofAtom (.group (widen (operand 'c' (by decide)))))))
  have hr : Rendering .alternation e r :=
    .alternate
      (.ofConcatenation (.concat (.concat (.ofRepetition (.ofAtom (.group heither))) hdoubled) (operand 'd' (by decide))))
      (.ofRepetition (.star (operand 'é' (by decide))))
  refine ⟨hr, ?_⟩
  rw [(toPostfix_inverts_rendering hr).1]
  rfl

end PatternAutomata.Pattern
