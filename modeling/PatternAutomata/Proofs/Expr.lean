import Mathlib.Algebra.BigOperators.Group.List.Basic
import Mathlib.Algebra.Order.Ring.Int
import Mathlib.Computability.Language
import PatternAutomata.Token

/-!
# Expressions

The trees that patterns and lists of postfix tokens stand for.

* `Expr.postorder` — the tokens of a tree, operands before their operator;
* `Expr.language` — the words that a tree describes, where the literal of the empty symbol describes the empty word, and
  `Expr.texts` — the texts;
* `Expr.foldlM_take_postorder`, `Expr.flatMap_postorder_of_foldlM_take` — a stack of trees reads a list of tokens back, so
  a list is the postorder of one tree at most;
* `Expr.length_of_foldlM_take` — how long the stack gets.
-/

namespace PatternAutomata

open scoped Computability

/-- By how much a token makes a stack of operands longer. -/
def Token.weight : Token → ℤ
  | literal _ => 1
  | operator o => 1 - o.arity
  | foreign _ => 0

/-- An expression. -/
inductive Expr
  | literal (symbol : Symbol)
  | star (inner : Expr)
  | concat (first second : Expr)
  | alternate (first second : Expr)
deriving DecidableEq, Repr

namespace Expr

/-- The tokens of an expression, every operator behind its operands. -/
def postorder : Expr → List Token
  | literal symbol => [.literal symbol]
  | star inner => inner.postorder ++ [.operator .star]
  | concat first second => first.postorder ++ second.postorder ++ [.operator .concat]
  | alternate first second => first.postorder ++ second.postorder ++ [.operator .alternate]

/-- The words that an expression describes. -/
def language : Expr → Language Symbol
  | literal symbol => if symbol = Symbol.epsilon then 1 else {[symbol]}
  | star inner => inner.language∗
  | concat first second => first.language * second.language
  | alternate first second => first.language + second.language

/-- The texts that an expression describes, where the symbol of a literal is read character by character. -/
def texts : Expr → Language Char
  | literal symbol => {symbol}
  | star inner => inner.texts∗
  | concat first second => first.texts * second.texts
  | alternate first second => first.texts + second.texts

/-! ### Reading postorder back -/

/-- Takes a token on a stack of expressions, the latest first. -/
def take? : List Expr → Token → Option (List Expr)
  | es, .literal symbol => some (literal symbol :: es)
  | inner :: es, .operator .star => some (star inner :: es)
  | second :: first :: es, .operator .concat => some (concat first second :: es)
  | second :: first :: es, .operator .alternate => some (alternate first second :: es)
  | _, _ => none

theorem foldlM_take_postorder (e : Expr) (es : List Expr) : e.postorder.foldlM take? es = some (e :: es) := by
  induction e generalizing es with
  | literal symbol => rfl
  | star inner ih =>
    rw [postorder, List.foldlM_append, ih]
    rfl
  | concat first second ihf ihs =>
    rw [postorder, List.foldlM_append, List.foldlM_append, ihf, Option.bind_eq_bind, Option.bind_some, ihs]
    rfl
  | alternate first second ihf ihs =>
    rw [postorder, List.foldlM_append, List.foldlM_append, ihf, Option.bind_eq_bind, Option.bind_some, ihs]
    rfl

/-- What a stack holds spells the tokens that were taken. -/
theorem flatMap_postorder_of_take {es es' : List Expr} {t : Token} (h : take? es t = some es') :
    es'.reverse.flatMap postorder = es.reverse.flatMap postorder ++ [t] := by
  unfold take? at h
  split at h <;> cases h <;> simp [postorder]

theorem flatMap_postorder_of_foldlM_take {ts : List Token} {es es' : List Expr} (h : ts.foldlM take? es = some es') :
    es'.reverse.flatMap postorder = es.reverse.flatMap postorder ++ ts := by
  induction ts generalizing es with
  | nil => cases h; simp
  | cons t ts ih =>
    rw [List.foldlM_cons] at h
    obtain ⟨mid, hmid, hrest⟩ := Option.bind_eq_some_iff.mp h
    rw [ih hrest, flatMap_postorder_of_take hmid]
    simp

theorem postorder_injective : Function.Injective postorder := by
  intro e f h
  have he := foldlM_take_postorder e []
  rw [h, foldlM_take_postorder f []] at he
  simpa [eq_comm] using he

/-- A stack grows by the weights of the tokens. -/
theorem length_of_foldlM_take {ts : List Token} {es es' : List Expr} (h : ts.foldlM take? es = some es') :
    (es'.length : ℤ) = es.length + (ts.map Token.weight).sum := by
  induction ts generalizing es with
  | nil => cases h; simp
  | cons t ts ih =>
    rw [List.foldlM_cons] at h
    obtain ⟨mid, hmid, hrest⟩ := Option.bind_eq_some_iff.mp h
    have hlength : (mid.length : ℤ) = es.length + t.weight := by
      unfold take? at hmid
      split at hmid <;> cases hmid <;> simp only [List.length_cons, Token.weight, Operator.arity] <;> omega
    rw [ih hrest, hlength, List.map_cons, List.sum_cons]
    omega

theorem sum_weight_postorder (e : Expr) : (e.postorder.map Token.weight).sum = 1 := by
  simpa using (length_of_foldlM_take (foldlM_take_postorder e [])).symm

end Expr
end PatternAutomata
