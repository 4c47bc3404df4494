import PatternAutomata.Proofs.Alphabet
import PatternAutomata.Proofs.Conservation
import PatternAutomata.Proofs.Outcome

/-!
# An alphabet only refuses

The alphabet of a pattern is looked at before anything else. It refuses the pattern for its first character that is neither
in it nor has a meaning of its own, or it makes no difference at all, so a larger alphabet refuses fewer patterns and changes
no automaton. Without an alphabet no character is refused: the tokens of a pattern are literals and operators only. Every
automaton has states, so a result passes for a success just if the pattern compiles.

* `Automaton.foreign_mem_of_ofPostfix` — a symbol is reported from a list of tokens only if it is no token;
* `Automaton.ofPattern_of_subset` — larger alphabets;
* `compile_outcome` — what `compile` answers, and what an alphabet changes about it.
-/

namespace PatternAutomata

open Pattern Token

namespace Automaton

variable {p : Text} {alphabet : Option Alphabet} {A : Automaton}

theorem size_ne_zero_of_ofPattern (h : ofPattern p alphabet = .ok A) : A.size ≠ 0 := by
  have hbuilt : ofPostfix (parse p) = .ok A := by
    rw [← ofPattern_none]
    cases alphabet with
    | none => exact h
    | some alphabet => exact (ofPattern_some_eq_ok_iff.mp h).2
  obtain ⟨e, -, rfl⟩ := ofPostfix_eq_ok_iff.mp hbuilt
  exact Nat.ne_zero_of_lt e.initial_lt_size_automaton

/-- A symbol is reported from a list of tokens only if it stands among them and is no token. -/
theorem foreign_mem_of_ofPostfix {ts : List Token} {symbol : Value} {source : Text} {i : Nat}
    (h : ofPostfix ts = .error (.unexpectedSymbol symbol source i)) : .foreign symbol ∈ ts := by
  rcases ofPostfix_error_cases h with ⟨-, he⟩ | ⟨j, v, -, hv, he⟩ | ⟨j, o, -, -, he⟩ | ⟨count, -, -, -, -, he⟩
  · cases he
  · cases he
    exact List.mem_of_getElem? hv
  · cases he
  · cases he

/-- Without an alphabet no character is refused. -/
theorem ofPattern_ne_unexpectedSymbol (p : Text) (symbol : Value) (source : Text) (i : Nat) :
    ofPattern p ≠ .error (.unexpectedSymbol symbol source i) :=
  fun h => foreign_notMem_toPostfix symbol (complete p) (foreign_mem_of_ofPostfix h)

theorem ofPattern_of_subset {smaller larger : Alphabet} (hsubset : smaller ⊆ larger)
    (h : ofPattern p (some smaller) = .ok A) : ofPattern p (some larger) = .ok A := by
  obtain ⟨hallows, hok⟩ := ofPattern_some_eq_ok_iff.mp h
  have hadmits : ∀ c ∈ p, larger.Admits c := fun c hc =>
    (Alphabet.allows_iff.mp (hallows c hc)).imp_right fun hmem => hsubset hmem
  rw [ofPattern_of_admits hadmits, hok]

end Automaton

/-! ### Results -/

section Results

variable {p : Text} {alphabet : Option Alphabet} {A : Automaton} {e : CompileError}

theorem compile_eq_ok_iff : compile p alphabet = .ok A ↔ Automaton.ofPattern p alphabet = .ok A := by
  rw [compile]
  cases Automaton.ofPattern p alphabet with
  | ok B => simp
  | error e => simp

theorem compile_of_error (h : Automaton.ofPattern p alphabet = .error e) : compile p alphabet = .error ⟨p, e⟩ := by
  rw [compile, h]

theorem isSuccess_eq_false_iff :
    isSuccess (compile p alphabet) = false ↔ ∃ e, Automaton.ofPattern p alphabet = .error e := by
  cases h : Automaton.ofPattern p alphabet with
  | error e => exact iff_of_true (by rw [compile_of_error h, isSuccess]) ⟨e, rfl⟩
  | ok A =>
    refine iff_of_false ?_ fun ⟨e, he⟩ => nomatch he
    rw [compile_eq_ok_iff.mpr h, isSuccess]
    simpa using Automaton.size_ne_zero_of_ofPattern h

end Results

/-- **What `compile` answers, and what an alphabet changes about it.** The result is the automaton of the pattern, which has
states, or a failure with the pattern and the error, and it passes for a success just if there is no error. An alphabet
refuses the first character that is neither in it nor has a meaning of its own, whatever else is wrong; if there is none, the
result is that without an alphabet, where no character is refused. So a larger alphabet gives the same automaton. -/
theorem compile_outcome (p : Text) :
    (∀ alphabet,
        (isSuccess (compile p alphabet) = false ↔ ∃ e, Automaton.ofPattern p alphabet = .error e) ∧
        (∀ e, Automaton.ofPattern p alphabet = .error e → compile p alphabet = .error ⟨p, e⟩) ∧
        ∀ A, Automaton.ofPattern p alphabet = .ok A → compile p alphabet = .ok A ∧ A.size ≠ 0) ∧
      (∀ alphabet : Alphabet, (∃ c ∈ p, ¬ alphabet.Admits c) →
        ∃ i c, alphabet.FirstRefused p i c ∧
          compile p (some alphabet) = .error ⟨p, .unexpectedSymbol (.text [c]) p i⟩) ∧
      (∀ alphabet : Alphabet, (∀ c ∈ p, alphabet.Admits c) →
        Automaton.ofPattern p (some alphabet) = Automaton.ofPattern p ∧ compile p (some alphabet) = compile p) ∧
      (∀ symbol source i, Automaton.ofPattern p ≠ .error (.unexpectedSymbol symbol source i)) ∧
      ∀ smaller larger : Alphabet, smaller ⊆ larger →
        ∀ A, compile p (some smaller) = .ok A → compile p (some larger) = .ok A := by
  refine ⟨fun alphabet => ⟨isSuccess_eq_false_iff, fun e => compile_of_error, fun A hok => ?_⟩, ?_, ?_, ?_, ?_⟩
  · exact ⟨compile_eq_ok_iff.mpr hok, Automaton.size_ne_zero_of_ofPattern hok⟩
  · rintro alphabet ⟨c, hc, hrefused⟩
    rcases alphabet.exists_firstRefused_or p with ⟨i, d, hfirst⟩ | hadmits
    · exact ⟨i, d, hfirst, compile_of_error (Automaton.ofPattern_of_firstRefused hfirst)⟩
    · exact absurd (hadmits c hc) hrefused
  · intro alphabet hadmits
    have hsame : Automaton.ofPattern p (some alphabet) = Automaton.ofPattern p := Automaton.ofPattern_of_admits hadmits
    exact ⟨hsame, by rw [compile, hsame, compile]⟩
  · exact Automaton.ofPattern_ne_unexpectedSymbol p
  · intro smaller larger hsubset A hok
    exact compile_eq_ok_iff.mpr (Automaton.ofPattern_of_subset hsubset (compile_eq_ok_iff.mp hok))

/-- The letter `a` alone refuses the pattern `ab`; with `b` it compiles, and so it does with one letter more. -/
theorem compile_outcome_enlarged :
    let p := ['a', 'b']
    let tooSmall := Alphabet.ofText ['a']
    let enough := Alphabet.ofText ['a', 'b']
    let larger := Alphabet.ofText ['c', 'b', 'a']
    (∃ c ∈ p, ¬ tooSmall.Admits c) ∧ isSuccess (compile p (some tooSmall)) = false ∧
      (∃ i c, tooSmall.FirstRefused p i c ∧
        compile p (some tooSmall) = .error ⟨p, .unexpectedSymbol (.text [c]) p i⟩) ∧
      (∀ c ∈ p, enough.Admits c) ∧ enough ⊆ larger ∧
      ∃ A, Automaton.ofPattern p = .ok A ∧ A.size ≠ 0 ∧ compile p (some enough) = .ok A ∧
        compile p (some larger) = .ok A := by
  intro p tooSmall enough larger
  obtain ⟨hresult, hrefuses, hadmits, -, hsubset⟩ := compile_outcome p
  have hb : ∃ c ∈ p, ¬ tooSmall.Admits c := ⟨'b', by decide, by decide⟩
  have hall : ∀ c ∈ p, enough.Admits c :=
    List.forall_mem_cons.mpr ⟨by decide, List.forall_mem_singleton.mpr (by decide)⟩
  have hlarger : enough ⊆ larger := by decide
  have hrefused : Automaton.ofPattern p (some tooSmall) = .error (.unexpectedSymbol (.text ['b']) p 1) := by decide
  have hok : ∃ A, Automaton.ofPattern p = .ok A := ⟨_, rfl⟩
  obtain ⟨A, hok⟩ := hok
  have hcompiled : compile p (some enough) = .ok A := (hadmits enough hall).2.trans ((hresult none).2.2 A hok).1
  exact ⟨hb, (hresult (some tooSmall)).1.mpr ⟨_, hrefused⟩, hrefuses tooSmall hb, hall, hlarger, A, hok,
    ((hresult none).2.2 A hok).2, hcompiled, hsubset enough larger hlarger A hcompiled⟩

end PatternAutomata
