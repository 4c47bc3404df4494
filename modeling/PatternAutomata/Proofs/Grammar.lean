import PatternAutomata.Compilation
import PatternAutomata.Proofs.Construction
import PatternAutomata.Proofs.Surplus

/-!
# The grammar of patterns

Nothing checks that a pattern is well formed. A pattern is refused because too few or too many operands are left in the
end, and over letters, digits, operators and parentheses this count tells the patterns of a grammar from all others
(`Automaton.ofPattern_isOk_iff_derives`).

* `gaps` — the places of a pattern where an operand is missing. Completion writes a dot wherever an operand follows another
  one, so no surplus makes up for a gap: the tokens that come out leave `1 - gaps` operands (`sum_weight_parse_of_closed`).
* `derives_of_gaps_eq_zero` — a pattern without gaps is in the grammar. It is read from the left, and what was read is
  `Awaits` the next operand, in some groups.
* `exists_rendering_of_derives` — the completion of what is in the grammar is a rendering.
-/

namespace PatternAutomata

open Pattern

namespace Pattern

/-- The text is in the grammar of patterns, at a level. Operands are letters and digits. -/
inductive Derives : Level → Text → Prop
  | letter {c : Char} : c.isAlphanum = true → Derives .atom [c]
  | group {r : Text} : Derives .alternation r → Derives .atom ('(' :: r ++ [')'])
  | ofAtom {r : Text} : Derives .atom r → Derives .repetition r
  | star {r : Text} : Derives .repetition r → Derives .repetition (r ++ ['*'])
  | ofRepetition {r : Text} : Derives .repetition r → Derives .concatenation r
  | dot {r s : Text} : Derives .concatenation r → Derives .repetition s → Derives .concatenation (r ++ '.' :: s)
  | juxtapose {r s : Text} : Derives .concatenation r → Derives .repetition s → Derives .concatenation (r ++ s)
  | ofConcatenation {r : Text} : Derives .concatenation r → Derives .alternation r
  | bar {r s : Text} : Derives .alternation r → Derives .concatenation s → Derives .alternation (r ++ '|' :: s)

/-! ### Renderings of what is in the grammar -/

/-- The text begins and ends as an operand does. -/
def Bounded (r : Text) : Prop :=
  (∃ c, r.head? = some c ∧ isStarter c = true) ∧ ∃ c, r.getLast? = some c ∧ isEnder c = true

theorem Bounded.append {r s : Text} (hr : Bounded r) (hs : Bounded s) (between : Text) : Bounded (r ++ between ++ s) := by
  obtain ⟨⟨c, hc, hstarter⟩, -⟩ := hr
  obtain ⟨-, d, hd, hender⟩ := hs
  refine ⟨⟨c, ?_, hstarter⟩, ⟨d, ?_, hender⟩⟩
  · rw [List.append_assoc, List.head?_append, hc, Option.some_or]
  · rw [List.getLast?_append, hd, Option.some_or]

theorem Derives.bounded {level : Level} {r : Text} (h : Derives level r) : Bounded r := by
  induction h with
  | @letter c hc => exact ⟨⟨c, rfl, by simp [isStarter, hc]⟩, ⟨c, rfl, by simp [isEnder, hc]⟩⟩
  | @group r _ _ => exact ⟨⟨'(', rfl, rfl⟩, ⟨')', by rw [List.getLast?_append]; rfl, rfl⟩⟩
  | ofAtom _ ih => exact ih
  | @star r _ ih =>
    obtain ⟨⟨c, hc, hstarter⟩, -⟩ := ih
    exact ⟨⟨c, by rw [List.head?_append, hc, Option.some_or], hstarter⟩, ⟨'*', List.getLast?_concat, rfl⟩⟩
  | ofRepetition _ ih => exact ih
  | dot _ _ ihr ihs => simpa using ihr.append ihs ['.']
  | juxtapose _ _ ihr ihs => simpa using ihr.append ihs []
  | ofConcatenation _ ih => exact ih
  | bar _ _ ihr ihs => simpa using ihr.append ihs ['|']

theorem not_reserved_of_isAlphanum {c : Char} (h : c.isAlphanum = true) : c ∉ reserved := by
  intro hc
  rcases mem_reserved_iff.mp hc with rfl | rfl | rfl | rfl | rfl <;> exact absurd h (by decide)

theorem exists_rendering_of_derives {level : Level} {r : Text} (h : Derives level r) :
    ∃ e, Rendering level e (complete r) := by
  induction h with
  | @letter c hc => exact ⟨.literal [c], .literal (not_reserved_of_isAlphanum hc)⟩
  | group _ ih =>
    obtain ⟨e, he⟩ := ih
    rw [complete_append_of_joins_eq_false (joins_eq_false_of_not_starter (by decide)),
      complete_cons_eq (joins_eq_false_of_not_ender (by decide))]
    exact ⟨e, .group he⟩
  | ofAtom _ ih => exact ih.imp fun _ => .ofAtom
  | star _ ih =>
    obtain ⟨e, he⟩ := ih
    rw [complete_append_of_joins_eq_false (joins_eq_false_of_not_starter (by decide))]
    exact ⟨.star e, .star he⟩
  | ofRepetition _ ih => exact ih.imp fun _ => .ofRepetition
  | dot _ _ ihr ihs =>
    obtain ⟨e, he⟩ := ihr
    obtain ⟨f, hf⟩ := ihs
    rw [complete_append_cons (by decide) (by decide)]
    exact ⟨.concat e f, .concat he hf⟩
  | juxtapose hr hs ihr ihs =>
    obtain ⟨e, he⟩ := ihr
    obtain ⟨f, hf⟩ := ihs
    obtain ⟨-, c, hc, hender⟩ := hr.bounded
    obtain ⟨⟨d, hd, hstarter⟩, -⟩ := hs.bounded
    have hjoins : joins (some c) (some d) = true := by simp [joins, hender, hstarter]
    rw [complete_append, hc, hd, if_pos hjoins, List.append_assoc, List.singleton_append]
    exact ⟨.concat e f, .concat he hf⟩
  | ofConcatenation _ ih => exact ih.imp fun _ => .ofConcatenation
  | bar _ _ ihr ihs =>
    obtain ⟨e, he⟩ := ihr
    obtain ⟨f, hf⟩ := ihs
    rw [complete_append_cons (by decide) (by decide)]
    exact ⟨.alternate e f, .alternate he hf⟩

/-! ### Gaps -/

/-- The number of places where an operand is missing, `held` if one ends in front of the text. -/
def gaps (held : Bool) : Text → Nat
  | [] => if held then 0 else 1
  | c :: p => (if held || isStarter c then 0 else 1) + gaps (isEnder c) p

/-- The text is made of letters, digits, operators and parentheses. -/
def Plain (p : Text) : Prop := ∀ c ∈ p, c.isAlphanum = true ∨ c ∈ reserved

theorem Plain.groups {p : Text} {k : Nat} (h : Plain p) : Plain (List.replicate k '(' ++ p) := by
  intro c hc
  rcases List.mem_append.mp hc with hc | hc
  · rw [List.eq_of_mem_replicate hc]
    exact Or.inr (by decide)
  · exact h c hc

/-- On plain characters completion knows where an operand ends, and where one begins. -/
theorem endsOperand_eq_isEnder {c : Char} (h : c.isAlphanum = true ∨ c ∈ reserved) : endsOperand c = isEnder c := by
  rcases h with h | h
  · simp [endsOperand, isEnder, h, not_reserved_of_isAlphanum h]
  · rcases mem_reserved_iff.mp h with rfl | rfl | rfl | rfl | rfl <;> rfl

theorem startsOperand_eq_isStarter {c : Char} (h : c.isAlphanum = true ∨ c ∈ reserved) :
    startsOperand c = isStarter c := by
  rcases h with h | h
  · simp [startsOperand, isStarter, h, not_reserved_of_isAlphanum h]
  · rcases mem_reserved_iff.mp h with rfl | rfl | rfl | rfl | rfl <;> rfl

theorem missing_eq_gaps {p : Text} (h : Plain p) (held : Bool) : missing held p = gaps held p := by
  induction p generalizing held with
  | nil => rfl
  | cons c p ih =>
    obtain ⟨hc, hp⟩ := List.forall_mem_cons.mp h
    rw [missing, gaps, startsOperand_eq_isStarter hc, endsOperand_eq_isEnder hc, ih hp]

/-- Completion joins all neighbours. -/
theorem stranded_eq_zero {p : Text} (h : Plain p) : stranded p = 0 := by
  rw [stranded, List.countP_eq_zero]
  rintro ⟨a, b⟩ hab
  obtain ⟨ha, hb⟩ := List.of_mem_zip hab
  simp [endsOperand_eq_isEnder (h a ha), startsOperand_eq_isStarter (h b (List.mem_of_mem_tail hb)), joins]

/-- **The number of operands that a pattern leaves shows its gaps.** -/
theorem height_parse_of_closed {p : Text} (hplain : Plain p) (hclosed : unclosed 0 p = 0) :
    Token.height (parse p) = 1 - gaps false p := by
  have hheight := height_parse p
  rw [surplus, hclosed, stranded_eq_zero hplain, missing_eq_gaps hplain] at hheight
  omega

/-! ### Patterns without gaps -/

/-- In an alternation the text is followed by a repetition. -/
def Front (u : Text) : Prop :=
  ∃ x y, u = x ++ y ∧ (∀ r, Derives .concatenation r → Derives .alternation (x ++ r)) ∧
    ∀ r, Derives .repetition r → Derives .concatenation (y ++ r)

/-- The text is followed by a repetition, in `d` groups. -/
inductive Awaits : Nat → Text → Prop
  | front {u : Text} : Front u → Awaits 0 u
  | group {d : Nat} {outer inner : Text} : Awaits d outer → Front inner → Awaits (d + 1) (outer ++ '(' :: inner)

section Awaits

variable {d : Nat} {u r s : Text}

theorem Front.nil : Front [] :=
  ⟨[], [], rfl, fun _ h => .ofConcatenation h, fun _ h => .ofRepetition h⟩

theorem Front.derives (h : Front u) (hr : Derives .repetition r) : Derives .alternation (u ++ r) := by
  obtain ⟨x, y, rfl, halternation, hconcatenation⟩ := h
  rw [List.append_assoc]
  exact halternation _ (hconcatenation r hr)

theorem Front.juxtapose (h : Front u) (hr : Derives .repetition r) : Front (u ++ r) := by
  obtain ⟨x, y, rfl, halternation, hconcatenation⟩ := h
  exact ⟨x, y ++ r, List.append_assoc x y r, halternation, fun _ hs => (hconcatenation r hr).juxtapose hs⟩

theorem Front.dot (h : Front u) (hr : Derives .repetition r) : Front (u ++ r ++ ['.']) := by
  obtain ⟨x, y, rfl, halternation, hconcatenation⟩ := h
  refine ⟨x, y ++ r ++ ['.'], by simp, halternation, fun s hs => ?_⟩
  rw [List.append_assoc, List.singleton_append]
  exact (hconcatenation r hr).dot hs

theorem Front.bar (h : Front u) (hr : Derives .repetition r) : Front (u ++ r ++ ['|']) := by
  refine ⟨u ++ r ++ ['|'], [], by simp, fun s hs => ?_, fun _ hs => .ofRepetition hs⟩
  rw [List.append_assoc, List.singleton_append]
  exact (h.derives hr).bar hs

/-- What goes on at the front of a pattern goes on in its groups. -/
theorem Awaits.append (h : Awaits d u) (hs : ∀ v, Front v → Front (v ++ s)) : Awaits d (u ++ s) := by
  cases h with
  | front h => exact .front (hs _ h)
  | group houter hinner =>
    rw [List.append_assoc, List.cons_append]
    exact .group houter (hs _ hinner)

theorem Awaits.open (h : Awaits d u) : Awaits (d + 1) (u ++ ['(']) := .group h .nil

/-- The text ends with a repetition, if one is `held`, and is followed by one if not, in `d` groups. -/
inductive Read : Bool → Nat → Text → Prop
  | awaiting {d : Nat} {u : Text} : Awaits d u → Read false d u
  | holding {d : Nat} {u r : Text} : Awaits d u → Derives .repetition r → Read true d (u ++ r)

theorem Read.derives (h : Read true 0 u) : Derives .alternation u := by
  cases h with
  | holding hu hr =>
    cases hu with
    | front hu => exact hu.derives hr

/-- A repetition may follow what is held, without a dot. -/
theorem Read.awaits {held : Bool} (h : Read held d u) : Awaits d u := by
  cases h with
  | awaiting hu => exact hu
  | holding hu hr => exact hu.append fun _ hv => hv.juxtapose hr

theorem Read.step_starter {held : Bool} {c : Char} (h : Read held d u) (hplain : c.isAlphanum = true ∨ c ∈ reserved)
    (hstarter : isStarter c = true) : Read (isEnder c) (unclosed d [c]) (u ++ [c]) := by
  rcases hplain with hc | hc
  · have hender : isEnder c = true := by simp [isEnder, hc]
    have hopen : c ≠ '(' := by rintro rfl; exact absurd hc (by decide)
    have hclose : c ≠ ')' := by rintro rfl; exact absurd hc (by decide)
    rw [hender, unclosed_other hopen hclose]
    exact .holding h.awaits (.ofAtom (.letter hc))
  · rcases mem_reserved_iff.mp hc with rfl | rfl | rfl | rfl | rfl
    · exact .awaiting h.awaits.open
    all_goals exact absurd hstarter (by decide)

/-- Any other character can be read behind an operand, if it closes no group but an open one. -/
theorem Read.step_held {c : Char} (h : Read true d u) (hc : c ∈ reserved) (hstarter : isStarter c = false)
    (hopened : unopened d [c] = 0) : Read (isEnder c) (unclosed d [c]) (u ++ [c]) := by
  obtain - | @⟨_, u, r, hu, hr⟩ := h
  rcases mem_reserved_iff.mp hc with rfl | rfl | rfl | rfl | rfl
  · exact absurd hstarter (by decide)
  · -- the group that is closed becomes what is held
    cases hu with
    | front _ => cases hopened
    | @group d outer inner houter hinner =>
      have hgroup : outer ++ '(' :: inner ++ r ++ [')'] = outer ++ ('(' :: (inner ++ r) ++ [')']) := by simp
      rw [hgroup]
      exact .holding houter (.ofAtom (.group (hinner.derives hr)))
  · rw [List.append_assoc]
    exact .holding hu hr.star
  · rw [List.append_assoc]
    exact .awaiting (hu.append fun v hv => by simpa using hv.dot hr)
  · rw [List.append_assoc]
    exact .awaiting (hu.append fun v hv => by simpa using hv.bar hr)

/-- **A pattern without gaps is read to its end**, if it closes no groups but those that are open. -/
theorem Read.append {held : Bool} {p : Text} (h : Read held d u) (hplain : Plain p) (hgaps : gaps held p = 0)
    (hopened : unopened d p = 0) : Read true (unclosed d p) (u ++ p) := by
  induction p generalizing held d u with
  | nil =>
    cases held with
    | false => cases hgaps
    | true =>
      rw [List.append_nil]
      exact h
  | cons c p ih =>
    obtain ⟨hc, hplain⟩ := List.forall_mem_cons.mp hplain
    rw [gaps, Nat.add_eq_zero_iff] at hgaps
    rw [unopened_cons, Nat.add_eq_zero_iff] at hopened
    have hstep : Read (isEnder c) (unclosed d [c]) (u ++ [c]) := by
      cases hstarter : isStarter c with
      | true => exact h.step_starter hc hstarter
      | false =>
        cases held with
        | false => simp [hstarter] at hgaps
        | true =>
          have hreserved : c ∈ reserved := hc.resolve_left fun hc => by simp [isStarter, hc] at hstarter
          exact h.step_held hreserved hstarter hopened.1
    rw [unclosed_cons, List.append_cons]
    exact ih hstep hplain hgaps.2 hopened.2

end Awaits

theorem derives_of_gaps_eq_zero {p : Text} (hplain : Plain p) (hgaps : gaps false p = 0) (hopened : unopened 0 p = 0)
    (hclosed : unclosed 0 p = 0) : Derives .alternation p := by
  have hread : Read false 0 [] := .awaiting (.front .nil)
  have h := hread.append hplain hgaps hopened
  rw [hclosed, List.nil_append] at h
  exact h.derives

end Pattern

/-! ### What compiles -/

theorem Automaton.exists_ofPattern_eq_ok_iff {p : Text} :
    (∃ A, ofPattern p = .ok A) ↔ ∃ e : Expr, e.postorder = parse p := by
  rw [ofPattern_none]
  constructor
  · rintro ⟨A, h⟩
    exact exists_postorder_of_ofPostfix h
  · rintro ⟨e, he⟩
    exact ⟨e.automaton, ofPostfix_eq_ok_iff.mpr ⟨e, he, rfl⟩⟩

theorem Pattern.exists_postorder_iff_derives {p : Text} (hplain : Plain p) (hopened : unopened 0 p = 0)
    (hclosed : unclosed 0 p = 0) : (∃ e : Expr, e.postorder = parse p) ↔ Derives .alternation p := by
  constructor
  · rintro ⟨e, he⟩
    have hheight := height_parse_of_closed hplain hclosed
    rw [← he, Token.height_eq_sum_weight, Expr.sum_weight_postorder] at hheight
    exact derives_of_gaps_eq_zero hplain (by omega) hopened hclosed
  · intro h
    obtain ⟨e, he⟩ := exists_rendering_of_derives h
    exact ⟨e, (toPostfix_of_rendering he).symm⟩

/-- **Exactly the patterns of the grammar compile**, among those that are made of letters, digits, operators and parentheses
and close each group, where every closing parenthesis without partner is given one in front of the pattern. -/
theorem Automaton.ofPattern_isOk_iff_derives {p : Text} (hplain : Plain p) (hclosed : unclosed 0 p = 0) :
    (∃ A, ofPattern p = .ok A) ↔ Derives .alternation (List.replicate (unopened 0 p) '(' ++ p) := by
  have hopened : unopened 0 (List.replicate (unopened 0 p) '(' ++ p) = 0 := by
    rw [unopened_groups, unopened_add, Nat.sub_self]
  have hgroups : unclosed (unopened 0 p) p = 0 := unclosed_eq_zero_of_le hclosed (Nat.le_refl _)
  have hclosed' : unclosed 0 (List.replicate (unopened 0 p) '(' ++ p) = 0 := by
    rw [unclosed_groups, Nat.zero_add]
    exact hgroups
  rw [exists_ofPattern_eq_ok_iff, ← parse_groups hgroups]
  exact exists_postorder_iff_derives hplain.groups hopened hclosed'

/-- The pattern `a|b)*c` compiles, so `(a|b)*c` is in the grammar. -/
theorem Automaton.ofPattern_isOk_iff_derives_unopened :
    let p := ['a', '|', 'b', ')', '*', 'c']
    Plain p ∧ unclosed 0 p = 0 ∧ Derives .alternation ('(' :: p) := by
  intro p
  have hplain : Plain p := by simp [Plain, p, reserved]
  have hclosed : unclosed 0 p = 0 := by decide
  have hok : ∃ A, ofPattern p = .ok A := ⟨_, rfl⟩
  exact ⟨hplain, hclosed, (ofPattern_isOk_iff_derives hplain hclosed).mp hok⟩

end PatternAutomata
