import PatternAutomata.Proofs.Parentheses

/-!
# Partners

Which parenthesis closes which is told by the text between them: it is balanced. Those without partner are counted by going
through the text once and keeping the number of open groups, which is what `unopened` and `unclosed` do.

* `Balanced`, `balanced_iff` — texts in which every parenthesis has a partner;
* `Partners` — an opening and a closing parenthesis with such a text between them;
* `loneClosings_eq`, `loneOpenings_eq` — the parentheses without partner;
* `parse_surrounded` — parentheses around a pattern that get partners, or close nothing, are neutral.
-/

namespace PatternAutomata.Pattern

/-- Every parenthesis of the text has its partner in the text. -/
inductive Balanced : Text → Prop
  | nil : Balanced []
  | other {c : Char} {p : Text} : c ≠ '(' → c ≠ ')' → Balanced p → Balanced (c :: p)
  | group {p q : Text} : Balanced p → Balanced q → Balanced ('(' :: p ++ ')' :: q)

/-! ### Balanced texts by counting -/

section Balanced

variable {c : Char} {p q : Text} {d i j : Nat}

theorem Balanced.counts (h : Balanced p) (d : Nat) : unopened d p = 0 ∧ unclosed d p = d := by
  induction h generalizing d with
  | nil => exact ⟨rfl, rfl⟩
  | other hopen hclose _ ih => rw [unopened_other hopen hclose, unclosed_other hopen hclose]; exact ih d
  | group _ _ ihp ihq =>
    obtain ⟨hopened, hclosed⟩ := ihp (d + 1)
    rw [List.cons_append, unopened_open, unclosed_open, unopened_append, unclosed_append, hopened, hclosed, unopened_close,
      unclosed_close, if_neg (Nat.succ_ne_zero d), Nat.add_sub_cancel, Nat.zero_add, Nat.zero_add]
    exact ihq d

/-- In front of the first parenthesis that closes nothing all groups are closed. -/
theorem exists_append_closing (h : unopened 0 p ≠ 0) :
    ∃ q r, p = q ++ ')' :: r ∧ unopened 0 q = 0 ∧ unclosed 0 q = 0 := by
  induction p using List.reverseRecOn with
  | nil => exact absurd rfl h
  | append_singleton p c ih =>
    by_cases hp : unopened 0 p = 0
    · -- nothing else is closed in vain, so the last character is
      rw [unopened_append, hp, Nat.zero_add] at h
      have hclose : c = ')' ∧ unclosed 0 p = 0 := by
        simp only [unopened] at h
        split_ifs at h <;> simp_all
      exact ⟨p, [], by rw [hclose.1], hp, hclose.2⟩
    · obtain ⟨q, r, rfl, hq⟩ := ih hp
      exact ⟨q, r ++ [c], by simp, hq⟩

/-- Behind the last group that is never closed all groups are, and nothing else. -/
theorem exists_append_opening (h : unclosed 0 p ≠ 0) :
    ∃ q r, p = q ++ '(' :: r ∧ unopened 0 r = 0 ∧ unclosed 0 r = 0 := by
  induction p with
  | nil => exact absurd rfl h
  | cons c p ih =>
    by_cases hp : unclosed 0 p = 0
    · have hopen : c = '(' := by
        by_contra hopen
        by_cases hclose : c = ')'
        · subst hclose
          exact h hp
        · rw [unclosed_other hopen hclose] at h
          exact h hp
      subst hopen
      have hadd := unclosed_add (d := 0) (j := 1) (p := p)
      rw [unclosed_open] at h
      exact ⟨[], p, rfl, by omega, hp⟩
    · obtain ⟨q, r, rfl, hr⟩ := ih hp
      exact ⟨c :: q, r, rfl, hr⟩

theorem unopened_append_closing (hq : unopened 0 q = 0 ∧ unclosed 0 q = 0) :
    unopened 0 (q ++ ')' :: p) = 1 + unopened 0 p := by
  rw [unopened_append, hq.1, hq.2, Nat.zero_add, unopened_close, if_pos rfl]

theorem unclosed_append_closing (hq : unopened 0 q = 0 ∧ unclosed 0 q = 0) :
    unclosed 0 (q ++ ')' :: p) = unclosed 0 p := by
  rw [unclosed_append, hq.2, unclosed_close]

theorem balanced_of_counts (hopened : unopened 0 p = 0) (hclosed : unclosed 0 p = 0) : Balanced p := by
  induction hn : p.length using Nat.strongRecOn generalizing p with
  | _ n ih =>
    subst hn
    rcases p with _ | ⟨c, p⟩
    · exact .nil
    by_cases hopen : c = '('
    · subst hopen
      -- the rest closes one parenthesis more than it opens
      rw [unopened_open, unopened_add] at hopened
      rw [unclosed_open, unclosed_add] at hclosed
      obtain ⟨q, r, rfl, hq⟩ := exists_append_closing (p := p) (by omega)
      rw [unopened_append_closing hq] at hopened hclosed
      rw [unclosed_append_closing hq] at hclosed
      simp only [List.length_cons, List.length_append] at ih
      exact .group (ih q.length (by omega) hq.1 hq.2 rfl) (ih r.length (by omega) (by omega) (by omega) rfl)
    by_cases hclose : c = ')'
    · subst hclose
      simp at hopened
    · rw [unopened_other hopen hclose] at hopened
      rw [unclosed_other hopen hclose] at hclosed
      exact .other hopen hclose (ih p.length (Nat.lt_succ_self _) hopened hclosed rfl)

theorem balanced_iff : Balanced p ↔ unopened 0 p = 0 ∧ unclosed 0 p = 0 :=
  ⟨fun h => h.counts 0, fun h => balanced_of_counts h.1 h.2⟩

instance (p : Text) : Decidable (Balanced p) := decidable_of_iff _ balanced_iff.symm

end Balanced

/-! ### Partners by position -/

/-- The parenthesis at `i` opens a group that the one at `j` closes. -/
def Partners (p : Text) (i j : Nat) : Prop :=
  i < j ∧ p[i]? = some '(' ∧ p[j]? = some ')' ∧ Balanced ((p.take j).drop (i + 1))

instance (p : Text) (i j : Nat) : Decidable (Partners p i j) := by unfold Partners; infer_instance

/-- The number of opening parentheses that a later one closes. -/
def pairs (p : Text) : Nat := (List.range p.length).countP fun i => ∃ j < p.length, Partners p i j

/-- The number of opening parentheses that no later one closes. -/
def loneOpenings (p : Text) : Nat :=
  (List.range p.length).countP fun i => p[i]? = some '(' ∧ ¬ ∃ j < p.length, Partners p i j

/-- The number of closing parentheses that close none. -/
def loneClosings (p : Text) : Nat :=
  (List.range p.length).countP fun j => p[j]? = some ')' ∧ ¬ ∃ i < p.length, Partners p i j

section Partners

variable {c : Char} {p : Text} {i j : Nat}

theorem eq_append_of_getElem? (h : p[i]? = some c) : p = p.take i ++ c :: p.drop (i + 1) := by
  obtain ⟨hi, rfl⟩ := List.getElem?_eq_some_iff.mp h
  rw [← List.drop_eq_getElem_cons hi, List.take_append_drop]

/-! #### From the left -/

theorem exists_partners_cons_succ :
    (∃ j < (c :: p).length, Partners (c :: p) (i + 1) j) ↔ ∃ j < p.length, Partners p i j := by
  rw [List.length_cons, Nat.exists_lt_succ_left]
  simp [Partners]

/-- A group that is opened in front of a text is closed in it if that closes more than its own groups. -/
theorem exists_partners_cons_zero :
    (∃ j < (c :: p).length, Partners (c :: p) 0 j) ↔ c = '(' ∧ unopened 0 p ≠ 0 := by
  constructor
  · rintro ⟨_ | j, -, hlt, hopen, hclose, hbalanced⟩
    · exact absurd hlt (Nat.lt_irrefl 0)
    · have hcounts : unopened 0 (p.take j) = 0 ∧ unclosed 0 (p.take j) = 0 := balanced_iff.mp hbalanced
      have hsplit : p = p.take j ++ ')' :: p.drop (j + 1) := eq_append_of_getElem? hclose
      rw [hsplit, unopened_append_closing hcounts]
      exact ⟨Option.some.inj hopen, by omega⟩
  · rintro ⟨rfl, h⟩
    obtain ⟨q, r, rfl, hq⟩ := exists_append_closing h
    exact ⟨q.length + 1, by simp, by simp, rfl, by simp, by simpa using balanced_iff.mpr hq⟩

theorem pairs_cons : pairs (c :: p) = pairs p + if c = '(' ∧ unopened 0 p ≠ 0 then 1 else 0 := by
  unfold pairs
  rw [List.length_cons, List.range_succ_eq_map, List.countP_cons, List.countP_map]
  simp only [Function.comp_def, ← List.length_cons (a := c), exists_partners_cons_succ, exists_partners_cons_zero,
    decide_eq_true_eq]

theorem loneOpenings_cons : loneOpenings (c :: p) = loneOpenings p + if c = '(' ∧ unopened 0 p = 0 then 1 else 0 := by
  have hhead : (c :: p)[0]? = some '(' ∧ ¬ (c = '(' ∧ unopened 0 p ≠ 0) ↔ c = '(' ∧ unopened 0 p = 0 := by
    rw [List.getElem?_cons_zero, Option.some.injEq]
    tauto
  unfold loneOpenings
  rw [List.length_cons, List.range_succ_eq_map, List.countP_cons, List.countP_map]
  simp only [Function.comp_def, ← List.length_cons (a := c), exists_partners_cons_succ, exists_partners_cons_zero,
    decide_eq_true_eq, hhead, List.getElem?_cons_succ]

/-- **The opening parentheses without partner** are the groups that are open in the end. -/
theorem loneOpenings_eq (p : Text) : loneOpenings p = unclosed 0 p := by
  induction p with
  | nil => rfl
  | cons c p ih =>
    rw [loneOpenings_cons, ih]
    by_cases hopen : c = '('
    · subst hopen
      rw [unclosed_open, unclosed_add]
      by_cases hopened : unopened 0 p = 0
      · simp [hopened]
      · simp [hopened]
        omega
    by_cases hclose : c = ')'
    · subst hclose
      rfl
    · rw [unclosed_other hopen hclose]
      simp [hopen]

theorem pairs_add_loneOpenings (p : Text) : pairs p + loneOpenings p = p.count '(' := by
  induction p with
  | nil => rfl
  | cons c p ih =>
    rw [pairs_cons, loneOpenings_cons, List.count_cons, ← ih]
    by_cases hopen : c = '('
    · by_cases hopened : unopened 0 p = 0
      · simp [hopen, hopened]
        omega
      · simp [hopen, hopened]
        omega
    · simp [hopen]

/-! #### From the right -/

theorem exists_partners_append_left (hj : j < p.length) :
    (∃ i < (p ++ [c]).length, Partners (p ++ [c]) i j) ↔ ∃ i < p.length, Partners p i j := by
  have hpartners : ∀ i, Partners (p ++ [c]) i j ↔ Partners p i j := by
    intro i
    refine and_congr_right fun hlt => ?_
    rw [List.getElem?_append_left (hlt.trans hj), List.getElem?_append_left hj,
      List.take_append_of_le_length (Nat.le_of_lt hj)]
  simp only [hpartners]
  have hlength : p.length ≤ (p ++ [c]).length := by simp
  exact ⟨fun ⟨i, _, h⟩ => ⟨i, h.1.trans hj, h⟩, fun ⟨i, hi, h⟩ => ⟨i, hi.trans_le hlength, h⟩⟩

/-- A parenthesis behind a text closes a group of it if one is open in the end. -/
theorem exists_partners_append_length :
    (∃ i < (p ++ [c]).length, Partners (p ++ [c]) i p.length) ↔ c = ')' ∧ unclosed 0 p ≠ 0 := by
  constructor
  · rintro ⟨i, -, hlt, hopen, hclose, hbalanced⟩
    rw [List.getElem?_append_left hlt] at hopen
    rw [List.getElem?_concat_length] at hclose
    rw [List.take_left] at hbalanced
    have hcounts := (hbalanced.counts (unclosed 0 (p.take i) + 1)).2
    rw [eq_append_of_getElem? hopen, unclosed_append, unclosed_open, hcounts]
    exact ⟨Option.some.inj hclose, Nat.succ_ne_zero _⟩
  · rintro ⟨rfl, h⟩
    obtain ⟨q, r, rfl, hr⟩ := exists_append_opening h
    refine ⟨q.length, by simp, by simp, by simp, List.getElem?_concat_length, ?_⟩
    have hbetween : (q ++ '(' :: r).drop (q.length + 1) = r := by rw [List.drop_length_add_append]; rfl
    rw [List.take_left, hbetween]
    exact balanced_iff.mpr hr

theorem loneClosings_append_singleton :
    loneClosings (p ++ [c]) = loneClosings p + if c = ')' ∧ unclosed 0 p = 0 then 1 else 0 := by
  have hlast : (p ++ [c])[p.length]? = some ')' ∧ ¬ (c = ')' ∧ unclosed 0 p ≠ 0) ↔ c = ')' ∧ unclosed 0 p = 0 := by
    rw [List.getElem?_concat_length, Option.some.injEq]
    tauto
  unfold loneClosings
  rw [List.length_append, List.length_singleton, List.range_succ, List.countP_append, List.countP_singleton]
  simp only [← List.length_append, ← List.length_singleton (a := c), exists_partners_append_length, decide_eq_true_eq,
    hlast]
  refine congrArg (· + _) (List.countP_congr fun j hj => ?_)
  have hlt : j < p.length := List.mem_range.mp hj
  simp only [exists_partners_append_left hlt, List.getElem?_append_left hlt]

/-- **The closing parentheses without partner** are those for which no group is open. -/
theorem loneClosings_eq (p : Text) : loneClosings p = unopened 0 p := by
  induction p using List.reverseRecOn with
  | nil => rfl
  | append_singleton p c ih =>
    rw [loneClosings_append_singleton, ih, unopened_append]
    by_cases hopen : c = '('
    · subst hopen
      rfl
    by_cases hclose : c = ')'
    · simp [hclose]
    · simp [hclose, unopened_other hopen hclose]

theorem unclosed_eq_zero_of_forall_partners (h : ∀ i, p[i]? = some '(' → ∃ j, Partners p i j) : unclosed 0 p = 0 := by
  rw [← loneOpenings_eq, loneOpenings, List.countP_eq_zero]
  rintro i - hlone
  obtain ⟨hopen, hnone⟩ := of_decide_eq_true hlone
  obtain ⟨j, hpartners⟩ := h i hopen
  obtain ⟨hj, -⟩ := List.getElem?_eq_some_iff.mp hpartners.2.2.1
  exact hnone ⟨j, hj, hpartners⟩

end Partners

/-! ### Parentheses around a pattern -/

/-- **Parentheses around a pattern are neutral.** They may be put around every pattern that closes its own groups, as long
as no group is left open. In front of any pattern there may be as many as it has closing parentheses without partner. -/
theorem parse_surrounded :
    (∀ (p : Text) (j m : Nat), (∀ i, p[i]? = some '(' → ∃ j, Partners p i j) → j ≤ loneClosings p + m →
      parse (List.replicate j '(' ++ p ++ List.replicate m ')') = parse p ∧
        toPostfix (List.replicate j '(' ++ p ++ List.replicate m ')') = toPostfix p) ∧
      ∀ (p : Text) (j : Nat), j ≤ loneClosings p →
        parse (List.replicate j '(' ++ p) = parse p ∧ toPostfix (List.replicate j '(' ++ p) = toPostfix p := by
  refine ⟨fun p j m hpartners hle => ?_, fun p j hle => ?_⟩
  · have hclosed : unclosed 0 p = 0 := unclosed_eq_zero_of_forall_partners hpartners
    rw [loneClosings_eq] at hle
    exact ⟨parse_parenthesized hclosed hle, toPostfix_parenthesized hclosed hle⟩
  · rw [loneClosings_eq] at hle
    exact ⟨parse_groups_of_le hle, toPostfix_groups_of_le hle⟩

/-- In `a)|(b)*)c` two parentheses close nothing, so with one behind it there may be three in front. The group of `a)(b` is
never closed. -/
theorem parse_surrounded_unopened :
    let p := ['a', ')', '|', '(', 'b', ')', '*', ')', 'c']
    let q := ['a', ')', '(', 'b']
    (∀ i, p[i]? = some '(' → ∃ j, Partners p i j) ∧ loneClosings p = 2 ∧
      parse (['(', '(', '('] ++ p ++ [')']) = parse p ∧
      loneClosings q = 1 ∧ loneOpenings q = 1 ∧ parse ('(' :: q) = parse q := by
  intro p q
  have hclosed : ∀ i < p.length, p[i]? = some '(' → ∃ j < p.length, Partners p i j := by decide
  have hpartners : ∀ i, p[i]? = some '(' → ∃ j, Partners p i j := by
    intro i hopen
    obtain ⟨hi, -⟩ := List.getElem?_eq_some_iff.mp hopen
    obtain ⟨j, -, hpartner⟩ := hclosed i hi hopen
    exact ⟨j, hpartner⟩
  have hlone : loneClosings p = 2 := by decide
  have hlone' : loneClosings q = 1 := by decide
  exact ⟨hpartners, hlone, (parse_surrounded.1 p 3 1 hpartners (by omega)).1, hlone', by decide,
    (parse_surrounded.2 q 1 (by omega)).1⟩

end PatternAutomata.Pattern
