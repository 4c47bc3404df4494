import PatternAutomata.Symbol

/-!
# Successor tables

The edges that leave one state, as a row of targets for every symbol. Rows stand in the order in which their symbols
were first added, targets in the order in which they were added; an edge that is added twice is kept twice. No two rows
have the same symbol, so reading a symbol finds every edge that it labels.
-/

namespace PatternAutomata

/-- The rows with a target added behind those of its symbol, in a new row if there is none. -/
def Successors.insertInto (symbol : Symbol) (target : Nat) : List (Symbol × List Nat) → List (Symbol × List Nat)
  | [] => [(symbol, [target])]
  | (s, targets) :: rest =>
    if s = symbol then (s, targets ++ [target]) :: rest else (s, targets) :: insertInto symbol target rest

theorem Successors.mem_symbols_insertInto {symbol s : Symbol} {target : Nat} {rows : List (Symbol × List Nat)} :
    s ∈ (insertInto symbol target rows).map Prod.fst ↔ s = symbol ∨ s ∈ rows.map Prod.fst := by
  induction rows with
  | nil => simp [insertInto]
  | cons row rest ih =>
    unfold insertInto
    split
    next h => subst h; simp
    next => rw [List.map_cons, List.mem_cons, ih, List.map_cons, List.mem_cons]; exact or_left_comm

theorem Successors.nodup_insertInto {symbol : Symbol} {target : Nat} {rows : List (Symbol × List Nat)}
    (h : (rows.map Prod.fst).Nodup) : ((insertInto symbol target rows).map Prod.fst).Nodup := by
  induction rows with
  | nil => simp [insertInto]
  | cons row rest ih =>
    rw [List.map_cons, List.nodup_cons] at h
    unfold insertInto
    split
    next => exact List.nodup_cons.mpr h
    next hne =>
      rw [List.map_cons, List.nodup_cons, mem_symbols_insertInto]
      exact ⟨not_or.mpr ⟨hne, h.1⟩, ih h.2⟩

/-- Rows of targets by symbol. -/
structure Successors where
  rows : List (Symbol × List Nat) := []
  nodup_symbols : (rows.map Prod.fst).Nodup := by simp
deriving DecidableEq, Repr

namespace Successors

def add (table : Successors) (symbol : Symbol) (target : Nat) : Successors :=
  ⟨insertInto symbol target table.rows, nodup_insertInto table.nodup_symbols⟩

/-- The targets of a symbol. -/
def read (table : Successors) (symbol : Symbol) : List Nat := (table.rows.lookup symbol).getD []

/-- The targets that are reached without reading. -/
def epsilons (table : Successors) : List Nat := table.read Symbol.epsilon

/-- The symbols that label some edge. -/
def symbols (table : Successors) : List Symbol := table.rows.map Prod.fst

/-- All edges, by symbol. -/
def edges (table : Successors) : List (Symbol × Nat) :=
  table.rows.flatMap fun (symbol, targets) => targets.map fun target => (symbol, target)

/-- The targets of all edges, by symbol. -/
def targets (table : Successors) : List Nat := table.rows.flatMap Prod.snd

@[simp] theorem edges_empty : ({} : Successors).edges = [] := rfl

theorem mem_edges {table : Successors} {symbol : Symbol} {target : Nat} :
    (symbol, target) ∈ table.edges ↔ ∃ row ∈ table.rows, row.1 = symbol ∧ target ∈ row.2 := by
  simp only [edges, List.mem_flatMap, List.mem_map, Prod.mk.injEq]
  constructor
  · rintro ⟨row, hrow, t, ht, rfl, rfl⟩
    exact ⟨row, hrow, rfl, ht⟩
  · rintro ⟨row, hrow, rfl, ht⟩
    exact ⟨row, hrow, target, ht, rfl, rfl⟩

theorem mem_targets {table : Successors} {target : Nat} :
    target ∈ table.targets ↔ ∃ symbol, (symbol, target) ∈ table.edges := by
  simp only [targets, List.mem_flatMap, mem_edges]
  constructor
  · rintro ⟨row, hrow, ht⟩
    exact ⟨row.1, row, hrow, rfl, ht⟩
  · rintro ⟨_, row, hrow, -, ht⟩
    exact ⟨row, hrow, ht⟩

/-- Reading a symbol finds every edge that it labels. -/
theorem mem_read {table : Successors} {symbol : Symbol} {target : Nat} :
    target ∈ table.read symbol ↔ (symbol, target) ∈ table.edges := by
  obtain ⟨rows, hrows⟩ := table
  simp only [mem_edges, read]
  induction rows with
  | nil => simp
  | cons row rest ih =>
    obtain ⟨s, targets⟩ := row
    rw [List.map_cons, List.nodup_cons] at hrows
    have ih := ih hrows.2
    by_cases h : symbol = s
    · subst h
      have hrest : ∀ r ∈ rest, r.1 ≠ symbol := fun r hr he => hrows.1 (List.mem_map.mpr ⟨r, hr, he⟩)
      simp only [List.lookup_cons, BEq.rfl, List.mem_cons, or_and_right, exists_or, exists_eq_left, true_and]
      exact ⟨Or.inl, fun ht => ht.resolve_right fun ⟨r, hr, he, _⟩ => hrest r hr he⟩
    · have hne : (symbol == s) = false := beq_false_of_ne h
      simp only [List.lookup_cons, hne, List.mem_cons, or_and_right, exists_or, exists_eq_left, Ne.symm h, false_and,
        false_or]
      exact ih

theorem mem_edges_add {table : Successors} {symbol s : Symbol} {target t : Nat} :
    (s, t) ∈ (table.add symbol target).edges ↔ (s, t) ∈ table.edges ∨ s = symbol ∧ t = target := by
  obtain ⟨rows, hrows⟩ := table
  simp only [mem_edges, add]
  clear hrows
  induction rows with
  | nil => simp [insertInto, eq_comm]
  | cons row rest ih =>
    unfold insertInto
    split
    next h =>
      subst h
      simp only [List.mem_cons, or_and_right, exists_or, exists_eq_left, List.mem_append]
      grind
    next =>
      simp only [List.mem_cons, or_and_right, exists_or, exists_eq_left, or_assoc]
      exact or_congr_right ih

end Successors
end PatternAutomata
