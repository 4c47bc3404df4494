import Mathlib.Data.List.Induction
import PatternAutomata.Proofs.Shape

/-!
# Successor tables group edges by symbol

The table of some edges, added one after the other, lists them by symbol: the symbols in the order in which they first
occurred, and the edges of each symbol in the order in which they were added (`Successors.edges_ofEdges`). Nothing is
lost, and nothing is there twice that was not added twice (`Successors.edges_ofEdges_perm`). Both are proved by adding
the last edge to the table of the others.

`Arena.MadeOf` says which edges were added to each state of an arena. Whatever is done to an arena, there are such
edges.
-/

namespace PatternAutomata

theorem lookup_cons_eq_ite {α : Type} (key other : Text) (x : α) (table : List (Text × α)) :
    List.lookup key ((other, x) :: table) = if key = other then some x else table.lookup key := by
  rw [List.lookup_cons]
  by_cases h : key = other
  · rw [if_pos h, beq_iff_eq.mpr h]
  · rw [if_neg h, beq_false_of_ne h]

namespace Successors

/-- The targets of the edges with a symbol, in order. -/
def targetsOf (edges : List (Symbol × Nat)) (symbol : Symbol) : List Nat :=
  (edges.filter fun edge => edge.1 = symbol).map Prod.snd

/-- The edges by symbol. Symbols stand in the order of their first edges, the edges of a symbol keep their order. -/
def bySymbol (edges : List (Symbol × Nat)) : List (Symbol × Nat) :=
  (edges.map Prod.fst).eraseDups.flatMap fun symbol => edges.filter fun edge => edge.1 = symbol

section LastEdge

variable {symbol : Symbol} {target : Nat} {symbols : List Symbol} {edges : List (Symbol × Nat)}

/-- A target is added to the row of its symbol, which comes last if it is new. -/
theorem insertInto_map (f : Symbol → List Nat) (hnodup : symbols.Nodup) (hf : symbol ∉ symbols → f symbol = []) :
    insertInto symbol target (symbols.map fun s => (s, f s)) =
      (if symbol ∈ symbols then symbols else symbols ++ [symbol]).map fun s =>
        (s, if s = symbol then f s ++ [target] else f s) := by
  induction symbols with
  | nil => simp [insertInto, hf]
  | cons s rest ih =>
    obtain ⟨hs, hrest⟩ := List.nodup_cons.mp hnodup
    rw [List.map_cons, insertInto]
    by_cases heq : s = symbol
    · subst heq
      have hother : ∀ r ∈ rest, (if r = s then f r ++ [target] else f r) = f r := by
        intro r hr
        exact if_neg (by rintro rfl; exact hs hr)
      rw [if_pos rfl, if_pos List.mem_cons_self, List.map_cons, if_pos rfl,
        List.map_congr_left fun r hr => congrArg (Prod.mk r) (hother r hr)]
    · have hmem : symbol ∈ s :: rest ↔ symbol ∈ rest := by simp [Ne.symm heq]
      rw [if_neg heq, ih hrest fun h => hf fun hs => h (hmem.mp hs)]
      simp only [hmem]
      split <;> simp [heq]

theorem eraseDups_append_singleton :
    (symbols ++ [symbol]).eraseDups =
      if symbol ∈ symbols.eraseDups then symbols.eraseDups else symbols.eraseDups ++ [symbol] := by
  rw [List.eraseDups_append]
  by_cases h : symbol ∈ symbols <;> simp [List.removeAll, List.eraseDups_cons, h]

theorem targetsOf_append_singleton (s : Symbol) :
    targetsOf (edges ++ [(symbol, target)]) s =
      if s = symbol then targetsOf edges s ++ [target] else targetsOf edges s := by
  by_cases h : s = symbol <;> simp [targetsOf, h, eq_comm]

theorem targetsOf_eq_nil (h : symbol ∉ edges.map Prod.fst) : targetsOf edges symbol = [] := by
  rw [targetsOf, List.map_eq_nil_iff, List.filter_eq_nil_iff]
  intro edge hedge heq
  exact h (List.mem_map.mpr ⟨edge, hedge, of_decide_eq_true heq⟩)

theorem ofEdges_append_singleton : ofEdges (edges ++ [(symbol, target)]) = (ofEdges edges).add symbol target := by
  simp [ofEdges]

theorem rows_add (table : Successors) (symbol : Symbol) (target : Nat) :
    (table.add symbol target).rows = insertInto symbol target table.rows := rfl

/-- What is added is read behind what was there, and by its own symbol only. -/
theorem read_add (table : Successors) (symbol s : Symbol) (target : Nat) :
    (table.add symbol target).read s = if s = symbol then table.read s ++ [target] else table.read s := by
  obtain ⟨rows, hrows⟩ := table
  simp only [read, add]
  clear hrows
  induction rows with
  | nil =>
    rw [insertInto, lookup_cons_eq_ite]
    split <;> rfl
  | cons row rest ih =>
    obtain ⟨r, targets⟩ := row
    rw [insertInto]
    split
    next h =>
      subst h
      rw [lookup_cons_eq_ite, lookup_cons_eq_ite]
      split <;> rfl
    next hne =>
      rw [lookup_cons_eq_ite, lookup_cons_eq_ite]
      split
      next h => rw [if_neg (h ▸ hne)]
      next => exact ih

theorem edges_add_perm (table : Successors) (symbol : Symbol) (target : Nat) :
    (table.add symbol target).edges.Perm (table.edges ++ [(symbol, target)]) := by
  obtain ⟨rows, hrows⟩ := table
  simp only [Successors.edges, add]
  clear hrows
  induction rows with
  | nil => rfl
  | cons row rest ih =>
    rw [insertInto]
    split
    next h =>
      subst h
      simp only [List.flatMap_cons, List.map_append, List.append_assoc, List.map_singleton]
      exact List.perm_append_comm.append_left _
    next =>
      simp only [List.flatMap_cons, List.append_assoc]
      exact ih.append_left _

end LastEdge

/-- No edge is lost or doubled. -/
theorem edges_ofEdges_perm (edges : List (Symbol × Nat)) : (ofEdges edges).edges.Perm edges := by
  induction edges using List.reverseRecOn with
  | nil => rfl
  | append_singleton edges edge ih =>
    rw [ofEdges_append_singleton]
    exact (edges_add_perm _ _ _).trans (ih.append_right _)

theorem rows_ofEdges (edges : List (Symbol × Nat)) :
    (ofEdges edges).rows = (edges.map Prod.fst).eraseDups.map fun s => (s, targetsOf edges s) := by
  induction edges using List.reverseRecOn with
  | nil => rfl
  | append_singleton edges edge ih =>
    obtain ⟨symbol, target⟩ := edge
    have hnodup : (edges.map Prod.fst).eraseDups.Nodup := by
      have h := (ofEdges edges).nodup_symbols
      rw [ih, List.map_map] at h
      simpa [Function.comp_def] using h
    have hnone : symbol ∉ (edges.map Prod.fst).eraseDups → targetsOf edges symbol = [] := fun h =>
      targetsOf_eq_nil fun hmem => h (List.mem_eraseDups.mpr hmem)
    rw [ofEdges_append_singleton, rows_add, ih, insertInto_map _ hnodup hnone, List.map_append, List.map_singleton,
      eraseDups_append_singleton]
    simp only [targetsOf_append_singleton]

/-- The symbols stand in the order of their first edges. -/
theorem symbols_ofEdges (edges : List (Symbol × Nat)) : (ofEdges edges).symbols = (edges.map Prod.fst).eraseDups := by
  rw [symbols, rows_ofEdges, List.map_map]
  exact List.map_id _

/-- Reading a symbol finds the targets of its edges, in the order in which they were added. -/
theorem read_ofEdges (edges : List (Symbol × Nat)) (symbol : Symbol) :
    (ofEdges edges).read symbol = targetsOf edges symbol := by
  induction edges using List.reverseRecOn with
  | nil => rfl
  | append_singleton edges edge ih =>
    rw [ofEdges_append_singleton, read_add, targetsOf_append_singleton, ih]

/-- **The table of some edges lists them by symbol.** -/
theorem edges_ofEdges (edges : List (Symbol × Nat)) : (ofEdges edges).edges = bySymbol edges := by
  have hrow : ∀ s, (targetsOf edges s).map (fun target => (s, target)) = edges.filter fun edge => edge.1 = s := by
    intro s
    rw [targetsOf, List.map_map]
    refine (List.map_congr_left fun edge hedge => ?_).trans (List.map_id _)
    have hsymbol : edge.1 = s := of_decide_eq_true (List.mem_filter.mp hedge).2
    rw [← hsymbol]
    rfl
  unfold Successors.edges bySymbol
  rw [rows_ofEdges, List.flatMap_map]
  exact List.flatMap_congr fun s _ => hrow s

end Successors

/-! ### Arenas by what was added -/

namespace Arena

/-- The table of every state is made of the edges that were added to the state, in their order. -/
def MadeOf (arena : Arena) (added : Nat → List (Symbol × Nat)) : Prop :=
  ∀ q < arena.size, (arena.state q).successors = .ofEdges (added q)

variable {arena : Arena} {added : Nat → List (Symbol × Nat)} {q : Nat}

theorem successors_addState (arena : Arena) (isFinal : Bool) (q : Nat) :
    ((arena.addState isFinal).state q).successors = (arena.state q).successors := by
  simp only [state_eq, addState, Array.getElem?_push]
  split
  next h =>
    rw [h, Array.getElem?_eq_none (Nat.le_refl _)]
    rfl
  next => rfl

theorem madeOf_empty : MadeOf #[] fun _ => [] := by
  intro q hq
  exact absurd hq (Nat.not_lt_zero q)

theorem MadeOf.addState (h : arena.MadeOf added) (isFinal : Bool) :
    (arena.addState isFinal).MadeOf (Function.update added arena.size []) := by
  intro q hq
  rw [size_addState] at hq
  rw [successors_addState, Function.update_apply]
  split
  next heq =>
    rw [heq, state_of_size_le (Nat.le_refl _)]
    rfl
  next hne => exact h q (by omega)

theorem MadeOf.addEdge (h : arena.MadeOf added) {p : Nat} (hp : p < arena.size) (c : Symbol) (r : Nat) :
    (arena.addEdge p c r).MadeOf (Function.update added p (added p ++ [(c, r)])) := by
  intro q hq
  rw [size_addEdge] at hq
  rw [state_addEdge hp, Function.update_apply]
  split
  next heq =>
    subst heq
    rw [h q hq, Successors.ofEdges_append_singleton]
  next => exact h q hq

theorem MadeOf.setFinal (h : arena.MadeOf added) {p : Nat} (hp : p < arena.size) (isFinal : Bool) :
    (arena.setFinal p isFinal).MadeOf added := by
  intro q hq
  rw [size_setFinal] at hq
  rw [state_setFinal hp]
  split
  next => exact h q hq
  next => exact h q hq

theorem MadeOf.edges_eq (h : arena.MadeOf added) (hq : q < arena.size) :
    arena.edges q = Successors.bySymbol (added q) := by
  rw [edges, h q hq, Successors.edges_ofEdges]

theorem MadeOf.edges_perm (h : arena.MadeOf added) (hq : q < arena.size) : (arena.edges q).Perm (added q) := by
  rw [edges, h q hq]
  exact Successors.edges_ofEdges_perm (added q)

end Arena
end PatternAutomata
