/-!
# Breadth-first search

Layers of a graph whose nodes are numbers: the first layer holds the seeds, every other one the successors of the layer
before that were not met earlier. Nodes with the same key count as one, for which the first that is met stands. Marks
record which keys, the numbers below a bound, were met; a node without such a key is passed over. The search ends because
every node of a layer but the first uses up a free mark.
-/

namespace PatternAutomata.Search

/-- The nodes of a list with unmarked keys, one of each key and in order, and the marks with these keys marked. -/
def visit (key : Nat → Nat) (marks : Array Bool) : List Nat → List Nat × Array Bool
  | [] => ([], marks)
  | node :: rest =>
    if marks[key node]? = some false then
      let (fresh, marks) := visit key (marks.setIfInBounds (key node) true) rest
      (node :: fresh, marks)
    else visit key marks rest

theorem count_setIfInBounds {marks : Array Bool} {i : Nat} (h : marks[i]? = some false) :
    (marks.setIfInBounds i true).count false + 1 = marks.count false := by
  obtain ⟨hlt, hval⟩ := Array.getElem?_eq_some_iff.mp h
  have hpos : 0 < marks.count false := Array.count_pos_iff.mpr (hval ▸ Array.getElem_mem hlt)
  rw [Array.setIfInBounds, dif_pos hlt, Array.count_set]
  simp [hval]
  omega

/-- Every fresh node uses up a free mark. -/
theorem length_visit_add_count (key : Nat → Nat) (marks : Array Bool) (nodes : List Nat) :
    (visit key marks nodes).1.length + (visit key marks nodes).2.count false = marks.count false := by
  induction nodes generalizing marks with
  | nil => simp [visit]
  | cons node rest ih =>
    unfold visit
    split
    next h =>
      have := ih (marks.setIfInBounds (key node) true)
      have := count_setIfInBounds h
      simp only [List.length_cons]
      omega
    next => exact ih marks

/-- The layers from a given one on. -/
def layersFrom (key : Nat → Nat) (next : Nat → List Nat) (marks : Array Bool) : List Nat → List (List Nat)
  | [] => []
  | node :: rest =>
    let found := visit key marks ((node :: rest).flatMap next)
    (node :: rest) :: layersFrom key next found.2 found.1
termination_by layer => marks.count false + layer.length
decreasing_by
  have := length_visit_add_count key marks ((node :: rest).flatMap next)
  simp only [List.length_cons]
  omega

/-- The layers around the seeds in the graph with edges `next`, where the keys are `0`, …, `size - 1`. -/
def layersBy (key : Nat → Nat) (next : Nat → List Nat) (size : Nat) (seeds : List Nat) : List (List Nat) :=
  let found := visit key (Array.replicate size false) seeds
  layersFrom key next found.2 found.1

/-- The layers around the seeds in the graph with nodes `0`, …, `size - 1` and edges `next`. -/
def layers (next : Nat → List Nat) (size : Nat) (seeds : List Nat) : List (List Nat) := layersBy id next size seeds

end PatternAutomata.Search
