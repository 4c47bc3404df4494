import Mathlib.Data.List.Nodup
import PatternAutomata.Automaton.Search

/-!
# Breadth-first search finds distances

The nodes that are reached in a number of steps, and those whose distance that number is.

* `mem_layers_iff` — the layer at a position holds exactly the nodes with this distance from the seeds;
* `nodup_flatten_layers` — no node is listed twice;
* `mem_flatten_layers_iff` — the layers together hold exactly the nodes that are reached at all.

The invariant of the search is `Frontier`: the current layer holds the nodes at one distance, and the free marks are those
of the nodes that are not reached so far.
-/

namespace PatternAutomata.Search

/-! ### One layer -/

section Visit

variable {marks : Array Bool} {nodes : List Nat} {q : Nat}

theorem setIfInBounds_eq_some_false {node : Nat} :
    (marks.setIfInBounds node true)[q]? = some false ↔ marks[q]? = some false ∧ q ≠ node := by
  rw [Array.getElem?_setIfInBounds]
  by_cases h : node = q
  · subst h
    simp
  · simp [h, Ne.symm h]

theorem mem_visit : q ∈ (visit id marks nodes).1 ↔ q ∈ nodes ∧ marks[q]? = some false := by
  induction nodes generalizing marks with
  | nil => simp [visit]
  | cons node rest ih =>
    unfold visit
    split
    next h =>
      simp only [List.mem_cons, ih, id_eq, setIfInBounds_eq_some_false]
      constructor
      · rintro (rfl | ⟨hq, hfree, -⟩)
        · exact ⟨Or.inl rfl, h⟩
        · exact ⟨Or.inr hq, hfree⟩
      · rintro ⟨hq, hfree⟩
        by_cases he : q = node
        · exact Or.inl he
        · exact Or.inr ⟨hq.resolve_left he, hfree, he⟩
    next h =>
      rw [ih, List.mem_cons]
      refine and_congr_left fun hfree => ⟨Or.inr, fun hq => hq.resolve_left ?_⟩
      rintro rfl
      exact h hfree

/-- A mark is still free behind some nodes if it was before and belongs to none of them. -/
theorem visit_eq_some_false :
    (visit id marks nodes).2[q]? = some false ↔ marks[q]? = some false ∧ q ∉ nodes := by
  induction nodes generalizing marks with
  | nil => simp [visit]
  | cons node rest ih =>
    unfold visit
    split
    next =>
      simp only [ih, id_eq, setIfInBounds_eq_some_false, List.mem_cons, not_or, and_assoc]
    next h =>
      rw [ih, List.mem_cons, not_or]
      refine and_congr_right fun hfree => ⟨fun hq => ⟨?_, hq⟩, And.right⟩
      rintro rfl
      exact h hfree

theorem nodup_visit : (visit id marks nodes).1.Nodup := by
  induction nodes generalizing marks with
  | nil => simp [visit]
  | cons node rest ih =>
    unfold visit
    split
    next =>
      refine List.nodup_cons.mpr ⟨fun hmem => ?_, ih⟩
      exact (setIfInBounds_eq_some_false.mp (mem_visit.mp hmem).2).2 rfl
    next => exact ih

end Visit

/-! ### Distances -/

section Distance

variable (next : Nat → List Nat) (size : Nat) (seeds : List Nat)

/-- The node is reached from a seed in the given number of steps. -/
def Reached : Nat → Nat → Prop
  | 0, q => q ∈ seeds ∧ q < size
  | n + 1, q => ∃ p, Reached n p ∧ q ∈ next p ∧ q < size

variable {next size seeds} in
theorem Reached.lt_size {n q : Nat} (h : Reached next size seeds n q) : q < size := by
  cases n with
  | zero => exact h.2
  | succ n =>
    obtain ⟨p, -, -, hlt⟩ := h
    exact hlt

/-- The number is the least one of steps in which the node is reached. -/
def AtDistance (d q : Nat) : Prop := Reached next size seeds d q ∧ ∀ m < d, ¬ Reached next size seeds m q

variable {next size seeds}

theorem AtDistance.unique {d e q : Nat} (hd : AtDistance next size seeds d q) (he : AtDistance next size seeds e q) :
    d = e := by
  rcases Nat.lt_trichotomy d e with h | h | h
  · exact absurd hd.1 (he.2 d h)
  · exact h
  · exact absurd he.1 (hd.2 e h)

theorem exists_atDistance {n q : Nat} (h : Reached next size seeds n q) : ∃ d, AtDistance next size seeds d q := by
  induction n using Nat.strongRecOn with
  | _ n ih =>
    by_cases hless : ∃ m < n, Reached next size seeds m q
    · obtain ⟨m, hm, hq⟩ := hless
      exact ih m hm hq
    · exact ⟨n, h, fun m hm hq => hless ⟨m, hm, hq⟩⟩

/-- What is one step further away has a predecessor, which is not closer than the distance says. -/
theorem atDistance_succ_iff {d q : Nat} :
    AtDistance next size seeds (d + 1) q ↔
      (∃ p, AtDistance next size seeds d p ∧ q ∈ next p) ∧ q < size ∧ ∀ m ≤ d, ¬ Reached next size seeds m q := by
  constructor
  · rintro ⟨⟨p, hp, hq, hlt⟩, hleast⟩
    refine ⟨⟨p, ⟨hp, fun m hm hpm => ?_⟩, hq⟩, hlt, fun m hm => hleast m (by omega)⟩
    exact hleast (m + 1) (by omega) ⟨p, hpm, hq, hlt⟩
  · rintro ⟨⟨p, hp, hq⟩, hlt, hleast⟩
    exact ⟨⟨p, hp.1, hq, hlt⟩, fun m hm => hleast m (by omega)⟩

/-- Where a distance does not occur, no greater one does. -/
theorem not_atDistance_add {d : Nat} (h : ∀ q, ¬ AtDistance next size seeds d q) (i q : Nat) :
    ¬ AtDistance next size seeds (d + i) q := by
  induction i generalizing q with
  | zero => exact h q
  | succ i ih =>
    intro hq
    obtain ⟨⟨p, hp, -⟩, -⟩ := atDistance_succ_iff.mp hq
    exact ih p hp

end Distance

/-! ### The search -/

section Layers

variable {next : Nat → List Nat} {size : Nat} {seeds : List Nat}

/-- What holds when the search comes to a layer. -/
structure Frontier (next : Nat → List Nat) (size : Nat) (seeds : List Nat) (d : Nat) (marks : Array Bool)
    (layer : List Nat) : Prop where
  /-- The layer holds the nodes at a distance. -/
  mem_layer : ∀ q, q ∈ layer ↔ AtDistance next size seeds d q
  /-- It holds none of them twice. -/
  nodup : layer.Nodup
  /-- The nodes that are not reached so far have free marks. -/
  free : ∀ q, marks[q]? = some false ↔ q < size ∧ ∀ m ≤ d, ¬ Reached next size seeds m q

theorem frontier_seeds :
    Frontier next size seeds 0 (visit id (.replicate size false) seeds).2
      (visit id (.replicate size false) seeds).1 where
  mem_layer q := by
    rw [mem_visit, Array.getElem?_replicate]
    simp [AtDistance, Reached]
  nodup := nodup_visit
  free q := by
    rw [visit_eq_some_false, Array.getElem?_replicate]
    simp only [Nat.le_zero_eq, forall_eq, Reached]
    grind

theorem Frontier.step {d : Nat} {marks : Array Bool} {layer : List Nat} (h : Frontier next size seeds d marks layer) :
    Frontier next size seeds (d + 1) (visit id marks (layer.flatMap next)).2
      (visit id marks (layer.flatMap next)).1 where
  mem_layer q := by
    rw [mem_visit, h.free, atDistance_succ_iff, List.mem_flatMap]
    simp only [h.mem_layer]
  nodup := nodup_visit
  free q := by
    rw [visit_eq_some_false, h.free, List.mem_flatMap, and_assoc]
    refine and_congr_right fun hlt => ⟨fun ⟨hold, hnew⟩ m hm hq => ?_, fun hnone => ⟨fun m hm => hnone m (by omega), ?_⟩⟩
    · rcases Nat.le_succ_iff.mp hm with hle | rfl
      · exact hold m hle hq
      · obtain ⟨p, hp, hqp⟩ := (atDistance_succ_iff.mp ⟨hq, fun m hm => hold m (by omega)⟩).1
        exact hnew ⟨p, (h.mem_layer p).mpr hp, hqp⟩
    · rintro ⟨p, hp, hqp⟩
      exact hnone (d + 1) (Nat.le_refl _) ⟨p, ((h.mem_layer p).mp hp).1, hqp, hlt⟩

theorem Frontier.mem_layersFrom_iff {d : Nat} {marks : Array Bool} {layer : List Nat}
    (h : Frontier next size seeds d marks layer) (i q : Nat) :
    q ∈ (layersFrom id next marks layer)[i]?.getD [] ↔ AtDistance next size seeds (d + i) q := by
  fun_induction layersFrom id next marks layer generalizing d i with
  | case1 marks =>
    have hnone : ∀ q, ¬ AtDistance next size seeds d q := fun q hq => by simpa using (h.mem_layer q).mpr hq
    simpa using not_atDistance_add hnone i q
  | case2 marks node rest found =>
    rename_i ih
    cases i with
    | zero => simpa using h.mem_layer q
    | succ i => simpa [Nat.add_assoc, Nat.add_comm 1 i] using ih h.step i

theorem Frontier.nodup_layersFrom {d : Nat} {marks : Array Bool} {layer : List Nat}
    (h : Frontier next size seeds d marks layer) : (layersFrom id next marks layer).flatten.Nodup := by
  fun_induction layersFrom id next marks layer generalizing d with
  | case1 marks => simp
  | case2 marks node rest found =>
    rename_i ih
    rw [List.flatten_cons]
    refine List.Nodup.append h.nodup (ih h.step) fun q hq hlater => ?_
    obtain ⟨later, hmem, hq'⟩ := List.mem_flatten.mp hlater
    obtain ⟨i, hi⟩ := List.mem_iff_getElem?.mp hmem
    have hfar := (h.step.mem_layersFrom_iff i q).mp (by rw [hi]; exact hq')
    have := ((h.mem_layer q).mp hq).unique hfar
    omega

/-- **The layer at a position holds the nodes with this distance.** -/
theorem mem_layers_iff {d q : Nat} :
    q ∈ (layers next size seeds)[d]?.getD [] ↔ AtDistance next size seeds d q := by
  have hseeds : Frontier next size seeds 0 _ _ := frontier_seeds
  rw [← Nat.zero_add d, ← hseeds.mem_layersFrom_iff d q, Nat.zero_add]
  rfl

theorem nodup_flatten_layers : (layers next size seeds).flatten.Nodup := frontier_seeds.nodup_layersFrom

theorem mem_flatten_layers_iff {q : Nat} :
    q ∈ (layers next size seeds).flatten ↔ ∃ n, Reached next size seeds n q := by
  rw [List.mem_flatten]
  constructor
  · rintro ⟨layer, hmem, hq⟩
    obtain ⟨d, hd⟩ := List.mem_iff_getElem?.mp hmem
    exact ⟨d, (mem_layers_iff.mp (by simpa [hd] using hq)).1⟩
  · rintro ⟨n, hn⟩
    obtain ⟨d, hd⟩ := exists_atDistance hn
    have hq := mem_layers_iff.mpr hd
    cases hlayer : (layers next size seeds)[d]? with
    | none => simp [hlayer] at hq
    | some layer => exact ⟨layer, List.mem_of_getElem? hlayer, by simpa [hlayer] using hq⟩

end Layers

end PatternAutomata.Search
