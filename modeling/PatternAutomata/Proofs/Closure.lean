import Mathlib.Data.List.Sort
import Mathlib.Logic.Relation
import PatternAutomata.Proofs.Interleaving
import PatternAutomata.Proofs.Layout
import PatternAutomata.Proofs.Simulation

/-!
# Closures

The closure of some states holds what can be reached from them by edges without symbol, and this makes it a closure
operator: it contains them, grows with them, adds nothing when it is taken again, and is taken member by member
(`Arena.closure_eq_silently_reached`).

The search begins with the states in the order in which they are given. That this order makes no difference, nor
whether a state is given twice, follows from the members, since closures are listed in increasing order
(`Arena.closure_congr`).
-/

namespace PatternAutomata

namespace Arena

/-- An edge without symbol leads from one state to the other. -/
def Silent (arena : Arena) (p q : Nat) : Prop := q ∈ arena.epsilons p

variable {arena : Arena} {X Y : List Nat} {p q : Nat}

theorem path_nil_iff : arena.graph.Path p [] q ↔ Relation.ReflTransGen arena.Silent p q := by
  constructor
  · intro h
    generalize hw : ([] : Word) = w at h
    induction h with
    | refl q => exact .refl
    | epsilon hedge _ ih => exact .head (mem_epsilons.mpr hedge) (ih hw)
    | read _ _ _ => cases hw
  · intro h
    induction h with
    | refl => exact .refl p
    | tail _ hedge ih => exact ih.trans (.single_epsilon (mem_epsilons.mp hedge))

theorem mem_closure_iff_silent (hclosed : arena.Closed) (hX : ∀ p ∈ X, p < arena.size) :
    q ∈ arena.closure X ↔ ∃ p ∈ X, Relation.ReflTransGen arena.Silent p q := by
  simp only [mem_closure_iff hclosed hX, path_nil_iff]

theorem lt_size_of_mem_closure (hclosed : arena.Closed) (hX : ∀ p ∈ X, p < arena.size) (h : q ∈ arena.closure X) :
    q < arena.size := by
  obtain ⟨p, hp, hpath⟩ := (mem_closure_iff hclosed hX).mp h
  exact lt_size_of_path hclosed hpath (hX p hp)

theorem subset_closure (hclosed : arena.Closed) (hX : ∀ p ∈ X, p < arena.size) : X ⊆ arena.closure X :=
  fun p hp => (mem_closure_iff_silent hclosed hX).mpr ⟨p, hp, .refl⟩

theorem closure_mono (hclosed : arena.Closed) (hX : ∀ p ∈ X, p < arena.size) (hY : ∀ p ∈ Y, p < arena.size)
    (h : X ⊆ Y) : arena.closure X ⊆ arena.closure Y := by
  intro q hq
  obtain ⟨p, hp, hreach⟩ := (mem_closure_iff_silent hclosed hX).mp hq
  exact (mem_closure_iff_silent hclosed hY).mpr ⟨p, h hp, hreach⟩

/-- Only the members of a list of states count, not their order nor how often they are given. -/
theorem closure_congr (hclosed : arena.Closed) (hX : ∀ p ∈ X, p < arena.size) (hY : ∀ p ∈ Y, p < arena.size)
    (h : ∀ p, p ∈ X ↔ p ∈ Y) : arena.closure X = arena.closure Y := by
  refine closure_sorted.eq_of_mem_iff closure_sorted fun q => ⟨fun hq => ?_, fun hq => ?_⟩
  · exact closure_mono hclosed hX hY (fun p hp => (h p).mp hp) hq
  · exact closure_mono hclosed hY hX (fun p hp => (h p).mpr hp) hq

theorem closure_closure (hclosed : arena.Closed) (hX : ∀ p ∈ X, p < arena.size) :
    arena.closure (arena.closure X) = arena.closure X := by
  have hlt : ∀ p ∈ arena.closure X, p < arena.size := fun p hp => lt_size_of_mem_closure hclosed hX hp
  refine closure_sorted.eq_of_mem_iff closure_sorted fun r => ⟨fun hr => ?_, fun hr => subset_closure hclosed hlt hr⟩
  obtain ⟨q, hq, hqr⟩ := (mem_closure_iff_silent hclosed hlt).mp hr
  obtain ⟨p, hp, hpq⟩ := (mem_closure_iff_silent hclosed hX).mp hq
  exact (mem_closure_iff_silent hclosed hX).mpr ⟨p, hp, hpq.trans hqr⟩

theorem mem_closure_append (hclosed : arena.Closed) (hX : ∀ p ∈ X, p < arena.size) (hY : ∀ p ∈ Y, p < arena.size) :
    q ∈ arena.closure (X ++ Y) ↔ q ∈ arena.closure X ∨ q ∈ arena.closure Y := by
  have hboth : ∀ p ∈ X ++ Y, p < arena.size := fun p hp => (List.mem_append.mp hp).elim (hX p) (hY p)
  rw [mem_closure_iff_silent hclosed hboth, mem_closure_iff_silent hclosed hX, mem_closure_iff_silent hclosed hY]
  simp only [List.mem_append, or_and_right, exists_or]

end Arena

/-! ### Closures in a session -/

namespace Session

variable {s : Session} {name : Name} {A : Automaton} {X : List Nat}

theorem sortedLabels_of_sorted (h : X.Pairwise (· < ·)) : sortedLabels Nat.cast X = X.map Nat.cast := by
  refine List.mergeSort_of_pairwise (List.pairwise_map.mpr (h.imp fun hlt => ?_))
  simpa using Nat.le_of_lt hlt

theorem mapM_at?_compiled (h : ∀ q ∈ X, q < A.size) : (X.map Nat.cast).mapM (Machine.compiled A).at? = some X := by
  induction X with
  | nil => rfl
  | cons q X ih =>
    have hq : q < A.size := h q List.mem_cons_self
    have hplace : (Machine.compiled A).at? q = some q := by
      have hnonneg : ¬ (q : Int) < 0 := by omega
      simp [Machine.at?, placeOf?, hnonneg, hq]
    rw [List.map_cons, List.mapM_cons, hplace, ih fun q hq => h q (List.mem_cons_of_mem _ hq)]
    rfl

/-- The answer to a question for a closure gives the closure and what it was taken of, and nothing is changed. -/
theorem exec_closureOf (hm : s.machine? name = some (.compiled A)) (hX : ∀ q ∈ X, q < A.size) :
    s.exec (.closureOf name (X.map Nat.cast)) =
      (s, .closed ((A.arena.closure X).map Nat.cast) (sortedLabels Nat.cast X.eraseDups)) := by
  rw [← sortedLabels_of_sorted Arena.closure_sorted]
  simp only [exec, exec?, hm, Option.bind_eq_bind, Option.bind_some, mapM_at?_compiled hX]
  rfl

theorem mem_sortedLabels_eraseDups {q : Nat} : (q : Int) ∈ sortedLabels Nat.cast X.eraseDups ↔ q ∈ X := by
  rw [sortedLabels, List.mem_mergeSort, List.mem_map]
  constructor
  · rintro ⟨p, hp, heq⟩
    exact Int.ofNat_inj.mp heq ▸ List.mem_eraseDups.mp hp
  · exact fun hq => ⟨q, List.mem_eraseDups.mpr hq, rfl⟩

end Session

/-- **Closures are silent reachability.** The closure of some states holds what edges without symbol lead to from
them, in whatever order they are given. So it contains them, grows with them, adds nothing when it is taken again, and
is taken member by member. Asking for it changes nothing, and the states that were given are still the same. -/
theorem Arena.closure_eq_silently_reached {arena : Arena} (hclosed : arena.Closed) {X Y : List Nat}
    (hX : ∀ p ∈ X, p < arena.size) (hY : ∀ p ∈ Y, p < arena.size) :
    (∀ q, q ∈ arena.closure X ↔ ∃ p ∈ X, Relation.ReflTransGen arena.Silent p q) ∧
      (arena.closure X).Pairwise (· < ·) ∧
      ((∀ p, p ∈ X ↔ p ∈ Y) → arena.closure X = arena.closure Y) ∧
      X ⊆ arena.closure X ∧
      (X ⊆ Y → arena.closure X ⊆ arena.closure Y) ∧
      arena.closure (arena.closure X) = arena.closure X ∧
      (∀ q, q ∈ arena.closure (X ++ Y) ↔ q ∈ arena.closure X ∨ q ∈ arena.closure Y) ∧
      (∀ (s : Session) (names : List Name), (s.exec (.closure names)).1 = s) ∧
      ∀ (s : Session) (name : Name) (initial final : Nat), s.machine? name = some (.compiled ⟨arena, initial, final⟩) →
        ∃ given, (∀ q : Nat, (q : Int) ∈ given ↔ q ∈ X) ∧
          s.exec (.closureOf name (X.map Nat.cast)) = (s, .closed ((arena.closure X).map Nat.cast) given) := by
  refine ⟨fun q => mem_closure_iff_silent hclosed hX, closure_sorted, closure_congr hclosed hX hY,
    subset_closure hclosed hX, closure_mono hclosed hX hY, closure_closure hclosed hX,
    fun q => mem_closure_append hclosed hX hY, fun s names => ?_, fun s name initial final hm => ?_⟩
  · have hlooks : Command.looks (.closure names) = true := rfl
    exact congrArg Prod.fst (Session.exec_of_looks s s.runs hlooks)
  · exact ⟨_, fun q => Session.mem_sortedLabels_eraseDups, Session.exec_closureOf hm hX⟩

/-- Two states reach each other without reading, one of them also itself, and one edge is there twice. -/
theorem Arena.closure_eq_silently_reached_circle :
    let arena := Arena.ofTransitions 4
      [⟨0, [], 1⟩, ⟨1, [], 0⟩, ⟨1, [], 1⟩, ⟨1, [], 2⟩, ⟨1, [], 2⟩, ⟨2, ['a'], 3⟩] 3
    let s : Session := { machines := [(['m'], .compiled ⟨arena, 0, 3⟩)] }
    arena.Closed ∧ (∀ p ∈ [1, 0], p < arena.size) ∧ (∀ p ∈ [0, 1, 0], p < arena.size) ∧ 2 ∈ arena.closure [1, 0] ∧
      arena.closure [1, 0] = arena.closure [0, 1, 0] ∧
      (s.exec (.closureOf ['m'] [1, 0])).1 = s := by
  intro arena s
  have hclosed : arena.Closed := by decide
  have hX : ∀ p ∈ [1, 0], p < arena.size := by decide
  have hY : ∀ p ∈ [0, 1, 0], p < arena.size := by decide
  obtain ⟨hmem, -, hcongr, -, -, -, -, -, hasked⟩ := closure_eq_silently_reached hclosed hX hY
  have hsame : ∀ p, p ∈ [1, 0] ↔ p ∈ [0, 1, 0] := fun p => by simp [or_comm]
  have hedge : arena.Silent 1 2 := show 2 ∈ arena.epsilons 1 by decide
  obtain ⟨given, -, hexec⟩ := hasked s ['m'] 0 3 rfl
  exact ⟨hclosed, hX, hY, (hmem 2).mpr ⟨1, by decide, .single hedge⟩, hcongr hsame, congrArg Prod.fst hexec⟩

end PatternAutomata
