import RelationSearch.Proofs.Puzzles
import RelationSearch.Puzzles.Colouring

/-! # The colourings of a map

The colouring relation of a map gives exactly the proper colourings, in lexicographic order with the first
region varying slowest (`Colouring.colourings_exact`).

The relation compares the ends of an edge once, right after the domain of the later one; edges that name a
place without a region are not compared at all, and an edge from a region to itself rules out every colour of
it.

Nothing may be pending on the regions when the search begins.  A comparison outside the map that was left to
its operands refuses colours just as one of the map's own (`Colouring.pending_comparison_colours`).
-/
namespace RelationSearch.Colouring

open Act RelationSearch.Relation

variable {σ : Type} {regions : List Var} {edges : List (Nat × Nat)} {colours : List Colour}

/-! ## Proper colourings -/

/-- The colour of the region at a place, where `t` lists positions in the list of colours. -/
def colourAt (colours : List Colour) (t : List Nat) (place : Nat) : Option Colour :=
  t[place]?.bind (colours[·]?)

/-- The positions give each of so many regions a colour, and the two ends of every edge that has regions at
both ends different ones. -/
structure Proper (n : Nat) (edges : List (Nat × Nat)) (colours : List Colour) (t : List Nat) : Prop where
  length : t.length = n
  listed : ∀ p ∈ t, p < colours.length
  differ : ∀ edge ∈ edges, edge.1 < n → edge.2 < n →
    colourAt colours t edge.1 ≠ colourAt colours t edge.2

/-- The values of the colours at some positions. -/
def shades (colours : List Colour) (t : List Nat) : List Value :=
  t.map fun p => (colours.getD p .red).value

/-! ## The parts of the relation -/

/-- The comparison of the ends of an edge, if there are regions at both ends. -/
def comparisons (regions : List Var) (edge : Nat × Nat) : List (Relation Function) :=
  match regions[edge.1]?, regions[edge.2]? with
  | some x, some y => [.compare 0 x y (.custom differ)]
  | _, _ => []

/-- The comparisons that are made as soon as the region at a place has a colour. -/
def tests (regions : List Var) (edges : List (Nat × Nat)) (place : Nat) : List (Relation Function) :=
  (edges.filter fun edge => max edge.1 edge.2 == place).flatMap (comparisons regions)

theorem builds_inequality (edge : Nat × Nat) :
    Builds (inequality regions edge : Act Function σ _) id (comparisons regions edge) := by
  unfold inequality comparisons
  cases regions[edge.1]? with
  | none => exact .nothing rfl
  | some x =>
    cases regions[edge.2]? with
    | none => exact .nothing rfl
    | some y =>
      have made : Builds (create fun n => .compare n x y (.custom differ) : Act Function σ _) ([·])
          [.compare 0 x y (.custom differ)] := .create fun _ => rfl
      have named : Builds _ id _ := (made.labelled "different").map (f := fun r => [r]) fun _ => rfl
      rwa [bind_assoc] at named

theorem builds_regionParts (x : Var) (place : Nat) :
    Builds (regionParts regions edges colours x place : Act Function σ _) id
      (Stage.leaves ⟨x, colours.map Colour.value, tests regions edges place⟩) := by
  have domain : Builds (create fun n => .domain n x (colours.map Colour.value) : Act Function σ _) ([·])
      [.domain 0 x (colours.map Colour.value)] := .create fun _ => rfl
  have due : Builds ((edges.filter fun edge => max edge.1 edge.2 == place).mapM (inequality regions) :
      Act Function σ _) (·.flatMap id) (tests regions edges place) :=
    .mapM fun edge _ => builds_inequality edge
  exact domain.both due fun d _ => congrArg (d :: ·) List.flatMap_id.symm

/-! ## What the comparisons ask -/

theorem value_ne_iff (a b : Colour) : (a.value != b.value) = true ↔ a ≠ b := by
  cases a <;> cases b <;> decide

/-- A comparison is due at the later end of an edge that has regions at both ends. -/
theorem mem_tests {place : Nat} {r : Relation Function} : r ∈ tests regions edges place ↔
    ∃ edge ∈ edges, max edge.1 edge.2 = place ∧ ∃ x y, regions[edge.1]? = some x ∧
      regions[edge.2]? = some y ∧ r = .compare 0 x y (.custom differ) := by
  rw [tests, List.mem_flatMap]
  constructor
  · rintro ⟨edge, hedge, hr⟩
    obtain ⟨hedge, last⟩ := List.mem_filter.mp hedge
    refine ⟨edge, hedge, beq_iff_eq.mp last, ?_⟩
    unfold comparisons at hr
    split at hr
    · exact ⟨_, _, ‹_›, ‹_›, List.mem_singleton.mp hr⟩
    · cases hr
  · rintro ⟨edge, hedge, last, x, y, first, second, rfl⟩
    refine ⟨edge, List.mem_filter.mpr ⟨hedge, beq_iff_eq.mpr last⟩, ?_⟩
    rw [comparisons, first, second]
    exact List.mem_singleton_self _

theorem due_tests (regions : List Var) (edges : List (Nat × Nat)) :
    Due regions (tests regions edges) := by
  intro place _ r hr
  obtain ⟨edge, -, last, x, y, first, second, rfl⟩ := mem_tests.mp hr
  refine ⟨fun v u => ⟨_, rfl⟩, List.cons_subset.mpr ⟨?_, List.cons_subset.mpr ⟨?_, List.nil_subset _⟩⟩⟩
  · exact mem_take_of_le (by omega) first
  · exact mem_take_of_le (by omega) second

/-- Positions are chosen for all regions alike. -/
theorem chosen_iff {n m : Nat} {t : List Nat} :
    List.Forall₂ (· ∈ ·) t ((List.range n).map fun _ => List.range m) ↔
      t.length = n ∧ ∀ p ∈ t, p < m := by
  rw [List.forall₂_map_right_iff, List.forall₂_iff_get, List.length_range]
  refine and_congr_right fun length => ⟨fun each p hp => ?_, fun listed place here _ => ?_⟩
  · obtain ⟨place, here, rfl⟩ := List.mem_iff_getElem.mp hp
    exact List.mem_range.mp (each place here (by omega))
  · exact List.mem_range.mpr (listed _ (List.get_mem t _))

section Held

variable {t : List Nat} {value : Nat → Option Value}
variable (listed : ∀ p ∈ t, p < colours.length)
variable (held : List.Forall₂ (fun x p => value x.id = some (colours.getD p .red).value) regions t)
include listed held

/-- A region has the value of its colour. -/
theorem exists_colourAt {place : Nat} {x : Var} (hx : regions[place]? = some x) :
    ∃ c, colourAt colours t place = some c ∧ value x.id = some c.value := by
  obtain ⟨here, rfl⟩ := List.getElem?_eq_some_iff.mp hx
  obtain ⟨length, each⟩ := List.forall₂_iff_get.mp held
  have there : place < t.length := length ▸ here
  have known : t[place] < colours.length := listed _ (List.getElem_mem there)
  have shown := each place here there
  refine ⟨colours[t[place]], ?_, ?_⟩
  · rw [colourAt, List.getElem?_eq_getElem there, Option.bind_some, List.getElem?_eq_getElem known]
  · rw [List.get_eq_getElem, List.get_eq_getElem, List.getD_eq_getElem?_getD,
      List.getElem?_eq_getElem known, Option.getD_some] at shown
    exact shown

/-- A comparison holds if its ends have different colours. -/
theorem satisfied_iff_differ {i j : Nat} {x y : Var} (first : regions[i]? = some x)
    (second : regions[j]? = some y) :
    (Relation.compare 0 x y (.custom differ)).satisfied value = true ↔
      colourAt colours t i ≠ colourAt colours t j := by
  obtain ⟨a, left, shownLeft⟩ := exists_colourAt listed held first
  obtain ⟨b, right, shownRight⟩ := exists_colourAt listed held second
  have judged : (Comparison.custom differ).judge a.value b.value = .ok (a.value != b.value) := rfl
  rw [satisfied_compare shownLeft shownRight judged, value_ne_iff, left, right]
  exact not_congr Option.some_inj.symm

/-- **All comparisons hold** of the proper colourings, and of no others. -/
theorem satisfied_iff_proper :
    (∀ place < regions.length, ∀ r ∈ tests regions edges place, r.satisfied value = true) ↔
      Proper regions.length edges colours t := by
  constructor
  · intro satisfied
    refine ⟨held.length_eq.symm, listed, fun edge hedge left right => ?_⟩
    have first : regions[edge.1]? = some regions[edge.1] := List.getElem?_eq_getElem left
    have second : regions[edge.2]? = some regions[edge.2] := List.getElem?_eq_getElem right
    refine (satisfied_iff_differ listed held first second).mp ?_
    exact satisfied (max edge.1 edge.2) (by omega) _
      (mem_tests.mpr ⟨edge, hedge, rfl, _, _, first, second, rfl⟩)
  · intro proper place _ r hr
    obtain ⟨edge, hedge, -, x, y, first, second, rfl⟩ := mem_tests.mp hr
    obtain ⟨left, -⟩ := List.getElem?_eq_some_iff.mp first
    obtain ⟨right, -⟩ := List.getElem?_eq_some_iff.mp second
    exact (satisfied_iff_differ listed held first second).mpr (proper.differ edge hedge left right)

end Held

/-! ## The colourings -/

/-- **The colourings of a map.**  Let regions be different variables without values on which nothing is
pending.  Their colouring relation gives one solution for each proper colouring, in the lexicographic order of
the colours' positions: it binds each region to its colour, and nothing else.  So the first solution is
missing just if no colouring is proper. -/
theorem colourings_exact (regions : List Var) (edges : List (Nat × Nat)) (colours : List Colour)
    (w : World Function σ) (distinct : (regions.map Var.id).Nodup)
    (unbound : ∀ x ∈ regions, w.value x = none) (unwatched : ∀ x ∈ regions, (w.cell x).watches = []) :
    ∃ root w', relation regions edges colours w = .ok root w' ∧
      ∃ tuples : List (List Nat), tuples.Pairwise (· < ·) ∧
        (∀ t, t ∈ tuples ↔ Proper regions.length edges colours t) ∧
        ∀ fuel, root.weight < fuel → root.Gives fuel w' regions (tuples.map (shades colours)) ∧
          ∃ reply w'', root.first? Function.call fuel {} w' = .ok reply w'' ∧
            (reply = none ↔ ∀ t, ¬ Proper regions.length edges colours t) := by
  have due := due_tests regions edges
  obtain ⟨root, w', built, assembled⟩ := (builds_stagesOf builds_regionParts regions).all
    (leaves_stagesOf _ due).1 w
  have values : colours.map Colour.value =
      (List.range colours.length).map fun p => (colours.getD p .red).value := by
    refine List.ext_getElem (by simp) fun p here there => ?_
    have known : p < colours.length := by simpa using here
    simp [known]
  rw [values] at assembled
  have judges (t : List Nat) (value : Nat → Option Value)
      (chosen : List.Forall₂ (· ∈ ·) t ((List.range regions.length).map fun _ =>
        List.range colours.length))
      (held : List.Forall₂ (fun x p => value x.id = some (colours.getD p .red).value) regions t) :
      (∀ place < regions.length, ∀ r ∈ tests regions edges place, r.satisfied value = true) ↔
        Proper regions.length edges colours t :=
    satisfied_iff_proper (chosen_iff.mp chosen).2 held
  obtain ⟨tuples, increasing, members, gives⟩ := assembled.lists (fun _ => List.range colours.length) _
    (Proper regions.length edges colours) due distinct unbound unwatched
    (fun _ _ => List.pairwise_lt_range) judges
  have proper : ∀ t, t ∈ tuples ↔ Proper regions.length edges colours t := by
    intro t
    rw [members, chosen_iff]
    exact and_iff_right_of_imp fun h => ⟨h.length, h.listed⟩
  refine ⟨root, w', built, tuples, increasing, proper, fun fuel enough => ⟨gives fuel enough, ?_⟩⟩
  obtain ⟨reply, w'', ran, shows⟩ := (gives fuel enough).first
  refine ⟨reply, w'', ran, ?_⟩
  cases tuples with
  | nil =>
    cases shows
    exact iff_of_true rfl fun t h => List.not_mem_nil ((proper t).mpr h)
  | cons t _ =>
    cases shows
    exact iff_of_false nofun fun none => none t ((proper t).mp (List.mem_cons_self ..))

/-- Two colours are not enough for a triangle. -/
theorem triangle_in_two_colours :
    let regions : List Var := [⟨0, "A"⟩, ⟨1, "B"⟩, ⟨2, "C"⟩]
    let w : World Function Unit := { client := () }
    ∃ root w' w'', relation regions [(0, 1), (1, 2), (0, 2)] [.red, .yellow] w = .ok root w' ∧
      root.first? Function.call (root.weight + 1) {} w' = .ok none w'' := by
  intro regions w
  have new (x : Var) : w.cell x = {} := Table.get_empty x.id
  have improper (t : List Nat) : ¬ Proper 3 [(0, 1), (1, 2), (0, 2)] [.red, .yellow] t := by
    rintro ⟨length, listed, differ⟩
    obtain ⟨p, q, r, rfl⟩ := List.length_eq_three.mp length
    have first := differ (0, 1) (by simp) (by decide) (by decide)
    have second := differ (1, 2) (by simp) (by decide) (by decide)
    have third := differ (0, 2) (by simp) (by decide) (by decide)
    simp only [List.mem_cons, List.not_mem_nil, or_false, forall_eq_or_imp, forall_eq] at listed
    obtain ⟨hp, hq, hr⟩ := listed
    have apart {i j : Nat} (h : i ≠ j) (hi : i < 2) (hj : j < 2) : i + j = 1 := by omega
    have pq := apart (fun e => first (by simp [colourAt, e])) hp hq
    have qr := apart (fun e => second (by simp [colourAt, e])) hq hr
    have pr := apart (fun e => third (by simp [colourAt, e])) hp hr
    omega
  have unbound : ∀ x ∈ regions, w.value x = none := fun x _ => by rw [World.value, new]
  have unwatched : ∀ x ∈ regions, (w.cell x).watches = [] := fun x _ => by rw [new]
  obtain ⟨root, w', built, tuples, -, -, gives⟩ := colourings_exact regions [(0, 1), (1, 2), (0, 2)]
    [.red, .yellow] w (by decide) unbound unwatched
  obtain ⟨-, reply, w'', ran, missing⟩ := gives (root.weight + 1) (Nat.lt_succ_self _)
  obtain rfl := missing.mpr improper
  exact ⟨root, w', w'', built, ran⟩

/-- A comparison outside the map that is still pending counts as one of its edges: two regions without an
edge between them have four proper colourings in two colours, but only two solutions while a comparison
waits for both regions to be equal. -/
theorem pending_comparison_colours :
    let x : Var := ⟨0, "X"⟩
    let y : Var := ⟨1, "Y"⟩
    let outside : Act Function Unit Bool := do
      let x ← Var.create "X"
      let y ← Var.create "Y"
      let r ← Relation.create (.compare · x y .equality)
      r.solve Function.call 1
    (∀ t ∈ [[0, 0], [0, 1], [1, 0], [1, 1]], Proper 2 [] [.red, .green] t) ∧
    ∃ w root w' solutions w'', outside { client := () } = .ok true w ∧
      ([x, y].map Var.id).Nodup ∧ (∀ z ∈ [x, y], w.value z = none) ∧
      relation [x, y] [] [.red, .green] w = .ok root w' ∧
      root.collect Function.call 64 {} w' = .ok solutions w'' ∧ solutions.length = 2 := by
  intro x y outside
  have proper : ∀ t ∈ [[0, 0], [0, 1], [1, 0], [1, 1]], Proper 2 [] [.red, .green] t := by
    intro t ht
    simp only [List.mem_cons, List.not_mem_nil, or_false] at ht
    rcases ht with rfl | rfl | rfl | rfl <;> exact ⟨rfl, by decide, nofun⟩
  have solved : ∃ b w, outside { client := () } = .ok b w ∧
      (b && (w.value x).isNone && (w.value y).isNone &&
        match relation [x, y] [] [.red, .green] w with
        | .ok root w' =>
          match root.collect Function.call 64 {} w' with
          | .ok solutions _ => solutions.length == 2
          | .error .. => false
        | .error .. => false) = true := exists_ok (by decide +kernel)
  obtain ⟨b, w, ran, seen⟩ := solved
  simp only [Bool.and_eq_true, Option.isNone_iff_eq_none] at seen
  obtain ⟨⟨⟨rfl, freeX⟩, freeY⟩, found⟩ := seen
  have unbound : ∀ z ∈ [x, y], w.value z = none :=
    List.forall_mem_cons.mpr ⟨freeX, List.forall_mem_singleton.mpr freeY⟩
  cases built : relation [x, y] [] [.red, .green] w with
  | error why w' => rw [built] at found; cases found
  | ok root w' =>
    rw [built] at found
    dsimp only at found
    cases collected : root.collect Function.call 64 {} w' with
    | error why w'' => rw [collected] at found; cases found
    | ok solutions w'' =>
      rw [collected] at found
      exact ⟨proper, w, root, w', solutions, w'', ran, by decide, unbound, built, collected,
        beq_iff_eq.mp found⟩

end RelationSearch.Colouring
