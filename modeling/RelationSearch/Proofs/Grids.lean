import Mathlib.Data.List.GetD
import RelationSearch.Proofs.Puzzles
import RelationSearch.Puzzles.Sudoku

/-! # The solved grids

The relation of a sudoku gives exactly the solved grids that agree with the givens, in the row-major order of
their numbers (`Sudoku.grids_exact`).  That holds of any givens: numbers above four stay where they are given,
and contradictory ones leave no grid.

Which cells must differ is said by their places alone (`Linked`).  The groups whose tests the relation makes
are read off the cell at which they end, and account for all linked cells between them
(`exists_group_of_linked`).
-/
namespace RelationSearch.Sudoku

open Act RelationSearch.Relation

variable {σ : Type} {cells : List Var} {givens grid : List Nat} {value : Nat → Option Value}

/-! ## Solved grids -/

/-- Two cells are in one row, one column or one box. -/
def Linked (i j : Nat) : Prop :=
  i / side = j / side ∨ i % side = j % side ∨
    i / side / boxSide = j / side / boxSide ∧ i % side / boxSide = j % side / boxSide

instance : DecidableRel Linked := fun i j =>
  inferInstanceAs (Decidable (i / side = j / side ∨ i % side = j % side ∨
    i / side / boxSide = j / side / boxSide ∧ i % side / boxSide = j % side / boxSide))

/-- No two different cells in one row, one column or one box have the same number. -/
def Differ (grid : List Nat) : Prop :=
  ∀ i < side * side, ∀ j < side * side, i ≠ j → Linked i j → grid.getD i 0 ≠ grid.getD j 0

instance (grid : List Nat) : Decidable (Differ grid) :=
  inferInstanceAs (Decidable (∀ i < side * side, ∀ j < side * side, i ≠ j → Linked i j →
    grid.getD i 0 ≠ grid.getD j 0))

/-- The grid agrees with the givens, has numbers from one to four where there is no given, and has different
numbers in each row, column and box. -/
structure Solved (givens grid : List Nat) : Prop where
  length : grid.length = side * side
  given : ∀ cell < side * side, givens.getD cell 0 ≠ 0 → grid.getD cell 0 = givens.getD cell 0
  filled : ∀ cell < side * side, givens.getD cell 0 = 0 → 1 ≤ grid.getD cell 0 ∧ grid.getD cell 0 ≤ side
  differ : Differ grid

instance (givens grid : List Nat) : Decidable (Solved givens grid) :=
  decidable_of_iff
    (grid.length = side * side ∧
      (∀ cell < side * side, givens.getD cell 0 ≠ 0 → grid.getD cell 0 = givens.getD cell 0) ∧
      (∀ cell < side * side, givens.getD cell 0 = 0 →
        1 ≤ grid.getD cell 0 ∧ grid.getD cell 0 ≤ side) ∧
      Differ grid)
    ⟨fun ⟨length, given, filled, differ⟩ => ⟨length, given, filled, differ⟩,
      fun h => ⟨h.length, h.given, h.filled, h.differ⟩⟩

/-! ## Groups of cells -/

/-- A group ends at its last cell. -/
theorem le_of_mem_group : ∀ cell < side * side, ∀ group ∈ groupsEndingAt cell, ∀ i ∈ group, i ≤ cell := by
  decide

/-- The cells of a group are different, and linked to each other. -/
theorem linked_of_group : ∀ cell < side * side, ∀ group ∈ groupsEndingAt cell,
    group.Nodup ∧ ∀ i ∈ group, ∀ j ∈ group, Linked i j := by
  decide

/-- Linked cells are together in some group. -/
theorem exists_group_of_linked : ∀ i j : Fin (side * side), Linked i j →
    ∃ cell : Fin (side * side), ∃ group ∈ groupsEndingAt cell, i.val ∈ group ∧ j.val ∈ group := by
  decide

/-- Different numbers in every group are different numbers in linked cells. -/
theorem differ_iff_groups : Differ grid ↔
    ∀ cell < side * side, ∀ group ∈ groupsEndingAt cell, (group.map (grid.getD · 0)).Nodup := by
  constructor
  · intro differ cell within group hgroup
    obtain ⟨nodup, linked⟩ := linked_of_group cell within group hgroup
    have inside {i : Nat} (hi : i ∈ group) : i < side * side :=
      Nat.lt_of_le_of_lt (le_of_mem_group cell within group hgroup i hi) within
    refine (List.nodup_map_iff_inj_on nodup).mpr fun i hi j hj same => ?_
    by_contra apart
    exact differ i (inside hi) j (inside hj) apart (linked i hi j hj) same
  · intro groups i hi j hj apart linked same
    obtain ⟨⟨cell, within⟩, group, hgroup, memI, memJ⟩ := exists_group_of_linked ⟨i, hi⟩ ⟨j, hj⟩ linked
    have nodup := (linked_of_group cell within group hgroup).1
    exact apart ((List.nodup_map_iff_inj_on nodup).mp (groups cell within group hgroup) i memI j memJ same)

/-! ## The parts of the relation -/

/-- The numbers that a cell may hold: the given one, or, if that is zero, the numbers from one to four. -/
def options (given : Nat) : List Nat :=
  if given = 0 then (List.range side).map (· + 1) else [given]

theorem map_number_options (given : Nat) : (options given).map number = candidates given := by
  unfold options candidates
  split
  · rw [List.map_map]
    rfl
  · rfl

theorem mem_options {given n : Nat} :
    n ∈ options given ↔ (given ≠ 0 → n = given) ∧ (given = 0 → 1 ≤ n ∧ n ≤ side) := by
  unfold options
  split
  · rename_i empty
    simp only [List.mem_map, List.mem_range]
    constructor
    · rintro ⟨i, hi, rfl⟩
      exact ⟨absurd empty, fun _ => by omega⟩
    · rintro ⟨-, h⟩
      obtain ⟨low, high⟩ := h empty
      exact ⟨n - 1, by omega, by omega⟩
  · rename_i full
    rw [List.mem_singleton]
    constructor
    · exact fun same => ⟨fun _ => same, fun empty => absurd empty full⟩
    · exact fun h => h.1 full

theorem increasing_options (given : Nat) : (options given).Pairwise (· < ·) := by
  unfold options
  split
  · decide
  · exact List.pairwise_singleton ..

/-- The tests of the groups that a cell completes. -/
def tests (cells : List Var) (cell : Nat) : List (Relation Function) :=
  (groupsEndingAt cell).map fun group => .predicate 0 (group.filterMap fun i => cells[i]?) allDifferent

theorem builds_cellParts (x : Var) (cell : Nat) :
    Builds (cellParts cells givens x cell : Act Function σ _) id
      (Stage.leaves ⟨x, candidates (givens.getD cell 0), tests cells cell⟩) := by
  have domain : Builds (create fun n => .domain n x (candidates (givens.getD cell 0)) :
      Act Function σ _) ([·]) [.domain 0 x (candidates (givens.getD cell 0))] := .create fun _ => rfl
  have test (group : List Nat) : Builds (groupTest cells group : Act Function σ _) ([·])
      [.predicate 0 (group.filterMap fun i => cells[i]?) allDifferent] := by
    have made : Builds (create fun n => .predicate n (group.filterMap fun i => cells[i]?) allDifferent :
        Act Function σ _) ([·]) [.predicate 0 (group.filterMap fun i => cells[i]?) allDifferent] :=
      .create fun _ => rfl
    exact made.labelled "all_different"
  have due : Builds ((groupsEndingAt cell).mapM (groupTest cells) : Act Function σ _) (·.flatMap ([·]))
      ((groupsEndingAt cell).flatMap fun group =>
        [.predicate 0 (group.filterMap fun i => cells[i]?) allDifferent]) :=
    .mapM fun group _ => test group
  rw [← List.map_eq_flatMap] at due
  exact domain.both due fun d _ => congrArg (d :: ·) (List.flatMap_singleton' _).symm

/-- The cells of a test have their domains before it. -/
theorem due_tests (length : cells.length = side * side) : Due cells (tests cells) := by
  intro cell within r hr
  obtain ⟨group, hgroup, rfl⟩ := List.mem_map.mp hr
  refine ⟨fun vs => ⟨_, rfl⟩, fun x hx => ?_⟩
  obtain ⟨i, hi, here⟩ := List.mem_filterMap.mp hx
  have le := le_of_mem_group cell (length ▸ within) group hgroup i hi
  exact mem_take_of_le le here

/-! ## What the tests ask -/

theorem number_beq {a b : Nat} (ha : a < 2 ^ 63) (hb : b < 2 ^ 63) :
    (number a == number b) = (a == b) := by
  have same : Int64.ofNat a = Int64.ofNat b ↔ a = b := by
    constructor
    · intro h
      rw [← Int64.toNatClampNeg_ofNat_of_lt ha, h, Int64.toNatClampNeg_ofNat_of_lt hb]
    · exact congrArg _
  change (Int64.ofNat a == Int64.ofNat b) = _
  rw [Bool.eq_iff_iff, beq_iff_eq, beq_iff_eq, same]

/-- Numbers that are not too large are different values if they are different. -/
theorem allDistinct_number {ns : List Nat} (small : ∀ n ∈ ns, n < 2 ^ 63) :
    Value.allDistinct (ns.map number) = true ↔ ns.Nodup := by
  induction ns with
  | nil => exact iff_of_true rfl List.nodup_nil
  | cons n ns ih =>
    obtain ⟨here, later⟩ := List.forall_mem_cons.mp small
    have contains : (ns.map number).contains (number n) = true ↔ n ∈ ns := by
      rw [List.contains_iff_exists_mem_beq]
      constructor
      · rintro ⟨v, hv, same⟩
        obtain ⟨m, hm, rfl⟩ := List.mem_map.mp hv
        rw [number_beq here (later m hm), beq_iff_eq] at same
        exact same ▸ hm
      · intro hn
        refine ⟨number n, List.mem_map_of_mem hn, ?_⟩
        rw [number_beq here here, beq_self_eq_true]
    rw [List.map_cons, Value.allDistinct, Bool.and_eq_true, Bool.not_eq_true', ← Bool.not_eq_true,
      contains, ih later, List.nodup_cons]

section Held

variable (held : List.Forall₂ (fun x n => value x.id = some (number n)) cells grid)
include held

/-- The values of a group of cells. -/
theorem valuesOf_group {group : List Nat} (inside : ∀ i ∈ group, i < cells.length) :
    (⟨value, []⟩ : Env Function).valuesOf (group.filterMap fun i => cells[i]?) =
      .ok (group.map fun i => number (grid.getD i 0)) := by
  obtain ⟨length, each⟩ := List.forall₂_iff_get.mp held
  induction group with
  | nil => rfl
  | cons i group ih =>
    obtain ⟨here, later⟩ := List.forall_mem_cons.mp inside
    have there : i < grid.length := length ▸ here
    have shown : value cells[i].id = some (number grid[i]) := each i here there
    rw [List.filterMap_cons, List.getElem?_eq_getElem here, Env.valuesOf, ih later, List.map_cons,
      List.getD_eq_getElem _ _ there]
    dsimp only
    rw [shown]
    rfl

/-- **All tests hold** of the grids with different numbers in linked cells, and of no others. -/
theorem satisfied_iff_differ (length : cells.length = side * side) (small : ∀ n ∈ grid, n < 2 ^ 63) :
    (∀ cell < cells.length, ∀ r ∈ tests cells cell, r.satisfied value = true) ↔ Differ grid := by
  have judged {cell : Nat} (within : cell < side * side) {group : List Nat}
      (hgroup : group ∈ groupsEndingAt cell) :
      (Relation.predicate 0 (group.filterMap fun i => cells[i]?) allDifferent).satisfied value = true ↔
        (group.map (grid.getD · 0)).Nodup := by
    have inside : ∀ i ∈ group, i < cells.length := by
      intro i hi
      have le := le_of_mem_group cell within group hgroup i hi
      omega
    have values := valuesOf_group held inside
    have tested : allDifferent.holds (group.map fun i => number (grid.getD i 0)) =
        .ok (Value.allDistinct (group.map fun i => number (grid.getD i 0))) := rfl
    rw [satisfied_predicate values tested]
    have numbers : (group.map fun i => number (grid.getD i 0)) =
        (group.map (grid.getD · 0)).map number := by
      rw [List.map_map]
      rfl
    rw [numbers]
    refine allDistinct_number fun n hn => ?_
    obtain ⟨i, hi, rfl⟩ := List.mem_map.mp hn
    have there : i < grid.length := held.length_eq ▸ inside i hi
    rw [List.getD_eq_getElem _ _ there]
    exact small _ (List.getElem_mem there)
  rw [differ_iff_groups, length]
  refine forall₂_congr fun cell within => ?_
  rw [tests, List.forall_mem_map]
  exact forall₂_congr fun group hgroup => judged within hgroup

end Held

/-! ## The grids -/

/-- One of the options is chosen for each cell. -/
theorem chosen_iff : List.Forall₂ (· ∈ ·) grid ((List.range (side * side)).map fun cell =>
      options (givens.getD cell 0)) ↔
    grid.length = side * side ∧ ∀ cell < side * side, grid.getD cell 0 ∈ options (givens.getD cell 0) := by
  rw [List.forall₂_map_right_iff, List.forall₂_iff_get]
  simp only [List.length_range]
  refine and_congr_right fun length => ⟨fun each cell within => ?_, fun each cell here there => ?_⟩
  · have here : cell < grid.length := length ▸ within
    rw [List.getD_eq_getElem _ _ here]
    simpa using each cell here within
  · have chosen := each cell (length ▸ here)
    rw [List.getD_eq_getElem _ _ here] at chosen
    simpa using chosen

theorem solved_iff : Solved givens grid ↔
    List.Forall₂ (· ∈ ·) grid ((List.range (side * side)).map fun cell => options (givens.getD cell 0)) ∧
      Differ grid := by
  rw [chosen_iff]
  constructor
  · rintro ⟨length, given, filled, differ⟩
    exact ⟨⟨length, fun cell within => mem_options.mpr ⟨given cell within, filled cell within⟩⟩, differ⟩
  · rintro ⟨⟨length, each⟩, differ⟩
    exact ⟨length, fun cell within => (mem_options.mp (each cell within)).1,
      fun cell within => (mem_options.mp (each cell within)).2, differ⟩

/-- Numbers that are bytes or at most four are small. -/
theorem small_of_chosen (bytes : ∀ given ∈ givens, given < 256)
    (chosen : List.Forall₂ (· ∈ ·) grid ((List.range (side * side)).map fun cell =>
      options (givens.getD cell 0))) : ∀ n ∈ grid, n < 2 ^ 63 := by
  obtain ⟨length, each⟩ := chosen_iff.mp chosen
  intro n hn
  obtain ⟨cell, here, rfl⟩ := List.mem_iff_getElem.mp hn
  have option := each cell (length ▸ here)
  rw [List.getD_eq_getElem _ _ here] at option
  obtain ⟨given, filled⟩ := mem_options.mp option
  by_cases empty : givens.getD cell 0 = 0
  · have four := (filled empty).2
    unfold side at four
    omega
  · rw [given empty]
    have known : cell < givens.length := by
      by_contra outside
      exact empty (List.getD_eq_default _ _ (Nat.le_of_not_lt outside))
    rw [List.getD_eq_getElem _ _ known]
    have byte := bytes _ (List.getElem_mem known)
    omega

/-- **The grids of a sudoku.**  For any givens, zero standing for an empty cell, the relation gives one
solution for each solved grid, in the row-major order of the numbers: it binds each cell to its number, and
nothing else.  A client who collects them is interrupted only if the fuel runs out; so no test asks for the
number of a cell that has none. -/
theorem grids_exact (givens : Vector UInt8 (side * side)) (w : World Function σ) :
    ∃ cells w₁ root w₂,
      ((List.range (side * side)).mapM fun cell => Var.create (cellName cell)) w = .ok cells w₁ ∧
      relation cells (givens.toList.map UInt8.toNat) w₁ = .ok root w₂ ∧
      ∃ grids : List (List Nat), grids.Pairwise (· < ·) ∧
        (∀ grid, grid ∈ grids ↔ Solved (givens.toList.map UInt8.toNat) grid) ∧
        (∀ fuel, root.weight < fuel → root.Gives fuel w₂ cells (grids.map (List.map number))) ∧
        ∀ fuel why w₃, root.collect Function.call fuel {} w₂ = .error why w₃ → why = .outOfFuel := by
  obtain ⟨cells, w₁, created, names, distinct, bare⟩ :=
    Var.created_new cellName (List.range (side * side)) w
  have length : cells.length = side * side := by
    have same := congrArg List.length names
    rwa [List.length_map, List.length_map, List.length_range] at same
  have unbound : ∀ x ∈ cells, w₁.value x = none := fun x hx => by rw [World.value, bare x hx]
  have unwatched : ∀ x ∈ cells, (w₁.cell x).watches = [] := fun x hx => by rw [bare x hx]
  have due := due_tests length
  have bytes : ∀ given ∈ givens.toList.map UInt8.toNat, given < 256 := by
    intro given hgiven
    obtain ⟨byte, -, rfl⟩ := List.mem_map.mp hgiven
    exact byte.toNat_lt
  generalize givens.toList.map UInt8.toNat = givens at bytes ⊢
  obtain ⟨root, w₂, built, assembled⟩ := (builds_stagesOf builds_cellParts cells).all
    (leaves_stagesOf _ due).1 w₁
  have stopped (fuel : Nat) (why : Interrupt) (w₃ : World Function σ)
      (ran : root.collect Function.call fuel {} w₂ = .error why w₃) : why = .outOfFuel :=
    assembled.collect_error due distinct unbound unwatched ran
  rw [← funext fun cell => map_number_options (givens.getD cell 0)] at assembled
  obtain ⟨grids, increasing, members, gives⟩ := assembled.lists (fun cell => options (givens.getD cell 0))
    number Differ due distinct unbound unwatched (fun cell _ => increasing_options _)
    fun grid value chosen held => by
      rw [length] at chosen
      exact satisfied_iff_differ held length (small_of_chosen bytes chosen)
  refine ⟨cells, w₁, root, w₂, created, built, grids, increasing, fun grid => ?_, gives, stopped⟩
  rw [members, length, solved_iff]

example : Solved
    [1, 0, 0, 0,
     0, 0, 3, 0,
     0, 4, 0, 0,
     0, 0, 0, 2]
    [1, 3, 2, 4,
     4, 2, 3, 1,
     2, 4, 1, 3,
     3, 1, 4, 2] := by
  decide

end RelationSearch.Sudoku
