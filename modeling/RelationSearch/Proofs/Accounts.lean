import RelationSearch.Proofs.Ledger

/-! # Everything is accounted for

While a graph is searched, a variable that the client left unbound is bound only as long as a leaf of the
graph owns the binding, and every watch beyond those that were there before is listed by a comparison of
the graph.  `Cell.Accounted` says so of one variable, compared with what it was when the search began, and
is a ledger: every call on every node keeps it, whichever way it ends.

When all nodes are fresh nobody owns or lists anything, so that a reset restores every variable
(`Accounted.restored`).
-/
namespace RelationSearch

variable {κ σ : Type} {root : Relation κ} {base w : World κ σ}

/-- Compared with what it was, the cell has changed only by a binding that is owned and by watches that
are listed. -/
structure Cell.Accounted (c₀ c : Cell κ) (owned : Prop) (lists : Nat → Prop) : Prop where
  unbound : owned → c₀.value = none
  free : ¬ owned → c.value = c₀.value
  generation : c₀.value.isSome → c.generation = c₀.generation
  watches : ∃ extra, c.watches = c₀.watches ++ extra ∧ ∀ watch ∈ extra, lists watch.id
  later : ∀ id, lists id → c₀.nextWatch ≤ id
  nextWatch : c₀.nextWatch ≤ c.nextWatch

namespace Cell.Accounted

variable {c₀ c : Cell κ} {owned owned' : Prop} {lists lists' : Nat → Prop}

theorem refl (c : Cell κ) (unowned : ¬ owned) (unlisted : ∀ id, ¬ lists id) :
    Accounted c c owned lists where
  unbound own := absurd own unowned
  free _ := rfl
  generation _ := rfl
  watches := ⟨[], (List.append_nil _).symm, nofun⟩
  later id noted := absurd noted (unlisted id)
  nextWatch := Nat.le_refl _

/-- A cell that nobody owns and whose watches nobody lists is restored. -/
theorem restored (h : Accounted c₀ c owned lists) (unowned : ¬ owned)
    (unlisted : ∀ id, ¬ lists id) : c₀.Restored c := by
  refine ⟨h.free unowned, ?_, h.nextWatch, h.generation⟩
  obtain ⟨extra, watches, noted⟩ := h.watches
  -- Any watch too many would have to be listed.
  cases extra with
  | nil => rw [watches, List.append_nil]
  | cons watch rest => exact absurd (noted watch (List.mem_cons_self ..)) (unlisted _)

theorem put (h : Accounted c₀ c owned lists) (own : owned) (v : Value) :
    Accounted c₀ (c.put v) owned lists where
  unbound := h.unbound
  free unowned := absurd own unowned
  generation bound := by rw [h.unbound own] at bound; cases bound
  watches := h.watches
  later := h.later
  nextWatch := h.nextWatch

theorem clear (h : Accounted c₀ c owned lists) (own : owned) : Accounted c₀ c.clear owned lists where
  unbound := h.unbound
  free unowned := absurd own unowned
  generation bound := by rw [h.unbound own] at bound; cases bound
  watches := by rw [watches_clear]; exact h.watches
  later := h.later
  nextWatch := by unfold Cell.clear; split <;> exact h.nextWatch

theorem addWatch (h : Accounted c₀ c owned lists) (own : lists c.nextWatch) (other : Var)
    (comparison : Comparison κ) (onLeft : Bool) :
    Accounted c₀ (c.addWatch other comparison onLeft) owned lists where
  unbound := h.unbound
  free := h.free
  generation := h.generation
  watches := by
    obtain ⟨extra, watches, noted⟩ := h.watches
    refine ⟨extra ++ [⟨c.nextWatch, other, comparison, onLeft⟩], ?_, fun watch hm => ?_⟩
    · rw [Cell.addWatch, watches, List.append_assoc]
    · rcases List.mem_append.mp hm with hm | hm
      · exact noted watch hm
      · obtain rfl := List.mem_singleton.mp hm
        exact own
  later := h.later
  nextWatch := Nat.le_succ_of_le h.nextWatch

/-- Watches that are listed are dropped, and the older ones are not among them. -/
theorem drop (h : Accounted c₀ c owned lists) {drops : Nat → Bool}
    (own : ∀ id, drops id = true → lists id)
    (numbered : ∀ watch ∈ c₀.watches, watch.id < c₀.nextWatch) :
    Accounted c₀ { c with watches := c.watches.filter fun watch => !drops watch.id } owned lists where
  unbound := h.unbound
  free := h.free
  generation := h.generation
  watches := by
    obtain ⟨extra, watches, noted⟩ := h.watches
    refine ⟨extra.filter fun watch => !drops watch.id, ?_, fun watch hm => ?_⟩
    -- The watches of the beginning are older than any that a leaf lists, and stay.
    · rw [watches, List.filter_append, List.filter_eq_self.mpr]
      intro watch hm
      have older := numbered watch hm
      cases dropped : drops watch.id with
      | false => rfl
      | true => exact absurd (h.later _ (own _ dropped)) (Nat.not_le_of_lt older)
    · exact noted watch (List.mem_of_mem_filter hm)
  later := h.later
  nextWatch := h.nextWatch

theorem change (h : Accounted c₀ c owned lists) (gained : owned' → owned ∨ c.value = none)
    (lost : owned → ¬ owned' → c.value = none)
    (noted : ∀ id, lists' id → lists id ∨ c.nextWatch ≤ id)
    (dropped : ∀ watch ∈ c.watches, lists watch.id → lists' watch.id) :
    Accounted c₀ c owned' lists' where
  unbound own := by
    by_cases before : owned
    · exact h.unbound before
    · rw [← h.free before]
      exact (gained own).resolve_left before
  free unowned := by
    by_cases before : owned
    · rw [lost before unowned, h.unbound before]
    · exact h.free before
  generation := h.generation
  watches := by
    obtain ⟨extra, watches, lists⟩ := h.watches
    refine ⟨extra, watches, fun watch hm => dropped watch ?_ (lists watch hm)⟩
    rw [watches]
    exact List.mem_append_right _ hm
  later id lists := (noted id lists).elim (h.later id) (Nat.le_trans h.nextWatch)
  nextWatch := h.nextWatch

/-- What the cell shows is all that is accounted for. -/
theorem shown {c' : Cell κ} (h : Accounted c₀ c owned lists) (same : c.Restored c') :
    Accounted c₀ c' owned lists where
  unbound := h.unbound
  free unowned := same.value.trans (h.free unowned)
  generation bound := by
    have unowned : ¬ owned := fun own => by rw [h.unbound own] at bound; cases bound
    rw [same.generation (h.free unowned ▸ bound)]
    exact h.generation bound
  watches := by
    rw [same.watches]
    exact h.watches
  later := h.later
  nextWatch := Nat.le_trans h.nextWatch same.nextWatch

/-- The accounts of the variables since some world are a ledger. -/
theorem ledger (numbered : base.Numbered) :
    Ledger fun i => Accounted (base.cells.get i) where
  put h own v := h.put own v
  clear h own := h.clear own
  addWatch h own other comparison onLeft := h.addWatch own other comparison onLeft
  drop := fun {i} _ _ _ h _ own => h.drop own (numbered ⟨i, ""⟩)
  change h := h.change

end Cell.Accounted

/-- That watches are older than the number of the next one is a ledger too. -/
theorem World.Numbered.ledger :
    Ledger fun _ (c : Cell κ) _ _ => ∀ watch ∈ c.watches, watch.id < c.nextWatch where
  put h _ _ := h
  clear h _ := by
    unfold Cell.clear
    split <;> exact h
  addWatch h _ := Cell.numbered_addWatch h
  drop h _ _ watch hm := h watch (List.mem_of_mem_filter hm)
  change h _ _ _ _ := h

theorem Relation.AtRest.free {s : Relation κ} {x : Var} (h : s.AtRest w) (owns : s.Owns w x) :
    w.value x = none := by
  cases s with
  | domain n y values =>
    obtain ⟨same, rest, offering⟩ := owns
    rw [World.value, ← cell_congr w same]
    exact h rest offering
  | convert n y z f =>
    obtain ⟨-, generation, applied⟩ := owns
    exact absurd applied (h generation)
  | _ => cases owns

theorem Relation.AtRest.not_lists {s : Relation κ} {x : Var} {id : Nat} (h : s.AtRest w) :
    ¬ s.Lists w x id := by
  intro lists
  cases s with
  | compare n y z c =>
    obtain ⟨entries, fired, lists⟩ := lists
    rw [h entries fired] at lists
    cases lists
  | _ => cases lists

/-- Compared with the world in which the search of the graph began, every variable is as it was, but for
the bindings that a leaf owns and the watches that a leaf lists. -/
abbrev Accounted (base : World κ σ) (root : Relation κ) (w : World κ σ) : Prop :=
  Books (fun i => Cell.Accounted (base.cells.get i)) root w

theorem Accounted.start (fresh : ∀ m ∈ root.ids, (w.node m).progress = .fresh) :
    Accounted w root w where
  cells _ := .refl _ (Relation.not_owned_of_fresh fresh) fun _ => Relation.not_listed_of_fresh fresh
  proper := Relation.proper_of_fresh fresh

/-- **When all nodes are fresh, every variable is restored.** -/
theorem Accounted.restored (h : Accounted base root w)
    (fresh : ∀ m ∈ root.ids, (w.node m).progress = .fresh) : Restored base w :=
  fun x => (h.cells x).restored (Relation.not_owned_of_fresh fresh) fun _ =>
    Relation.not_listed_of_fresh fresh

/-- **When every leaf is at rest, every variable is restored** too: no watch is listed, and what is still
owned has no value. -/
theorem Accounted.restored_of_settled (h : Accounted base root w) (settled : root.Settled w) :
    Restored base w := by
  intro x
  have unlisted (id : Nat) : ¬ root.Listed w x id := by
    rintro ⟨s, hs, lists⟩
    exact (settled s hs).1.not_lists lists
  have free : root.Owned w x → w.value x = none := by
    rintro ⟨s, hs, owns⟩
    exact (settled s hs).1.free owns
  have released : (base.cell x).Accounted (w.cell x) False fun _ => False :=
    (h.cells x).change False.elim (fun own _ => free own) (fun _ => False.elim)
      fun watch _ lists => unlisted watch.id lists
  exact released.restored id fun _ => id

end RelationSearch
