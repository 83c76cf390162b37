import RelationSearch.Proofs.Quiet

/-! # What the leaves answer for

A domain or a conversion that has bound a variable answers for the binding (`Relation.Owns`), and a
comparison answers for the watches it noted (`Relation.Lists`).  Each step of a leaf concerns what the leaf
answers for: it binds or unbinds a variable that it owns, leaves a watch that it has listed, drops one
that it lists; and it takes over only a variable that is unbound.

A `Ledger` is a statement about one variable that survives such steps.  Once it is true of every
variable, every call on every node keeps it true, whichever way the call ends (`Books.conducts`).
Sharing does not matter, since each step concerns one leaf.
-/
namespace RelationSearch

open Act

variable {κ σ : Type} {call : Caller κ σ} {fuel n : Nat} {root s t : Relation κ} {x : Var}
variable {w w' : World κ σ}

namespace Relation

/-- The binding of the variable is the leaf's work. -/
def Owns (w : World κ σ) (x : Var) : Relation κ → Prop
  | .domain n y _ => y.id = x.id ∧ ∃ rest, (w.node n).progress = .binding rest
  | .convert n _ y _ => y.id = x.id ∧ ∃ generation, (w.node n).progress = .applied generation true
  | _ => False

/-- The leaf noted that it left this watch on the variable. -/
def Lists (w : World κ σ) (x : Var) (id : Nat) : Relation κ → Prop
  | .compare n _ _ _ => ∃ entries, (w.node n).progress = .fired entries ∧ listed entries x id = true
  | _ => False

/-- A place where the relation may pause: a domain has no more values left than it was given, and a
conversion that owns its target is not one of a variable into itself. -/
def Proper : Relation κ → Progress → Prop
  | .domain _ _ values, .binding rest => rest.length ≤ values.length
  | .convert _ x y _, .applied _ true => x.id ≠ y.id
  | _, _ => True

theorem Owns.congr (h : s.Owns w x)
    (same : (w'.node s.node).progress = (w.node s.node).progress) : s.Owns w' x := by
  cases s with
  | domain n y values => exact ⟨h.1, h.2.imp fun _ => same.trans⟩
  | convert n z y f => exact ⟨h.1, h.2.imp fun _ => same.trans⟩
  | _ => cases h

theorem Lists.congr {id : Nat} (h : s.Lists w x id)
    (same : (w'.node s.node).progress = (w.node s.node).progress) : s.Lists w' x id := by
  cases s with
  | compare n y z c => exact h.imp fun _ h => ⟨same.trans h.1, h.2⟩
  | _ => cases h

theorem not_owns_of_fresh (h : (w.node s.node).progress = .fresh) : ¬ s.Owns w x := by
  intro owns
  cases s with
  | domain n y values => obtain ⟨-, rest, p⟩ := owns; exact nomatch h.symm.trans p
  | convert n z y f => obtain ⟨-, generation, p⟩ := owns; exact nomatch h.symm.trans p
  | _ => cases owns

theorem not_lists_of_fresh {id : Nat} (h : (w.node s.node).progress = .fresh) :
    ¬ s.Lists w x id := by
  intro lists
  cases s with
  | compare n y z c => obtain ⟨entries, p, -⟩ := lists; exact nomatch h.symm.trans p
  | _ => cases lists

theorem proper_fresh (s : Relation κ) : s.Proper .fresh := by
  cases s <;> trivial

/-- A leaf of the graph owns the binding of the variable. -/
def Owned (root : Relation κ) (w : World κ σ) (x : Var) : Prop := ∃ s ∈ root.subs, s.Owns w x

/-- A leaf of the graph lists this watch on the variable. -/
def Listed (root : Relation κ) (w : World κ σ) (x : Var) (id : Nat) : Prop :=
  ∃ s ∈ root.subs, s.Lists w x id

/-- A leaf of the graph may bind the variable. -/
def Available (root : Relation κ) (w : World κ σ) (x : Var) : Prop :=
  root.Owned w x ∨ w.value x = none

theorem Owned.congr (h : root.Owned w x)
    (same : ∀ m ∈ root.ids, (w'.node m).progress = (w.node m).progress) : root.Owned w' x := by
  obtain ⟨s, hs, owns⟩ := h
  exact ⟨s, hs, owns.congr (same _ (List.mem_map_of_mem hs))⟩

theorem Listed.congr {id : Nat} (h : root.Listed w x id)
    (same : ∀ m ∈ root.ids, (w'.node m).progress = (w.node m).progress) : root.Listed w' x id := by
  obtain ⟨s, hs, lists⟩ := h
  exact ⟨s, hs, lists.congr (same _ (List.mem_map_of_mem hs))⟩

theorem Available.untouched (h : root.Available w x) (same : Untouched w w') :
    root.Available w' x := by
  rcases h with owned | free
  · exact .inl (owned.congr fun m _ => by rw [same.node])
  · exact .inr ((same.value x).trans free)

theorem owned_congr (root : Relation κ) (w : World κ σ) {x y : Var} (h : x.id = y.id) :
    root.Owned w x = root.Owned w y := by
  have half {x y : Var} (h : x.id = y.id) (own : root.Owned w x) : root.Owned w y := by
    obtain ⟨s, hs, owns⟩ := own
    refine ⟨s, hs, ?_⟩
    cases s with
    | domain | convert => exact ⟨owns.1.trans h, owns.2⟩
    | _ => cases owns
  exact propext ⟨half h, half h.symm⟩

theorem listed_congr (root : Relation κ) (w : World κ σ) {x y : Var} (h : x.id = y.id) :
    root.Listed w x = root.Listed w y := by
  have half {x y : Var} {id : Nat} (h : x.id = y.id) (own : root.Listed w x id) :
      root.Listed w y id := by
    obtain ⟨s, hs, lists⟩ := own
    refine ⟨s, hs, ?_⟩
    cases s with
    | compare =>
      obtain ⟨entries, progress, noted⟩ := lists
      exact ⟨entries, progress, by simpa only [listed, h] using noted⟩
    | _ => cases lists
  exact funext fun id => propext ⟨half h, half h.symm⟩

theorem not_owned_of_fresh (fresh : ∀ m ∈ root.ids, (w.node m).progress = .fresh) :
    ¬ root.Owned w x := by
  rintro ⟨s, hs, owns⟩
  exact not_owns_of_fresh (fresh _ (List.mem_map_of_mem hs)) owns

theorem not_listed_of_fresh {id : Nat} (fresh : ∀ m ∈ root.ids, (w.node m).progress = .fresh) :
    ¬ root.Listed w x id := by
  rintro ⟨s, hs, lists⟩
  exact not_lists_of_fresh (fresh _ (List.mem_map_of_mem hs)) lists

theorem proper_of_fresh (fresh : ∀ m ∈ root.ids, (w.node m).progress = .fresh) :
    ∀ s ∈ root.subs, s.Proper (w.node s.node).progress := by
  intro s hs
  rw [fresh _ (List.mem_map_of_mem hs)]
  exact s.proper_fresh

end Relation

/-- A statement about a variable's number, its cell, whether a leaf owns its binding and which watches on
it are listed.  The steps of the leaves keep it true. -/
structure Ledger (A : Nat → Cell κ → Prop → (Nat → Prop) → Prop) : Prop where
  put : ∀ {i c owned lists}, A i c owned lists → owned → ∀ v, A i (c.put v) owned lists
  clear : ∀ {i c owned lists}, A i c owned lists → owned → A i c.clear owned lists
  addWatch : ∀ {i c owned lists}, A i c owned lists → lists c.nextWatch →
    ∀ other comparison onLeft, A i (c.addWatch other comparison onLeft) owned lists
  drop : ∀ {i c owned lists}, A i c owned lists → ∀ drops : Nat → Bool,
    (∀ id, drops id = true → lists id) →
    A i { c with watches := c.watches.filter fun watch => !drops watch.id } owned lists
  /-- A leaf takes over an unbound variable or gives one up; it lists later watches or forgets watches
  that are gone. -/
  change : ∀ {i c owned lists owned' lists'}, A i c owned lists → (owned' → owned ∨ c.value = none) →
    (owned → ¬ owned' → c.value = none) → (∀ id, lists' id → lists id ∨ c.nextWatch ≤ id) →
    (∀ watch ∈ c.watches, lists watch.id → lists' watch.id) → A i c owned' lists'

/-- The statement is true of every variable, and every node pauses at a proper place. -/
structure Books (A : Nat → Cell κ → Prop → (Nat → Prop) → Prop) (root : Relation κ)
    (w : World κ σ) : Prop where
  cells : ∀ x, A x.id (w.cell x) (root.Owned w x) (root.Listed w x)
  proper : ∀ s ∈ root.subs, s.Proper (w.node s.node).progress

/-- Being true is kept. -/
def KeepsBooks (A : Nat → Cell κ → Prop → (Nat → Prop) → Prop) (root : Relation κ)
    (w w' : World κ σ) : Prop :=
  Books A root w → Books A root w'

variable {A : Nat → Cell κ → Prop → (Nat → Prop) → Prop}

theorem KeepsBooks.steady (A : Nat → Cell κ → Prop → (Nat → Prop) → Prop) (root : Relation κ) :
    Steady (KeepsBooks A root : World κ σ → World κ σ → Prop) where
  refl _ := id
  trans h g := g ∘ h

namespace Books

variable (ledger : Ledger A) (quiet : call.Quiet) (coherent : root.Coherent)

/-! ## Steps -/

section Steps

include ledger

theorem congr (h : Books A root w) (cell : ∀ x, w'.cell x = w.cell x)
    (progress : ∀ m, (w'.node m).progress = (w.node m).progress) : Books A root w' where
  cells x := by
    rw [cell]
    refine ledger.change (h.cells x) ?_ ?_ ?_ ?_
    · exact fun own => .inl (own.congr fun m _ => (progress m).symm)
    · exact fun own unowned => absurd (own.congr fun m _ => progress m) unowned
    · exact fun id lists => .inl (lists.congr fun m _ => (progress m).symm)
    · exact fun watch _ lists => lists.congr fun m _ => progress m
  proper s hs := by rw [progress]; exact h.proper s hs

theorem untouched (h : Books A root w) (same : Untouched w w') : Books A root w' :=
  h.congr ledger same.cell fun m => by rw [same.node]

omit ledger in
theorem modifyCell (h : Books A root w) {f : Cell κ → Cell κ}
    (hx : A x.id (f (w.cell x)) (root.Owned w x) (root.Listed w x)) :
    Books A root (w.modifyCell x f) where
  cells y := by
    change A y.id ((w.modifyCell x f).cell y) (root.Owned w y) (root.Listed w y)
    -- Two names of one variable share its cell, and are owned and listed together.
    by_cases hy : x.id = y.id
    · rw [← cell_congr (w.modifyCell x f) hy, World.cell_modifyCell_self, ← hy,
        ← Relation.owned_congr root w hy, ← Relation.listed_congr root w hy]
      exact hx
    · rw [World.cell_modifyCell_of_ne _ _ hy]
      exact h.cells y
  proper := h.proper

theorem put (h : Books A root w) (own : root.Owned w x) (v : Value) :
    Books A root (w.modifyCell x (·.put v)) :=
  h.modifyCell (ledger.put (h.cells x) own v)

theorem clear (h : Books A root w) (own : root.Owned w x) :
    Books A root (w.modifyCell x Cell.clear) :=
  h.modifyCell (ledger.clear (h.cells x) own)

theorem dropAll (h : Books A root w) {entries : List (Var × Nat)}
    (own : ∀ x id, listed entries x id = true → root.Listed w x id) :
    Books A root (w.dropAll entries) where
  cells x := by
    rw [World.cell_dropAll]
    refine ledger.change (ledger.drop (h.cells x) _ (own x)) ?_ ?_ ?_ ?_
    · exact fun own => .inl (own.congr fun m _ => by simp)
    · exact fun own unowned => absurd (own.congr fun m _ => by simp) unowned
    · exact fun id lists => .inl (lists.congr fun m _ => by simp)
    · exact fun watch _ lists => lists.congr fun m _ => by simp
  proper s hs := by rw [World.node_dropAll]; exact h.proper s hs

theorem deferred (h : Books A root w) (x other : Var) (c : Comparison κ) (onLeft : Bool)
    (own : w.value x = none → root.Listed w x (w.cell x).nextWatch) :
    Books A root (w.deferred x other c onLeft) := by
  unfold World.deferred
  cases free : w.value x with
  | some v => exact h
  | none => exact h.modifyCell (ledger.addWatch (h.cells x) (own free) other c onLeft)

include coherent in
/-- A relation notes where it pauses, and so changes what it answers for. -/
theorem noted (h : Books A root w) (hs : s ∈ root.subs) {p : Progress} (proper : s.Proper p)
    (gained : ∀ x, s.Owns (w.noted s.node p) x → root.Available w x)
    (lost : ∀ x, s.Owns w x → ¬ s.Owns (w.noted s.node p) x → w.value x = none)
    (noted : ∀ x id, s.Lists (w.noted s.node p) x id →
      root.Listed w x id ∨ (w.cell x).nextWatch ≤ id)
    (dropped : ∀ x, ∀ watch ∈ (w.cell x).watches, s.Lists w x watch.id →
      s.Lists (w.noted s.node p) x watch.id) :
    Books A root (w.noted s.node p) := by
  -- Another relation has another node, and answers for what it answered for.
  have split (t : Relation κ) (ht : t ∈ root.subs) :
      t = s ∨ (w.noted s.node p).node t.node = w.node t.node :=
    or_iff_not_imp_left.mpr fun ne =>
      World.node_noted_of_ne _ _ _ fun e => ne (coherent t ht s hs e.symm)
  refine ⟨fun x => ledger.change (h.cells x) ?gained ?lost ?noted ?dropped, fun t ht => ?proper⟩
  case gained =>
    rintro ⟨t, ht, owns⟩
    rcases split t ht with rfl | other
    · exact gained x owns
    · exact .inl ⟨t, ht, owns.congr (by rw [other])⟩
  case lost =>
    rintro ⟨t, ht, owns⟩ unowned
    rcases split t ht with rfl | other
    · exact lost x owns fun owns' => unowned ⟨t, ht, owns'⟩
    · exact absurd ⟨t, ht, owns.congr (by rw [other])⟩ unowned
  case noted =>
    rintro id ⟨t, ht, lists⟩
    rcases split t ht with rfl | other
    · exact noted x id lists
    · exact .inl ⟨t, ht, lists.congr (by rw [other])⟩
  case dropped =>
    rintro watch hm ⟨t, ht, lists⟩
    rcases split t ht with rfl | other
    · exact ⟨t, ht, dropped x watch hm lists⟩
    · exact ⟨t, ht, lists.congr (by rw [other])⟩
  case proper =>
    rcases split t ht with rfl | other
    · rw [World.progress_noted]
      exact proper
    · rw [other]
      exact h.proper t ht

include coherent in
/-- A relation that answers for nothing notes where it pauses. -/
theorem noted_plain (h : Books A root w) (hs : s ∈ root.subs) {p : Progress}
    (proper : s.Proper p) (owns : ∀ (v : World κ σ) x, ¬ s.Owns v x)
    (lists : ∀ (v : World κ σ) x id, ¬ s.Lists v x id) : Books A root (w.noted s.node p) :=
  h.noted ledger coherent hs proper (fun x own => absurd own (owns _ x))
    (fun x own => absurd own (owns _ x)) (fun x id own => absurd own (lists _ x id))
    fun x watch _ own => absurd own (lists _ x watch.id)

end Steps

/-! ## Leaves -/

section Domain

variable {values rest : List Value} (hs : Relation.domain n x values ∈ root.subs)
include ledger coherent hs

theorem binding (h : Books A root w) (free : root.Available w x)
    (short : rest.length ≤ values.length) : Books A root (w.noted n (.binding rest)) := by
  refine h.noted ledger coherent hs (p := .binding rest) short ?_ ?_ nofun fun _ _ _ lists => lists
  · rintro y ⟨same, -⟩
    refine free.imp (Relation.owned_congr root w same ▸ ·) fun free => ?_
    exact (congrArg Cell.value (cell_congr w same)).symm.trans free
  · rintro y ⟨same, -⟩ unowned
    exact absurd ⟨same, rest, World.progress_noted ..⟩ unowned

include quiet in
theorem offer (h : Books A root w) (free : root.Available w x)
    (short : rest.length ≤ values.length) :
    Books A root ((offer call n x rest).final w) := by
  -- Each value is offered under the claim that the domain owns its variable, refused ones too.
  induction rest generalizing w with
  | nil =>
    have noted := h.binding ledger coherent hs free short
    exact noted.clear ledger ⟨_, hs, rfl, [], World.progress_noted ..⟩
  | cons v rest ih =>
    have short' : rest.length ≤ values.length := Nat.le_of_succ_le short
    have noted := h.binding ledger coherent hs free short'
    have owned {w₁ : World κ σ} (same : Untouched (w.noted n (.binding rest)) w₁) :
        root.Owned w₁ x :=
      ⟨_, hs, rfl, rest, (congrArg Node.progress (same.node n)).trans (World.progress_noted ..)⟩
    obtain ⟨w₁, same, took | refused | ⟨why, failed⟩⟩ :=
      quiet.bind_cases x v (w.noted n (.binding rest))
    · have run : RelationSearch.offer call n x (v :: rest) w = .ok true (w₁.modifyCell x (·.put v)) := by
        simp only [RelationSearch.offer, bind_apply, setProgress_apply, took, if_true, pure_apply]
      rw [final_of_ok run]
      exact (noted.untouched ledger same).put ledger (owned same) v
    · have run : RelationSearch.offer call n x (v :: rest) w = RelationSearch.offer call n x rest w₁ := by
        simp only [RelationSearch.offer, bind_apply, setProgress_apply, refused, Bool.false_eq_true,
          if_false]
      rw [Act.final, run]
      exact ih (noted.untouched ledger same) (.inl (owned same)) short'
    · have run : RelationSearch.offer call n x (v :: rest) w = .error why w₁ := by
        simp only [RelationSearch.offer, bind_apply, setProgress_apply, failed]
      rw [final_of_error run]
      exact noted.untouched ledger same

include quiet in
theorem advanceDomain : Keeps (KeepsBooks A root) (advanceDomain call n x values) := by
  intro w h
  cases progress : (w.node n).progress with
  | fresh =>
    cases held : w.value x with
    | some v =>
      have run : RelationSearch.advanceDomain call n x values w =
          .ok (values.contains v) (w.noted n .checked) := by
        simp only [RelationSearch.advanceDomain, bind_apply, progress_apply, progress, value_apply,
          held, setProgress_apply, pure_apply]
      rw [final_of_ok run]
      refine h.noted ledger coherent hs (p := .checked) trivial ?_ ?_ nofun fun _ _ _ lists => lists
      · rintro y ⟨-, rest, p⟩
        exact nomatch (World.progress_noted w n _).symm.trans p
      · rintro y ⟨-, rest, p⟩
        exact nomatch progress.symm.trans p
    | none =>
      have run : RelationSearch.advanceDomain call n x values w =
          RelationSearch.offer call n x values w := by
        simp [RelationSearch.advanceDomain, progress, held]
      rw [Act.final, run]
      exact h.offer ledger quiet coherent hs (.inr held) (Nat.le_refl _)
  | binding rest =>
    have run : RelationSearch.advanceDomain call n x values w =
        RelationSearch.offer call n x rest w := by
      simp [RelationSearch.advanceDomain, progress]
    have short : (Relation.domain n x values).Proper (w.node n).progress := h.proper _ hs
    rw [progress] at short
    rw [Act.final, run]
    exact h.offer ledger quiet coherent hs (.inl ⟨_, hs, rfl, rest, progress⟩) short
  | _ =>
    have run : RelationSearch.advanceDomain call n x values w = .ok false w := by
      simp [RelationSearch.advanceDomain, progress]
    rw [final_of_ok run]
    exact h

end Domain

section Convert

variable {z y : Var} {f : κ} (hs : Relation.convert n z y f ∈ root.subs)
include ledger coherent hs

/-- A conversion notes a generation and whether it owns its target. -/
theorem applied (h : Books A root w) {generation : Nat} {owns : Bool}
    (gained : owns = true → root.Available w y ∧ z.id ≠ y.id)
    (lost : ∀ g, (w.node n).progress = .applied g true → owns = true ∨ w.value y = none) :
    Books A root (w.noted n (.applied generation owns)) := by
  have proper : (Relation.convert n z y f).Proper (.applied generation owns) := by
    cases owns with
    | true => exact (gained rfl).2
    | false => trivial
  refine h.noted ledger coherent hs proper ?_ ?_ nofun fun _ _ _ lists => lists
  · rintro x ⟨same, g, p⟩
    have own : owns = true := by
      have := (World.progress_noted w n _).symm.trans p
      injection this
    refine (gained own).1.imp (Relation.owned_congr root w same ▸ ·) fun free => ?_
    exact (congrArg Cell.value (cell_congr w same)).symm.trans free
  · rintro x ⟨same, g, p⟩ unowned
    rcases lost g p with own | free
    · exact absurd ⟨same, generation, own ▸ World.progress_noted ..⟩ unowned
    · exact (congrArg Cell.value (cell_congr w same)).symm.trans free

/-- A conversion that has released its target owns nothing. -/
theorem releaseTarget (h : Books A root w) : ∃ w',
    releaseTarget n y w = .ok ⟨⟩ w' ∧ Books A root w' ∧
      ∀ generation, (w'.node n).progress ≠ .applied generation true := by
  by_cases own : ∃ generation, (w.node n).progress = .applied generation true
  · obtain ⟨generation, progress⟩ := own
    refine ⟨_, Relation.releaseTarget_of_owning progress, ?_, fun g p => ?_⟩
    · have cleared := h.clear ledger ⟨_, hs, rfl, generation, progress⟩
      exact cleared.applied ledger coherent hs nofun fun _ _ => .inr (value_modifyCell_clear w y)
    · exact nomatch (World.progress_noted ..).symm.trans p
  · have spent : ∀ generation, (w.node n).progress ≠ .applied generation true :=
      fun generation progress => own ⟨generation, progress⟩
    exact ⟨w, Relation.releaseTarget_of_spent spent, h, spent⟩

include quiet in
/-- A conversion offers its result to a target that it may bind. -/
theorem offerResult (h : Books A root w) (free : root.Available w y) (apart : z.id ≠ y.id)
    (result : Value) (generation : Nat) :
    Books A root ((do
      if ← y.bind call result then
        Act.setProgress n (.applied generation true)
        return true
      else
        RelationSearch.releaseTarget n y
        return false : Act κ σ Bool).final w) := by
  rw [Act.final, bind_apply]
  obtain ⟨w₁, same, took | refused | ⟨why, failed⟩⟩ := quiet.bind_cases y result w
  · simp only [took, if_true, bind_apply, setProgress_apply, pure_apply]
    -- The binding may as well be noted before it is made.
    have noted : Books A root (w₁.noted n (.applied generation true)) :=
      (h.untouched ledger same).applied ledger coherent hs
        (fun _ => ⟨free.untouched same, apart⟩) fun _ _ => .inl rfl
    exact noted.put ledger ⟨_, hs, rfl, generation, World.progress_noted ..⟩ result
  · obtain ⟨w₂, ran, h₂, -⟩ := (h.untouched ledger same).releaseTarget ledger coherent hs
    simp only [refused, Bool.false_eq_true, if_false, bind_apply, ran, pure_apply]
    exact h₂
  · rw [failed]
    exact h.untouched ledger same

include quiet in
theorem applyConversion (h : Books A root w) {v : Value} (bound : w.value z = some v)
    (generation : Nat) {owns : Bool}
    (gained : owns = true → root.Available w y ∧ z.id ≠ y.id)
    (lost : ∀ g, (w.node n).progress = .applied g true → owns = true) :
    Books A root ((applyConversion call n y f v generation owns).final w) := by
  have noted : Books A root (w.noted n (.applied generation owns)) :=
    h.applied ledger coherent hs gained fun g p => .inl (lost g p)
  have asked := quiet f [v] (w.noted n (.applied generation owns))
  rw [Act.final, RelationSearch.applyConversion, bind_apply, setProgress_apply]
  simp only [bind_apply]
  cases ran : call f [v] (w.noted n (.applied generation owns)) with
  | error why w₁ => exact noted.untouched ledger (final_of_error ran ▸ asked)
  | ok result w₁ =>
    have same := final_of_ok ran ▸ asked
    have h₁ := noted.untouched ledger same
    simp only [value_apply]
    cases owns with
    | true =>
      have own : root.Available w₁ y := .inl ⟨_, hs, rfl, generation,
        (congrArg Node.progress (same.node n)).trans (World.progress_noted ..)⟩
      exact h₁.offerResult ledger quiet coherent hs own (gained rfl).2 result generation
    | false =>
      cases held : w₁.value y with
      | none =>
        have apart : z.id ≠ y.id := by
          intro e
          have here : w₁.value z = w₁.value y := congrArg Cell.value (cell_congr w₁ e)
          rw [held, same.value, World.value_noted, bound] at here
          cases here
        exact h₁.offerResult ledger quiet coherent hs (.inr held) apart result generation
      | some u => exact h₁

include quiet in
theorem advanceConvert (r : Relation κ) :
    Keeps (KeepsBooks A root) (advanceConvert call r n z y f) := by
  intro w h
  rw [Act.final, RelationSearch.advanceConvert, bind_apply, get_apply]
  dsimp only
  cases bound : (w.cell z).value with
  | none => exact h
  | some v =>
    simp only [bind_apply, progress_apply]
    cases progress : (w.node n).progress with
    | applied generation owns =>
      by_cases same : generation = (w.cell z).generation
      · obtain ⟨w₁, ran, h₁, -⟩ := h.releaseTarget ledger coherent hs
        simp only [if_pos same, bind_apply, ran, pure_apply]
        exact h₁
      · simp only [if_neg same]
        refine h.applyConversion ledger quiet coherent hs bound _ (fun own => ?_) fun g p => ?_
        · subst own
          have apart : (Relation.convert n z y f).Proper (w.node n).progress := h.proper _ hs
          rw [progress] at apart
          exact ⟨.inl ⟨_, hs, rfl, generation, progress⟩, apart⟩
        · injection progress.symm.trans p
    | _ =>
      refine h.applyConversion ledger quiet coherent hs bound _ ?_ fun g p => ?_
      · exact fun own => absurd own Bool.false_ne_true
      · injection progress.symm.trans p

end Convert

section Compare

variable {y z : Var} {c : Comparison κ} (hs : Relation.compare n y z c ∈ root.subs)
include ledger hs

include coherent in
/-- A comparison notes which watches it left. -/
theorem fired (h : Books A root w) {entries : List (Var × Nat)}
    (recent : ∀ x id, listed entries x id = true → (w.cell x).nextWatch ≤ id)
    (dropped : ∀ x, ∀ watch ∈ (w.cell x).watches,
      (Relation.compare n y z c).Lists w x watch.id → listed entries x watch.id = true) :
    Books A root (w.noted n (.fired entries)) := by
  refine h.noted ledger coherent hs (p := .fired entries) trivial nofun nofun ?_ ?_
  · rintro x id ⟨noted, p, lists⟩
    have same : noted = entries := by
      have := p.symm.trans (World.progress_noted w n _)
      injection this
    exact .inr (recent x id (same ▸ lists))
  · exact fun x watch hm lists => ⟨entries, World.progress_noted .., dropped x watch hm lists⟩

/-- A comparison drops the watches it listed. -/
theorem release (h : Books A root w) {entries : List (Var × Nat)}
    (progress : (w.node n).progress = .fired entries) :
    Books A root (w.dropAll entries) ∧ ∀ x, ∀ watch ∈ ((w.dropAll entries).cell x).watches,
      ¬ (Relation.compare n y z c).Lists (w.dropAll entries) x watch.id := by
  refine ⟨h.dropAll ledger fun x id lists => ⟨_, hs, entries, progress, lists⟩, ?_⟩
  rintro x watch hm ⟨noted, p, lists⟩
  have same : noted = entries := by
    rw [World.node_dropAll] at p
    injection p.symm.trans progress
  rw [World.cell_dropAll] at hm
  have kept := (List.mem_filter.mp hm).2
  rw [← same, lists] at kept
  cases kept

include coherent

/-- The watches that a comparison leaves may as well be noted before they are left. -/
theorem defer (h : Books A root w) (progress : (w.node n).progress = .fired []) :
    Books A root (((w.deferred y z c true).deferred z y c false).noted n
      (.fired (w.noteOf y ++ (w.deferred y z c true).noteOf z))) := by
  have noted : Books A root (w.noted n
      (.fired (w.noteOf y ++ (w.deferred y z c true).noteOf z))) := by
    refine h.fired ledger coherent hs (fun x id lists => ?_) ?_
    · rw [listed_append, Bool.or_eq_true, listed_noteOf, listed_noteOf] at lists
      have grown := World.nextWatch_deferred w y z c true x
      rcases lists with ⟨-, -, rfl⟩ | ⟨-, -, rfl⟩ <;> omega
    -- So far the comparison has listed nothing.
    · rintro x watch - ⟨entries, p, lists⟩
      injection progress.symm.trans p with none
      rw [← none] at lists
      cases lists
  rw [← World.noted_deferred, ← World.noted_deferred]
  have left := noted.deferred ledger y z c true fun free => by
    refine ⟨_, hs, _, World.progress_noted .., ?_⟩
    rw [listed_append, Bool.or_eq_true, listed_noteOf]
    exact .inl ⟨free, rfl, rfl⟩
  refine left.deferred ledger z y c false fun free => ?_
  have progress' := World.progress_noted w n (.fired (w.noteOf y ++ (w.deferred y z c true).noteOf z))
  rw [← World.node_deferred _ y z c true] at progress'
  refine ⟨_, hs, _, progress', ?_⟩
  rw [World.noted_deferred] at free ⊢
  rw [listed_append, Bool.or_eq_true, listed_noteOf (w := w.deferred y z c true)]
  exact .inr ⟨free, rfl, rfl⟩

include quiet

theorem advanceCompare : Keeps (KeepsBooks A root) (advanceCompare call n y z c) := by
  intro w h
  by_cases fired : ∃ entries, (w.node n).progress = .fired entries
  · obtain ⟨entries, progress⟩ := fired
    obtain ⟨dropped, gone⟩ := h.release ledger hs progress
    rw [final_of_ok (advanceCompare_of_fired progress)]
    refine dropped.fired ledger coherent hs (fun x id lists => ?_) fun x watch hm lists => ?_
    · exact absurd lists Bool.false_ne_true
    · exact absurd lists (gone x watch hm)
  · have unfired := not_exists.mp fired
    have noted : Books A root (w.noted n (.fired [])) :=
      h.fired ledger coherent hs nofun fun x watch _ ⟨entries, p, _⟩ => absurd p (unfired entries)
    have watching := noted.defer ledger coherent hs (World.progress_noted ..)
    rw [Act.final, advanceCompare_of_unfired unfired]
    cases w.value y with
    | none => exact watching
    | some v =>
      cases w.value z with
      | none => exact watching
      | some u => exact noted.untouched ledger (quiet.comparison c v u _)

end Compare

include ledger coherent

include quiet in
theorem advancePredicate {r : Relation κ} {xs : List Var} {f : κ}
    (hs : Relation.predicate n xs f ∈ root.subs) :
    Keeps (KeepsBooks A root) (advancePredicate call r n xs f) := by
  intro w h
  have noted := h.noted_plain ledger coherent hs (p := .fired []) trivial (fun _ _ => id)
    fun _ _ _ => id
  rw [Act.final, RelationSearch.advancePredicate, bind_apply, progress_apply]
  cases (w.node n).progress with
  | fired entries => exact h
  | _ =>
    simp only [bind_apply, get_apply]
    cases w.valuesOf xs with
    | error x => exact h
    | ok values => exact noted.untouched ledger (quiet.holds f values _)

theorem advanceAlways (hs : Relation.always n ∈ root.subs) :
    Keeps (KeepsBooks A root) (advanceAlways n : Act κ σ Bool) := by
  intro w h
  rw [Act.final, RelationSearch.advanceAlways, bind_apply, progress_apply]
  cases (w.node n).progress with
  | fired entries => exact h
  | _ =>
    exact h.noted_plain ledger coherent hs (p := .fired []) trivial (fun _ _ => id) fun _ _ _ => id

/-- Undoing the search of a leaf leaves nothing that it answers for, so that it may start afresh. -/
theorem retract (h : Books A root w) (hs : s ∈ root.subs) :
    ∃ w', retract s w = .ok ⟨⟩ w' ∧ Books A root (w'.noted s.node .fresh) := by
  have unowned (v : World κ σ) (y : Var) : ¬ s.Owns (v.noted s.node .fresh) y :=
    Relation.not_owns_of_fresh (World.progress_noted ..)
  have unlisted (v : World κ σ) (y : Var) (id : Nat) : ¬ s.Lists (v.noted s.node .fresh) y id :=
    Relation.not_lists_of_fresh (World.progress_noted ..)
  -- It remains to see that what the leaf answered for is given back.
  suffices back : ∃ w', RelationSearch.retract s w = .ok ⟨⟩ w' ∧ Books A root w' ∧
      (∀ y, s.Owns w' y → w'.value y = none) ∧
      ∀ y, ∀ watch ∈ (w'.cell y).watches, ¬ s.Lists w' y watch.id by
    obtain ⟨w', ran, h', given, dropped⟩ := back
    refine ⟨w', ran, h'.noted ledger coherent hs s.proper_fresh ?_ ?_ ?_ ?_⟩
    · exact fun y own => absurd own (unowned w' y)
    · exact fun y own _ => given y own
    · exact fun y id lists => absurd lists (unlisted w' y id)
    · exact fun y watch hm lists => absurd lists (dropped y watch hm)
  cases s with
  | domain n x values =>
    simp only [RelationSearch.retract, bind_apply, progress_apply]
    cases progress : (w.node n).progress with
    | binding rest =>
      refine ⟨_, rfl, h.clear ledger ⟨_, hs, rfl, rest, progress⟩, ?_, fun _ _ _ => id⟩
      rintro y ⟨same, -⟩
      have here := cell_congr (w.modifyCell x Cell.clear) same
      exact (congrArg Cell.value here).symm.trans (value_modifyCell_clear w x)
    | _ =>
      refine ⟨w, rfl, h, ?_, fun _ _ _ => id⟩
      rintro y ⟨-, rest, p⟩
      injection progress.symm.trans p
  | convert n z y f =>
    obtain ⟨w', ran, h', spent⟩ := h.releaseTarget ledger coherent hs
    refine ⟨w', ran, h', ?_, fun _ _ _ => id⟩
    rintro x ⟨-, g, p⟩
    exact absurd p (spent g)
  | compare n y z c =>
    simp only [RelationSearch.retract, bind_apply, progress_apply]
    cases progress : (w.node n).progress with
    | fired entries =>
      obtain ⟨dropped, gone⟩ := h.release ledger hs progress
      exact ⟨_, dropWatches_apply entries w, dropped, fun _ => False.elim, gone⟩
    | _ =>
      refine ⟨w, rfl, h, fun _ => False.elim, ?_⟩
      rintro y watch - ⟨entries, p, -⟩
      injection progress.symm.trans p
  | and | or | predicate | always | never =>
    exact ⟨w, rfl, h, fun _ => False.elim, fun _ _ _ => id⟩

/-! ## Calls -/

omit coherent in
theorem answering {search : Act κ σ Bool} (h : Keeps (KeepsBooks A root) search) :
    Keeps (KeepsBooks A root) (answering s search) := by
  intro w hw
  cases idle : (w.node s.node).busy with
  | true => rw [final_of_error (answering_of_busy idle)]; exact hw
  | false =>
    have begun : Books A root (w.setBusy s.node true) :=
      hw.congr ledger (fun _ => rfl) fun _ => World.progress_setBusy ..
    have inner := h _ begun
    rw [Act.final, answering_of_idle idle]
    cases ran : search (w.setBusy s.node true) with
    | ok answer w' =>
      rw [final_of_ok ran] at inner
      exact inner.congr ledger (World.cell_concluded w' s answer) fun _ => World.progress_concluded ..
    | error why w' =>
      rw [final_of_error ran] at inner
      exact inner.congr ledger (fun _ => rfl) fun _ => World.progress_setBusy ..

omit coherent in
theorem rewinding {undo : Act κ σ Unit}
    (h : Keeps (KeepsBooks A root) (do undo; Act.setProgress s.node .fresh : Act κ σ Unit)) :
    Keeps (KeepsBooks A root) (rewinding s undo) := by
  intro w hw
  cases idle : (w.node s.node).busy with
  | true => rw [final_of_error (rewinding_of_busy idle)]; exact hw
  | false =>
    have begun : Books A root (w.setBusy s.node true) :=
      hw.congr ledger (fun _ => rfl) fun _ => World.progress_setBusy ..
    have inner := h _ begun
    rw [Act.final, bind_apply] at inner
    rw [Act.final, rewinding_of_idle idle]
    cases ran : undo (w.setBusy s.node true) with
    | ok _ w' =>
      rw [ran] at inner
      have fresh : Books A root (w'.noted s.node .fresh) := inner
      refine fresh.congr ledger (World.cell_rewound w' s) fun m => ?_
      by_cases hm : s.node = m
      · subst hm
        exact (World.progress_rewound ..).trans (World.progress_noted ..).symm
      · rw [World.node_rewound_of_ne _ _ hm, World.node_noted_of_ne _ _ _ hm]
    | error why w' =>
      rw [ran] at inner
      exact Books.congr ledger inner (fun _ => rfl) fun _ => World.progress_setBusy ..

include quiet in
/-- **Every call on every node keeps the books**, whichever way it ends. -/
theorem conducts : Conducts call fuel root (KeepsBooks A root) where
  steady := KeepsBooks.steady A root
  solveLeaf s hs leaf := by
    cases s with
    | domain n x values => exact answering ledger (advanceDomain ledger quiet coherent hs)
    | convert n z y f => exact answering ledger (advanceConvert ledger quiet coherent hs _)
    | compare n y z c => exact answering ledger (advanceCompare ledger quiet coherent hs)
    | predicate n xs f => exact answering ledger (advancePredicate ledger quiet coherent hs)
    | always n => exact answering ledger (advanceAlways ledger coherent hs)
    | never n => exact answering ledger (.pure (KeepsBooks.steady A root) _)
    | and | or => cases leaf
  resetLeaf s hs leaf := by
    have undone : Keeps (KeepsBooks A root)
        (do RelationSearch.retract s; Act.setProgress s.node .fresh : Act κ σ Unit) := by
      intro w h
      obtain ⟨w', ran, fresh⟩ := h.retract ledger coherent hs
      rw [Act.final, bind_apply, ran]
      exact fresh
    cases s with
    | domain | convert | compare | predicate | always | never => exact rewinding ledger undone
    | and | or => cases leaf
  setProgress s hs inner p w h := by
    cases s with
    | and | or => exact h.noted_plain ledger coherent hs (p := p) trivial (fun _ _ => id) fun _ _ _ => id
    | domain | convert | compare | predicate | always | never => exact absurd rfl inner
  answering _ _ _ _ := answering ledger
  rewinding s hs inner undo h := by
    refine rewinding ledger (.bind (KeepsBooks.steady A root) h fun _ w hw => ?_)
    cases s with
    | and | or =>
      exact hw.noted_plain ledger coherent hs (p := .fresh) trivial (fun _ _ => id) fun _ _ _ => id
    | domain | convert | compare | predicate | always | never => exact absurd rfl inner

include quiet in
theorem solve (hs : s ∈ root.subs) : Keeps (KeepsBooks A root) (s.solve call fuel) :=
  (conducts ledger quiet coherent).solve hs

theorem reset (hs : s ∈ root.subs) : Keeps (KeepsBooks A root) (s.reset : Act κ σ Unit) := by
  -- `reset` runs no callback, so that any caller will do.
  have quiet : Caller.Quiet (fun _ _ => pure default : Caller κ σ) := fun _ _ => Untouched.steady.refl
  have conducts : Conducts (fun _ _ => pure default : Caller κ σ) 0 root (KeepsBooks A root) :=
    conducts ledger quiet coherent
  exact conducts.reset hs

end Books

end RelationSearch
