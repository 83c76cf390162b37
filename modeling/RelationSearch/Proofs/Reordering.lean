import RelationSearch.Proofs.AsBuilt
import RelationSearch.Proofs.Ways

/-! # The order of conjuncts

A conjunction of relations that stand alone finds the same solutions, each as often, in whatever order
the relations are joined (`Relation.all_perm`).  Only the order in which they come depends on it.

The search itself depends on the order very much: of the relations that mention a variable the first one
binds it and the others check it, a conversion sets its target or compares, a comparison watches or
tests.  All that is gone in the ways to satisfy a relation (`Relation.ways`), which a conjunction takes
from its sides without regard to which is first.  What remains is that the conjunction is built as
`Relation.all` builds it, from relations that share no node (`Standalone`).
-/
namespace RelationSearch

open Act RelationSearch.Relation

variable {κ σ : Type} {good : Value → Prop} {value : Nat → Option Value}

/-! ## Relations without numbers -/

namespace Relation

variable {r s t : Relation κ}

/-- The relation without its node numbers. -/
def bare (r : Relation κ) : Relation κ := r.renumber fun _ => 0

/-- What is asked and answered does not depend on the numbers. -/
theorem dialogue_renumber (ρ : Nat → Nat) (r : Relation κ) :
    (r.renumber ρ).dialogue = r.dialogue := by
  induction r with
  | and n l r ihl ihr | or n l r ihl ihr =>
    funext env
    rw [renumber, dialogue, ihl, ihr, dialogue]
  | domain | convert | compare | predicate | always | never => rfl

theorem dialogue_of_bare (same : r.bare = s.bare) : r.dialogue = s.dialogue := by
  rw [← dialogue_renumber (fun _ => 0) r, ← dialogue_renumber (fun _ => 0) s]
  exact congrArg dialogue same

theorem exists_sub_of_bare (same : s.bare = r.bare) (ht : t ∈ s.subs) :
    ∃ u ∈ r.subs, u.bare = t.bare := by
  have here : t.bare ∈ s.bare.subs := subs_renumber _ s ▸ List.mem_map_of_mem ht
  rw [same, bare, subs_renumber] at here
  exact List.mem_map.mp here

/-- What is asked of a relation does not depend on the numbers. -/
theorem Orderly.of_bare {r s : Relation Function} (h : r.Orderly good) (same : s.bare = r.bare) :
    s.Orderly good where
  two n x y c hs := by
    obtain ⟨u, hu, e⟩ := exists_sub_of_bare same hs
    cases u <;> cases e
    exact h.two _ _ _ _ hu
  nodup n x values hs := by
    obtain ⟨u, hu, e⟩ := exists_sub_of_bare same hs
    cases u <;> cases e
    exact h.nodup _ _ _ hu
  candidates n x values hs := by
    obtain ⟨u, hu, e⟩ := exists_sub_of_bare same hs
    cases u <;> cases e
    exact h.candidates _ _ _ hu
  conversions n x y f hs := by
    obtain ⟨u, hu, e⟩ := exists_sub_of_bare same hs
    cases u <;> cases e
    exact h.conversions _ _ _ _ hu

theorem ways_bare (value : Nat → Option Value) (r : Relation Function) :
    r.bare.ways value = r.ways value := by
  induction r with
  | and n l r ihl ihr =>
    rw [ways, ← ihl, ← ihr]
    rfl
  | or n l r ihl ihr =>
    rw [ways, ← ihl, ← ihr]
    rfl
  | domain | convert | compare | predicate | always | never => rfl

end Relation

/-! ## Ways to satisfy several relations -/

/-- The ways that consist of one of the first and one of the second. -/
def both (a b : Multiset (Set Nat)) : Multiset (Set Nat) := a.bind fun s => b.map (s ∪ ·)

theorem both_right_comm (a b c : Multiset (Set Nat)) :
    both (both a b) c = both (both a c) b := by
  have twice (b c : Multiset (Set Nat)) :
      both (both a b) c = a.bind fun s => b.bind fun t => c.map fun u => s ∪ t ∪ u := by
    rw [both, both, Multiset.bind_assoc]
    exact Multiset.bind_congr fun s _ => Multiset.bind_map ..
  rw [twice, twice]
  refine Multiset.bind_congr fun s _ => ?_
  rw [Multiset.bind_map_comm]
  simp only [Set.union_right_comm]

theorem empty_both (a : Multiset (Set Nat)) : both {∅} a = a := by
  simp [both]

/-- The ways to satisfy all of some relations. -/
def waysOfAll (value : Nat → Option Value) (rs : List (Relation Function)) : Multiset (Set Nat) :=
  (rs.map (ways value)).foldl both {∅}

/-- The ways to satisfy all of some relations do not depend on their order and their numbers. -/
theorem waysOfAll_perm {rs rs' : List (Relation Function)}
    (copies : (rs.map bare).Perm (rs'.map bare)) : waysOfAll value rs = waysOfAll value rs' := by
  have numberless (rs : List (Relation Function)) :
      rs.map (ways value) = (rs.map bare).map (ways value) := by
    rw [List.map_map]
    exact List.map_congr_left fun r _ => (ways_bare value r).symm
  rw [waysOfAll, waysOfAll, numberless rs, numberless rs']
  exact (copies.map _).foldl_eq' (fun b _ c _ a => both_right_comm a b c) _

/-! ## Joining relations -/

/-- The relations are ready to be searched, and none has a node in common with another one. -/
structure Standalone (rs : List (Relation κ)) (w : World κ σ) : Prop where
  coherent : ∀ r ∈ rs, r.Coherent
  separated : ∀ r ∈ rs, r.Separated
  ready : ∀ r ∈ rs, r.Ready w
  exist : ∀ r ∈ rs, ∀ m ∈ r.ids, m < w.nodes.size
  apart : rs.Pairwise fun r s => ∀ m ∈ r.ids, m ∉ s.ids

/-- Joined, the first two relations stand alone among the others. -/
theorem Standalone.join {r s : Relation κ} {rs : List (Relation κ)} {w : World κ σ}
    (h : Standalone (r :: s :: rs) w) :
    Standalone (.and w.nodes.size r s :: rs) w.added := by
  obtain ⟨apartR, apartS⟩ := List.pairwise_cons.mp h.apart
  obtain ⟨apartS, apart⟩ := List.pairwise_cons.mp apartS
  have first : r ∈ r :: s :: rs := by simp
  have second : s ∈ r :: s :: rs := by simp
  have other {t : Relation κ} (ht : t ∈ rs) : t ∈ r :: s :: rs := by simp [ht]
  have outside {t : Relation κ} (ht : t ∈ r :: s :: rs) : w.nodes.size ∉ t.ids :=
    fun hm => Nat.lt_irrefl _ (h.exist t ht _ hm)
  have ready {t : Relation κ} (ht : t ∈ r :: s :: rs) : t.Ready w.added :=
    (h.ready t ht).congr fun m hm => World.node_added_of_lt (h.exist t ht m hm)
  have size : w.added.nodes.size = w.nodes.size + 1 := Table.size_push ..
  refine {
    coherent := ?coherent
    separated := ?separated
    ready := ?ready
    exist := ?exist
    apart := ?apart }
  case coherent =>
    exact List.forall_mem_cons.mpr
      ⟨.and (h.coherent r first) (h.coherent s second) (outside first) (outside second)
        (apartR s (List.mem_cons_self ..)), fun t ht => h.coherent t (other ht)⟩
  case separated =>
    exact List.forall_mem_cons.mpr
      ⟨⟨apartR s (List.mem_cons_self ..), h.separated r first, h.separated s second⟩,
        fun t ht => h.separated t (other ht)⟩
  case ready =>
    refine List.forall_mem_cons.mpr ⟨fun m hm => ?_, fun t ht => ready (other ht)⟩
    rcases mem_ids_and.mp hm with rfl | hm | hm
    · rw [World.node_added]
      exact ⟨rfl, rfl⟩
    · exact ready first m hm
    · exact ready second m hm
  case exist =>
    rw [size]
    refine List.forall_mem_cons.mpr
      ⟨fun m hm => ?_, fun t ht m hm => Nat.lt_succ_of_lt (h.exist t (other ht) m hm)⟩
    rcases mem_ids_and.mp hm with rfl | hm | hm
    · exact Nat.lt_succ_self _
    · exact Nat.lt_succ_of_lt (h.exist r first m hm)
    · exact Nat.lt_succ_of_lt (h.exist s second m hm)
  case apart =>
    refine List.pairwise_cons.mpr ⟨fun t ht m hm => ?_, apart⟩
    rcases mem_ids_and.mp hm with rfl | hm | hm
    · exact outside (other ht)
    · exact apartR t (List.mem_cons_of_mem _ ht) m hm
    · exact apartS t ht m hm

theorem Relation.Orderly.and {l r : Relation Function} (n : Nat) (left : l.Orderly good)
    (right : r.Orderly good) : (Relation.and n l r).Orderly good where
  two m x y c hs := by
    rcases List.mem_append.mp ((List.mem_cons.mp hs).resolve_left nofun) with hs | hs
    · exact left.two _ _ _ _ hs
    · exact right.two _ _ _ _ hs
  nodup m x values hs := by
    rcases List.mem_append.mp ((List.mem_cons.mp hs).resolve_left nofun) with hs | hs
    · exact left.nodup _ _ _ hs
    · exact right.nodup _ _ _ hs
  candidates m x values hs := by
    rcases List.mem_append.mp ((List.mem_cons.mp hs).resolve_left nofun) with hs | hs
    · exact left.candidates _ _ _ hs
    · exact right.candidates _ _ _ hs
  conversions m x y f hs := by
    rcases List.mem_append.mp ((List.mem_cons.mp hs).resolve_left nofun) with hs | hs
    · exact left.conversions _ _ _ _ hs
    · exact right.conversions _ _ _ _ hs

theorem Relation.Orderly.always (n : Nat) : (Relation.always n).Orderly good where
  two _ _ _ _ hs := nomatch List.mem_singleton.mp hs
  nodup _ _ _ hs := nomatch List.mem_singleton.mp hs
  candidates _ _ _ hs := nomatch List.mem_singleton.mp hs
  conversions _ _ _ _ hs := nomatch List.mem_singleton.mp hs

theorem Relation.Orderly.domain (n : Nat) (x : Var) {values : List Value} (nodup : values.Nodup)
    (candidates : ∀ v ∈ values, good v) : (Relation.domain n x values).Orderly good where
  two _ _ _ _ hs := nomatch List.mem_singleton.mp hs
  nodup _ _ _ hs := by
    cases List.mem_singleton.mp hs
    exact nodup
  candidates _ _ _ hs := by
    cases List.mem_singleton.mp hs
    exact candidates
  conversions _ _ _ _ hs := nomatch List.mem_singleton.mp hs

theorem Standalone.always (w : World κ σ) : Standalone [.always w.nodes.size] w.added where
  coherent := List.forall_mem_singleton.mpr (.of_nodup (List.nodup_singleton _))
  separated := List.forall_mem_singleton.mpr trivial
  ready := by
    refine List.forall_mem_singleton.mpr fun m hm => ?_
    rw [List.mem_singleton.mp hm]
    exact World.node_added w ▸ ⟨rfl, rfl⟩
  exist := by
    refine List.forall_mem_singleton.mpr fun m hm => ?_
    rw [List.mem_singleton.mp hm]
    exact Nat.lt_of_lt_of_eq (Nat.lt_succ_self _) (Table.size_push ..).symm
  apart := List.pairwise_singleton ..

/-- The root is the conjunction of some relations that stood alone in the world `w`. -/
structure Joined (rs : List (Relation Function)) (w : World Function σ) (root : Relation Function)
    (w' : World Function σ) : Prop where
  alone : Standalone [root] w'
  restored : Restored w w'
  ways : ∀ value, root.ways value = waysOfAll value rs
  orderly : ∀ {good}, (∀ r ∈ rs, r.Orderly good) → root.Orderly good

/-- The conjunction takes in one relation after the other. -/
theorem Joined.of_foldlM {r : Relation Function} {rs : List (Relation Function)}
    {w : World Function σ} (alone : Standalone (r :: rs) w) :
    ∃ root w', (rs.foldlM (fun l r => create (.and · l r)) r : Act Function σ _) w = .ok root w' ∧
      Joined (r :: rs) w root w' := by
  induction rs generalizing r w with
  | nil =>
    refine ⟨r, w, rfl, alone, .refl w, fun value => ?_, fun h => h r (List.mem_cons_self ..)⟩
    exact (empty_both _).symm
  | cons s rs ih =>
    obtain ⟨root, w', ran, joined⟩ := ih alone.join
    have added : Restored w w.added := .of_cells fun _ => rfl
    refine ⟨root, w', ran, joined.alone, added.trans joined.restored, fun value => ?_, fun h => ?_⟩
    · rw [joined.ways, waysOfAll, waysOfAll, List.map_cons, List.map_cons, List.map_cons,
        List.foldl_cons, List.foldl_cons, List.foldl_cons, empty_both, empty_both]
      rfl
    · obtain ⟨first, h⟩ := List.forall_mem_cons.mp h
      obtain ⟨second, h⟩ := List.forall_mem_cons.mp h
      exact joined.orderly (List.forall_mem_cons.mpr ⟨first.and _ second, h⟩)

theorem Joined.of_all {rs : List (Relation Function)} {w : World Function σ}
    (alone : Standalone rs w) : ∃ root w', Relation.all rs w = .ok root w' ∧ Joined rs w root w' := by
  cases rs with
  | nil =>
    exact ⟨_, _, create_apply .always w, .always w, .of_cells fun _ => rfl, fun _ => rfl,
      fun _ => .always _⟩
  | cons r rs => exact of_foldlM alone

theorem Joined.of_ok {rs : List (Relation Function)} {w w' : World Function σ}
    {root : Relation Function} (alone : Standalone rs w)
    (built : Relation.all rs w = .ok root w') : Joined rs w root w' := by
  obtain ⟨root', v, ran, joined⟩ := of_all alone
  obtain ⟨rfl, rfl⟩ := EStateM.Result.ok.inj (ran.symm.trans built)
  exact joined

/-! ## Orders of conjuncts -/

namespace Relation

variable {fuel fuel' : Nat} {env e : Env Function} {r root root' : Relation Function}
variable {solutions solutions' : List (Nat → Option Value)} {w w' v v' : World Function σ}

/-- What a relation that is ready enumerates are its answers. -/
theorem Enumerates.eq_answers (coherent : r.Coherent) (separated : r.Separated) (ready : r.Ready w)
    (shows : w.Shows env) (h : r.Enumerates fuel solutions w) :
    (r.answers env).interrupt = none ∧ (r.answers env).found.map Env.value = solutions :=
  (Resumes.of_ready coherent separated (Nat.lt_of_succ_le (Nat.le_max_right fuel _)) ready
    shows).of_enumerates (h.mono (Nat.le_max_left ..))

/-- Relations that can be satisfied in the same ways find the same, each as often. -/
theorem values_perm {s : Relation Function} (exact : Exact good) (orderly : r.Orderly good)
    (orderly' : s.Orderly good) (start : env.Good good) (distinct : env.Distinct)
    (same : ∀ value, r.ways value = s.ways value) (normal : (r.answers env).interrupt = none)
    (normal' : (s.answers env).interrupt = none) :
    ((r.answers env).found.map Env.value).Perm ((s.answers env).found.map Env.value) := by
  classical
  rw [List.perm_iff_count]
  intro value
  by_cases onWay : (∀ i v, value i = some v → good v) ∧ env.Nears env.value value
  · rw [count_values exact onWay.1 orderly start distinct onWay.2 normal,
      count_values exact onWay.1 orderly' start distinct onWay.2 normal', same]
  -- Values that are not on the way are found by neither.
  · have never {t : Relation Function} (ht : t.Orderly good) :
        value ∉ (t.answers env).found.map Env.value := by
      intro found
      obtain ⟨e, he, rfl⟩ := List.mem_map.mp found
      exact onWay ⟨good_of_mem_answers ht.typed start he,
        nears_of_mem_answers (fun _ => id) he (nears_of_mem_found ht.two distinct he)⟩
    rw [List.count_eq_zero.mpr (never orderly), List.count_eq_zero.mpr (never orderly')]

/-- **The order of conjuncts does not change what is found.**  Let relations stand alone, and let copies of
them stand alone in another order, where the variables are bound alike.  If the conjunctions of both
come to their ends without an error, they come to the same solutions, each as often. -/
theorem all_perm {rs rs' : List (Relation Function)} (copies : (rs.map bare).Perm (rs'.map bare))
    (exact : Exact good) (orderly : ∀ r ∈ rs, r.Orderly good) (start : env.Good good)
    (distinct : env.Distinct) (alone : Standalone rs w) (alone' : Standalone rs' v)
    (shows : w.Shows env) (shows' : v.Shows env) (built : Relation.all rs w = .ok root w')
    (built' : Relation.all rs' v = .ok root' v') (enumerates : root.Enumerates fuel solutions w')
    (enumerates' : root'.Enumerates fuel' solutions' v') : solutions.Perm solutions' := by
  have joined := Joined.of_ok alone built
  have joined' := Joined.of_ok alone' built'
  have here : root ∈ [root] := List.mem_singleton_self _
  have here' : root' ∈ [root'] := List.mem_singleton_self _
  obtain ⟨normal, rfl⟩ := enumerates.eq_answers (joined.alone.coherent _ here)
    (joined.alone.separated _ here) (joined.alone.ready _ here) (shows.of_restored joined.restored)
  obtain ⟨normal', rfl⟩ := enumerates'.eq_answers (joined'.alone.coherent _ here')
    (joined'.alone.separated _ here') (joined'.alone.ready _ here')
    (shows'.of_restored joined'.restored)
  have orderly' : ∀ r ∈ rs', r.Orderly good := by
    intro r hr
    obtain ⟨s, hs, same⟩ := List.mem_map.mp (copies.mem_iff.mpr (List.mem_map_of_mem hr))
    exact (orderly s hs).of_bare same.symm
  refine values_perm exact (joined.orderly orderly) (joined'.orderly orderly') start distinct
    (fun value => ?_) normal normal'
  rw [joined.ways, joined'.ways]
  exact waysOfAll_perm copies

/-- Two bits, taken in one order and in the other: the pairs come in another order, and are the same. -/
theorem pairs_in_either_order :
    let bits : List Value := [.bool false, .bool true]
    let x (n : Nat) : Relation Function := .domain n ⟨0, "X"⟩ bits
    let y (n : Nat) : Relation Function := .domain n ⟨1, "Y"⟩ bits
    let w : World Function Unit := { nodes := (Table.empty.push {}).push {}, client := () }
    ∃ root root' v v' solutions solutions', Relation.all [x 0, y 1] w = .ok root v ∧
      Relation.all [y 0, x 1] w = .ok root' v' ∧ root.Enumerates 16 solutions v ∧
      root'.Enumerates 16 solutions' v' ∧
      (solutions.map (· 0) == solutions'.map (· 0)) = false ∧ solutions.Perm solutions' := by
  intro bits x y w
  let env : Env Function := { value := fun _ => none, pending := [] }
  let domains (z u : Var) : List (Relation Function) := [.domain 0 z bits, .domain 1 u bits]
  let pair (z u : Var) : Relation Function := .and 2 (.domain 0 z bits) (.domain 1 u bits)
  have exact : Exact (· ∈ bits) := by
    intro u v hu hv
    simp only [bits, List.mem_cons, List.not_mem_nil, or_false] at hu hv
    rcases hu with rfl | rfl <;> rcases hv with rfl | rfl <;>
      simp [show ∀ a b, (Value.bool a == Value.bool b) = (a == b) from fun _ _ => rfl]
  have orderly (z u : Var) : ∀ r ∈ domains z u, r.Orderly (· ∈ bits) := by
    have nodup : bits.Nodup := by simp [bits]
    exact List.forall_mem_cons.mpr ⟨.domain 0 z nodup fun _ => id,
      List.forall_mem_singleton.mpr (.domain 1 u nodup fun _ => id)⟩
  have shows : w.Shows env := (World.Shows.blank ()).of_restored (.of_cells fun _ => rfl)
  have unbound : env.Good (· ∈ bits) := fun i v held => by cases held
  have alone (z u : Var) : Standalone (domains z u) w := by
    have ids {m : Nat} {r : Relation Function} (hr : r ∈ domains z u) (hm : m ∈ r.ids) :
        m = r.node ∧ m < 2 := by
      rcases List.mem_pair.mp hr with rfl | rfl <;> rcases List.mem_singleton.mp hm with rfl
      · exact ⟨rfl, Nat.zero_lt_two⟩
      · exact ⟨rfl, Nat.one_lt_two⟩
    refine ⟨fun r hr => ?_, fun r hr => ?_, fun r hr m hm => ?_, fun r hr m hm => (ids hr hm).2, ?_⟩
    · rcases List.mem_pair.mp hr with rfl | rfl <;> exact .of_nodup (List.nodup_singleton _)
    · rcases List.mem_pair.mp hr with rfl | rfl <;> trivial
    · rcases List.mem_pair.mp hr with rfl | rfl <;> rw [(ids hr hm).1] <;> exact ⟨rfl, rfl⟩
    · refine List.pairwise_pair.mpr fun m hm hm' => Nat.zero_ne_one ?_
      exact (List.mem_singleton.mp hm).symm.trans (List.mem_singleton.mp hm')
  have built (z u : Var) : ∃ v, Relation.all (domains z u) w = .ok (pair z u) v := ⟨_, rfl⟩
  have enumerates (z u : Var) {v : World Function Unit}
      (ran : Relation.all (domains z u) w = .ok (pair z u) v)
      (normal : ((pair z u).answers env).interrupt = none) :
      (pair z u).Enumerates 16 (((pair z u).answers env).found.map Env.value) v := by
    have joined := Joined.of_ok (alone z u) ran
    have only : pair z u ∈ [pair z u] := List.mem_singleton_self _
    have light : (pair z u).weight < 16 := by simp [pair, weight, bits]
    exact (Resumes.of_ready (joined.alone.coherent _ only) (joined.alone.separated _ only) light
      (joined.alone.ready _ only) (shows.of_restored joined.restored)).enumerates normal
  obtain ⟨v, ran⟩ := built ⟨0, "X"⟩ ⟨1, "Y"⟩
  obtain ⟨v', ran'⟩ := built ⟨1, "Y"⟩ ⟨0, "X"⟩
  have first := enumerates _ _ ran (by decide +kernel)
  have second := enumerates _ _ ran' (by decide +kernel)
  refine ⟨_, _, v, v', _, _, ran, ran', first, second, by decide +kernel, ?_⟩
  have swapped :
      ((domains ⟨0, "X"⟩ ⟨1, "Y"⟩).map bare).Perm ((domains ⟨1, "Y"⟩ ⟨0, "X"⟩).map bare) := .swap ..
  have distinct : env.Distinct := fun q hq => absurd hq List.not_mem_nil
  exact all_perm swapped exact (orderly _ _) unbound distinct (alone _ _) (alone _ _) shows shows ran
    ran' first second

end Relation
end RelationSearch
