import RelationSearch.Proofs.Course
import RelationSearch.Proofs.DepthFirst

/-! # Comparisons that have succeeded are enforced

A comparison that has answered `true` either found both operands bound and compared them, or it left
watches.  An environment *upholds* it (`Env.Upholds`) if it holds of the operands as far as they are
bound, and is still pending as long as one of them is not.  Every answer of a relation upholds what the
environment before it did (`Relation.sustains_of_mem_answers`), because a variable takes a value only if the
comparisons that are pending on it agree.

This is so for comparisons of two variables.  A comparison of a variable with itself that has left
watches refuses a value or lets it through by the value that the variable held before, and enforces
nothing (`Relation.self_comparison_is_not_enforced`).
-/
namespace RelationSearch

open Act

variable {κ σ : Type} {start w w' : World Function σ} {env e : Env Function}

/-! ## What answers uphold -/

namespace Env

variable {x : Var} {v : Value}

/-- The comparison holds of its operands if both are bound; otherwise it is pending, and of two
variables. -/
structure Upholds (env : Env Function) (p : Pending Function) : Prop where
  holds : ∀ v u, env.value p.left.id = some v → env.value p.right.id = some u →
    p.comparison.judge v u = .ok true
  pending : env.value p.left.id = none ∨ env.value p.right.id = none →
    p ∈ env.pending ∧ p.left.id ≠ p.right.id

/-- Whatever was bound has the same value, and whatever was upheld is upheld. -/
structure Sustains (env e : Env Function) : Prop where
  value : ∀ i v, env.value i = some v → e.value i = some v
  upholds : ∀ p, env.Upholds p → e.Upholds p

theorem Sustains.refl (env : Env Function) : Sustains env env := ⟨fun _ _ => id, fun _ => id⟩

theorem Sustains.trans {a b c : Env Function} (h : Sustains a b) (g : Sustains b c) : Sustains a c :=
  ⟨fun i v hv => g.value i v (h.value i v hv), fun p hp => g.upholds p (h.upholds p hp)⟩

theorem value_bind_self (x : Var) (v : Value) : (env.bind x v).value x.id = some v := if_pos rfl

theorem value_bind_of_ne {i : Nat} (h : i ≠ x.id) (v : Value) :
    (env.bind x v).value i = env.value i := if_neg h

theorem free_of_bind {i : Nat} (h : (env.bind x v).value i = none) :
    env.value i = none := by
  by_cases here : i = x.id
  · rw [here, value_bind_self] at h
    cases h
  · rwa [value_bind_of_ne here] at h

/-- A comparison is upheld when one of its operands takes a value that it allows. -/
theorem Upholds.bind {p : Pending Function} (h : env.Upholds p) (free : env.value x.id = none)
    (admits : env.Admits x v) : (env.bind x v).Upholds p := by
  have duty {d : Duty Function} (hp : p ∈ env.pending) (hd : d ∈ p.duties x) : d ∈ env.duties x :=
    List.mem_flatMap.mpr ⟨p, hp, hd⟩
  refine ⟨fun a b ha hb => ?_, fun unbound => ?_⟩
  · by_cases left : p.left.id = x.id
    · obtain ⟨hp, apart⟩ := h.pending (.inl (left ▸ free))
      have other : p.right.id ≠ x.id := fun e => apart (left.trans e.symm)
      rw [value_bind_of_ne other] at hb
      rw [left, value_bind_self] at ha
      cases ha
      have asked := admits ⟨p.right, p.comparison, true⟩ (duty hp (by simp [Pending.duties, left]))
        other
      rwa [allows, hb] at asked
    · rw [value_bind_of_ne left] at ha
      by_cases right : p.right.id = x.id
      · obtain ⟨hp, -⟩ := h.pending (.inr (right ▸ free))
        rw [right, value_bind_self] at hb
        cases hb
        have asked := admits ⟨p.left, p.comparison, false⟩
          (duty hp (by simp [Pending.duties, right])) left
        rwa [allows, ha] at asked
      · rw [value_bind_of_ne right] at hb
        exact h.holds a b ha hb
  · exact h.pending (unbound.imp free_of_bind free_of_bind)

/-- A value endangers nothing that is upheld if the comparisons with other variables allow it. -/
theorem Sustains.bind (free : env.value x.id = none) (admits : env.Admits x v) :
    Sustains env (env.bind x v) := by
  refine ⟨fun i u hu => ?_, fun p hp => hp.bind free admits⟩
  have other : i ≠ x.id := by
    rintro rfl
    rw [free] at hu
    cases hu
  rw [value_bind_of_ne other]
  exact hu

/-- A comparison that is put off endangers none that is upheld. -/
theorem Sustains.defer (env : Env Function) (x y : Var) (c : Comparison Function) :
    env.Sustains (env.defer x y c) := by
  refine ⟨fun _ _ => id, fun p hp => ⟨hp.holds, fun unbound => ?_⟩⟩
  obtain ⟨hm, apart⟩ := hp.pending unbound
  exact ⟨List.mem_append_left _ hm, apart⟩

end Env

namespace Relation

variable {r l s : Relation Function} {n : Nat}

/-- **Every answer upholds what was upheld.** -/
theorem sustains_of_mem_answers (h : e ∈ (r.answers env).found) : env.Sustains e :=
  along_answers .refl (fun h g => h.trans g) (fun _ free _ => .bind free)
    (fun _ env _ => .defer env _ _ _) h

/-! ## What searches uphold -/

theorem solve_of_isLeaf (leaf : s.IsLeaf) (fuel : Nat) :
    (s.solve Function.call fuel : Act Function σ Bool) = s.solve Function.call 0 := by
  cases s with
  | and | or => cases leaf
  | domain | convert | compare | predicate | always | never => rfl

namespace Course

variable {last : Option Bool}

/-- What a leaf has left to give is its answers, but for those it has given. -/
theorem resumes_of_leaf (leaf : s.IsLeaf) (shows : start.Shows env)
    (run : Course Function.call s start last w) :
    ∃ rest interrupt, s.Resumes 0 start ⟨rest, interrupt⟩ w ∧ rest <:+ (s.answers env).found ∧
      (last = some true → ∃ e ∈ (s.answers env).found, w.Shows e) := by
  induction run with
  | start ready => exact ⟨_, _, .of_isLeaf leaf ready shows, List.suffix_rfl, nofun⟩
  | @solve _ v v' answer _ fuel ran ih =>
    obtain ⟨rest, interrupt, resumes, suffix, -⟩ := ih
    have called := resumes.call (.refl s v)
    rw [← solve_of_isLeaf leaf fuel, ran] at called
    generalize same : (⟨rest, interrupt⟩ : Answers (Env Function)) = answers at called
    cases called with
    | found showsE next =>
      cases same
      exact ⟨_, _, next, (List.suffix_cons ..).trans suffix,
        fun _ => ⟨_, suffix.subset (List.mem_cons_self ..), showsE⟩⟩
    | ended _ done =>
      cases same
      exact ⟨_, _, done.2, List.nil_suffix, nofun⟩
  | meanwhile _ same ih =>
    obtain ⟨rest, interrupt, resumes, suffix, shown⟩ := ih
    refine ⟨rest, interrupt, resumes.congr same, suffix, fun answered => ?_⟩
    obtain ⟨e, he, hw⟩ := shown answered
    exact ⟨e, he, hw.of_restored same.restored⟩

/-- The world after an answer of a leaf shows one of its answers. -/
theorem shows_of_leaf (leaf : s.IsLeaf) (shows : start.Shows env)
    (run : Course Function.call s start (some true) w) :
    ∃ e ∈ (s.answers env).found, w.Shows e := by
  obtain ⟨-, -, -, -, shown⟩ := run.resumes_of_leaf leaf shows
  exact shown rfl

end Course

section Compare

variable {call : Caller κ σ} {n : Nat} {x y : Var} {c : Comparison κ} {last : Option Bool}
variable {start w : World κ σ}

/-- Where the course of a comparison has come to.  If it has answered `true` without leaving a watch, it
found both operands bound. -/
inductive Turned (n : Nat) (x y : Var) (start : World κ σ) : Option Bool → World κ σ → Prop
  | fresh {w : World κ σ} (progress : (w.node n).progress = .fresh)
      (value : ∀ z, w.value z = start.value z) : Turned n x y start none w
  | fired {w : World κ σ} {answer : Bool} {entries : List (Var × Nat)}
      (progress : (w.node n).progress = .fired entries)
      (bound : answer = true → entries = [] → (start.value x).isSome ∧ (start.value y).isSome) :
    Turned n x y start (some answer) w

theorem isSome_of_noteOf (h : w.noteOf x = []) : (w.value x).isSome := by
  unfold World.noteOf at h
  split at h
  · rename_i held
    rw [held]
    rfl
  · cases h

theorem Turned.congr {w' : World κ σ} (h : Turned n x y start last w)
    (same : (Relation.compare n x y c).Resembles w w') : Turned n x y start last w' := by
  cases h with
  | fresh progress value =>
    exact .fresh (same.progress.trans progress) fun z => (same.restored.value z).trans (value z)
  | fired progress bound => exact .fired (same.progress.trans progress) bound

theorem Turned.step {w' : World κ σ} {answer : Bool} (quiet : call.Quiet)
    (h : Turned n x y start last w) (ran : advanceCompare call n x y c w = .ok answer w') :
    Turned n x y start (some answer) w' := by
  cases h with
  | fresh progress value =>
    rw [advanceCompare_of_unfired fun entries fired => nomatch progress.symm.trans fired] at ran
    split at ran
    · rename_i left right
      have untouched := (quiet.comparison c _ _).of_ok ran
      refine .fired ((congrArg Node.progress (untouched.node n)).trans (World.progress_noted ..)) ?_
      intro _ _
      rw [← value x, ← value y, left, right]
      exact ⟨rfl, rfl⟩
    · cases ran
      refine .fired (World.progress_noted ..) fun _ unwatched => ?_
      obtain ⟨left, right⟩ := List.append_eq_nil_iff.mp unwatched
      have right' := isSome_of_noteOf right
      rw [World.value_deferred, World.value_noted, value] at right'
      have left' := isSome_of_noteOf left
      rw [World.value_noted, value] at left'
      exact ⟨left', right'⟩
  | fired progress =>
    rw [advanceCompare_of_fired progress] at ran
    cases ran
    exact .fired (World.progress_noted ..) nofun

theorem Turned.of_course (quiet : call.Quiet)
    (run : Course call (.compare n x y c) start last w) : Turned n x y start last w := by
  induction run with
  | start ready => exact .fresh (ready n (node_mem_ids _)).1 fun _ => rfl
  | solve _ fuel ran ih =>
    obtain ⟨w₁, searched, rfl⟩ := ok_of_answering ran
    exact ((ih.congr (.setBusy (.compare n x y c) _ true)).step quiet searched).congr
      (.concluded (.compare n x y c) w₁ _)
  | meanwhile _ same ih => exact ih.congr (.of_similar same)

end Compare

/-- A comparison is upheld in its answer, if it is of two variables as far as it has to wait for one. -/
theorem upholds_of_mem_compare {n : Nat} {x y : Var} {c : Comparison Function}
    (apart : env.value x.id = none ∨ env.value y.id = none → x.id ≠ y.id)
    (he : e ∈ ((Relation.compare n x y c).answers env).found) : e.Upholds ⟨x, y, c⟩ := by
  obtain ⟨v, u, left, right⟩ | free := env.bound_or_free x y
  · rw [answers_compare_of_bound left right] at he
    obtain ⟨holds, rfl⟩ := Answers.mem_given he
    refine ⟨fun a b ha hb => ?_, fun unbound => ?_⟩
    · cases left.symm.trans ha
      cases right.symm.trans hb
      exact holds
    · rcases unbound with none | none
      · cases left.symm.trans none
      · cases right.symm.trans none
  · rw [answers_compare_of_free free] at he
    obtain rfl := List.mem_singleton.mp he
    refine ⟨fun v u left right => ?_, fun waits =>
      ⟨List.mem_append_right _ (List.mem_singleton_self _), apart waits⟩⟩
    rcases free with free | free
    · cases free.symm.trans left
    · cases free.symm.trans right

/-- A comparison is upheld in its answers once it has answered `true`. -/
theorem Course.upholds_compare {n : Nat} {x y : Var} {c : Comparison Function}
    {entries : List (Var × Nat)} (shows : start.Shows env)
    (run : Course Function.call (.compare n x y c) start (some true) w)
    (fired : (w.node n).progress = .fired entries) (sound : x.id ≠ y.id ∨ entries = [])
    (he : e ∈ ((Relation.compare n x y c).answers env).found) : e.Upholds ⟨x, y, c⟩ := by
  refine upholds_of_mem_compare (fun unbound => sound.resolve_right fun unwatched => ?_) he
  subst unwatched
  cases Turned.of_course Function.quiet run with
  | fired progress bound =>
    injection progress.symm.trans fired with none
    obtain ⟨left, right⟩ := bound rfl none
    rw [shows.value] at left right
    rcases unbound with free | free
    · rw [free] at left; cases left
    · rw [free] at right; cases right

/-- The comparisons of the relation that have fired are upheld, those of a variable with itself if they
left no watch. -/
def Enforced (r : Relation Function) (w : World Function σ) (e : Env Function) : Prop :=
  ∀ n x y c, Relation.compare n x y c ∈ r.subs → ∀ entries,
    (w.node n).progress = .fired entries → x.id ≠ y.id ∨ entries = [] → e.Upholds ⟨x, y, c⟩

theorem Enforced.later {r : Relation Function} (h : r.Enforced w env)
    (same : ∀ m ∈ r.ids, w'.node m = w.node m) (sustains : env.Sustains e) : r.Enforced w' e := by
  intro n x y c hs entries fired sound
  rw [same n (List.mem_map_of_mem hs)] at fired
  exact sustains.upholds _ (h n x y c hs entries fired sound)

/-- What a relation has besides one that is enforced has not fired. -/
theorem Enforced.beside {root r s : Relation Function} (coherent : root.Coherent)
    (hr : r ∈ root.subs) (hs : s ∈ root.subs) (h : r.Enforced w e)
    (unused : ∀ m ∈ s.ids, m ∉ r.ids → (w.node m).progress = .fresh ∧ (w.node m).busy = false) :
    s.Enforced w e := by
  intro n x y c hc entries fired sound
  by_cases shared : n ∈ r.ids
  · obtain ⟨t, ht, hn⟩ := List.mem_map.mp shared
    obtain rfl := coherent t (mem_subs_trans ht hr) _ (mem_subs_trans hc hs) hn
    exact h n x y c ht entries fired sound
  · have fresh := (unused n (List.mem_map_of_mem hc) shared).1
    injection fresh.symm.trans fired

/-- **A course that has answered `true` enforces the comparisons that have fired**, and goes on upholding
what was upheld in the beginning. -/
theorem Course.enforces {r : Relation Function} (coherent : r.Coherent) (separated : r.Separated)
    (shows : start.Shows env) (run : Course Function.call r start (some true) w) :
    ∃ e, w.Shows e ∧ env.Sustains e ∧ r.Enforced w e := by
  induction r generalizing start w env with
  | and n l r ihl ihr =>
    cases run.joining Function.quiet coherent separated shows.numbered with
    | @retrying _ paused _ left same right =>
      obtain ⟨d, showsD, sustainsD, enforcedL⟩ :=
        ihl (coherent.mono left_sub_and) separated.2.1 shows left
      obtain ⟨e, showsE, sustainsE, enforcedR⟩ :=
        ihr (coherent.mono right_sub_and) separated.2.2 showsD right
      refine ⟨e, showsE, sustainsD.trans sustainsE, fun m x y c hc => ?_⟩
      simp only [subs, List.mem_cons, List.mem_append, reduceCtorEq, false_or] at hc
      rcases hc with hc | hc
      · exact enforcedL.later same sustainsE m x y c hc
      · exact enforcedR m x y c hc
  | or n l r ihl ihr =>
    have both {e : Env Function} (hl : l.Enforced w e) (hr : r.Enforced w e) :
        (Relation.or n l r).Enforced w e := by
      intro m x y c hc
      simp only [subs, List.mem_cons, List.mem_append, reduceCtorEq, false_or] at hc
      exact hc.elim (hl m x y c) (hr m x y c)
    cases run.choosing Function.quiet coherent separated shows.numbered with
    | left _ left _ unused =>
      obtain ⟨e, showsE, sustains, enforced⟩ :=
        ihl (coherent.mono left_sub_or) separated.1 shows left
      exact ⟨e, showsE, sustains,
        both enforced (enforced.beside coherent left_sub_or right_sub_or unused)⟩
    | right _ restored right unused =>
      obtain ⟨e, showsE, sustains, enforced⟩ :=
        ihr (coherent.mono right_sub_or) separated.2 (shows.of_restored restored) right
      exact ⟨e, showsE, sustains,
        both (enforced.beside coherent right_sub_or left_sub_or unused) enforced⟩
  | compare n x y c =>
    obtain ⟨e, he, showsE⟩ := Course.shows_of_leaf (by rfl) shows run
    refine ⟨e, showsE, sustains_of_mem_answers he, fun m z u d hs entries fired sound => ?_⟩
    cases List.mem_singleton.mp hs
    exact run.upholds_compare shows fired sound he
  | domain | convert | predicate | always | never =>
    obtain ⟨e, he, showsE⟩ := Course.shows_of_leaf (by rfl) shows run
    refine ⟨e, showsE, sustains_of_mem_answers he, fun m z u d hs => ?_⟩
    cases List.mem_singleton.mp hs

/-- **A comparison that has fired holds of its operands** whenever the search has answered `true` and both
operands are bound: any comparison of two variables, and one of a variable with itself if it was
compared at once and has left no watch.  A comparison has fired from its first turn until it is reset,
so that every comparison that holds an answer is among them. -/
theorem fired_comparison_holds {root : Relation Function} (coherent : root.Coherent)
    (separated : root.Separated) (shows : start.Shows env)
    (run : Course Function.call root start (some true) w) {n : Nat} {x y : Var}
    {c : Comparison Function} (hs : Relation.compare n x y c ∈ root.subs)
    {entries : List (Var × Nat)} (fired : (w.node n).progress = .fired entries)
    (sound : x.id ≠ y.id ∨ entries = []) {v u : Value} (left : w.value x = some v)
    (right : w.value y = some u) : c.judge v u = .ok true := by
  obtain ⟨e, showsE, -, enforced⟩ := run.enforces coherent separated shows
  rw [showsE.value] at left right
  exact (enforced n x y c hs entries fired sound).holds v u left right

theorem ordered_bits_found :
    let x : Var := ⟨0, "X"⟩
    let y : Var := ⟨1, "Y"⟩
    let root : Relation Function := .and 0 (.compare 1 x y .equality)
      (.and 2 (.domain 3 x [.bool false, .bool true]) (.domain 4 y [.bool true]))
    ∃ w : World Function Unit, root.solve Function.call 8 { client := () } = .ok true w ∧
      (w.node 1).progress = .fired [(x, 0), (y, 0)] ∧ w.value x = some (.bool true) ∧
      w.value y = some (.bool true) :=
  ⟨_, rfl, rfl, rfl, rfl⟩

/-- A comparison before the binders of both its operands, neither of which was bound. -/
theorem equal_bits_enforced :
    let x : Var := ⟨0, "X"⟩
    let y : Var := ⟨1, "Y"⟩
    let root : Relation Function := .and 0 (.compare 1 x y .equality)
      (.and 2 (.domain 3 x [.bool false, .bool true]) (.domain 4 y [.bool true]))
    ∃ (w : World Function Unit) (v u : Value), root.solve Function.call 8 { client := () } = .ok true w ∧
      w.value x = some v ∧ w.value y = some u ∧
      (Comparison.equality : Comparison Function).judge v u = .ok true := by
  intro x y root
  obtain ⟨w, ran, fired, left, right⟩ := ordered_bits_found
  have separated : root.Separated := ⟨by decide, trivial, by decide, trivial, trivial⟩
  have run : Course Function.call root { client := () } (some true) w :=
    (Course.start (.blank root ())).solve 8 ran
  exact ⟨w, _, _, ran, left, right, fired_comparison_holds (.of_nodup (by decide)) separated
    (.blank ()) run left_sub_and fired (.inl (by decide)) left right⟩

/-- Of a variable with itself, `equality` refuses the second value of a domain that follows it, and a
comparison that holds of nothing lets the first value through. -/
theorem self_comparison_is_not_enforced :
    let x : Var := ⟨0, "X"⟩
    let values : Relation Function := .domain 2 x [.bool false, .bool true]
    let never : Comparison Function := .custom (.ofTest fun _ => false)
    (∃ found spent : World Function Unit,
      (Relation.and 0 (.compare 1 x x .equality) values).solve Function.call 8 { client := () } =
        .ok true found ∧ found.value x = some (.bool false) ∧
      (Relation.and 0 (.compare 1 x x .equality) values).solve Function.call 8 found =
        .ok false spent) ∧
    ∃ w : World Function Unit,
      (Relation.and 0 (.compare 1 x x never) values).solve Function.call 8 { client := () } =
        .ok true w ∧ w.value x = some (.bool false) ∧
      never.judge (.bool false) (.bool false) = .ok false :=
  ⟨⟨_, _, rfl, rfl, rfl⟩, _, rfl, rfl, rfl⟩

end Relation
end RelationSearch
