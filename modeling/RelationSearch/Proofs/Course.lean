import RelationSearch.Proofs.Accounts

/-! # The course of a search

A *course* of a relation is a row of calls of `solve` that all answered, from a world in which the
relation was ready (`Relation.Course`).  Between the calls the nodes of the relation are left alone and the
variables show what they showed, which leaves room for the search around the relation, and for a
client that looks on.

A course of a combination is made of courses of its sides.  A conjunction that has answered `true` has
its right side on a course that began in the world where the left side paused on its own
(`Relation.Joining`).  A disjunction that has answered `true` is on a course of one side
(`Relation.Choosing`).

A course that ends with `false` leaves every leaf at rest and everything restored (`Course.settled`,
`Course.restored`).  A combination does not rewind the side whose `false` it passes on, so this rests on
the leaves: each undoes its own work when it has no more to give (`atRest_of_exhausted`).
-/
namespace RelationSearch

open Act

variable {κ σ : Type} {call : Caller κ σ} {fuel n : Nat} {l r s : Relation κ}
variable {start w w' : World κ σ} {answer : Bool} {last : Option Bool}

namespace Relation

/-- The relation was ready in the world `start`, and all calls on it since then have answered, the last
of them with `last`. -/
inductive Course (call : Caller κ σ) (r : Relation κ) (start : World κ σ) :
    Option Bool → World κ σ → Prop
  | start (ready : r.Ready start) : Course call r start none start
  | solve {last : Option Bool} {w w' : World κ σ} {answer : Bool} (run : Course call r start last w)
      (fuel : Nat) (ran : r.solve call fuel w = .ok answer w') : Course call r start (some answer) w'
  | meanwhile {last : Option Bool} {w w' : World κ σ} (run : Course call r start last w)
      (same : Similar r w w') : Course call r start last w'

/-! ## Leaves that are exhausted -/

theorem free_of_offer {x : Var} {values : List Value}
    (ran : offer call n x values w = .ok false w') : w'.value x = none := by
  induction values generalizing w with
  | nil =>
    cases ran
    exact value_modifyCell_clear _ x
  | cons v rest ih =>
    rw [offer, bind_apply, setProgress_apply] at ran
    obtain ⟨took, w₁, -, goesOn⟩ := bind_ok ran
    cases took with
    | true => cases goesOn
    | false => exact ih goesOn

theorem atRest_of_advanceDomain {x : Var} {values : List Value}
    (ran : advanceDomain call n x values w = .ok false w') :
    (Relation.domain n x values).AtRest w' := by
  intro rest offering
  rw [advanceDomain, bind_apply, progress_apply] at ran
  cases progress : (w.node n).progress with
  | fresh =>
    simp only [progress, bind_apply, value_apply] at ran
    cases held : w.value x with
    | none =>
      rw [held] at ran
      exact free_of_offer ran
    | some v =>
      rw [held] at ran
      injection ran with _ done
      rw [← done] at offering
      injection (World.progress_noted ..).symm.trans offering
  | binding values' =>
    simp only [progress] at ran
    exact free_of_offer ran
  | _ =>
    simp only [progress] at ran
    cases ran
    injection progress.symm.trans offering

theorem releaseTarget_spent {y : Var} (ran : releaseTarget n y w = .ok ⟨⟩ w') (generation : Nat) :
    (w'.node n).progress ≠ .applied generation true := by
  by_cases owning : ∃ g, (w.node n).progress = .applied g true
  · obtain ⟨g, owning⟩ := owning
    rw [releaseTarget_of_owning owning] at ran
    cases ran
    rw [World.progress_noted]
    exact nofun
  · have spent : ∀ g, (w.node n).progress ≠ .applied g true := fun g h => owning ⟨g, h⟩
    rw [releaseTarget_of_spent spent] at ran
    cases ran
    exact spent generation

theorem spent_of_refused {y : Var} {result : Value} {generation : Nat}
    (ran : (do
      if ← y.bind call result then
        Act.setProgress n (.applied generation true)
        return true
      else
        releaseTarget n y
        return false : Act κ σ Bool) w = .ok false w') (generation' : Nat) :
    (w'.node n).progress ≠ .applied generation' true := by
  obtain ⟨took, w₁, -, ran⟩ := bind_ok ran
  cases took with
  | true => cases ran
  | false =>
    obtain ⟨_, w₂, released, back⟩ := bind_ok ran
    cases back
    exact releaseTarget_spent released generation'

theorem spent_of_applyConversion {y : Var} {f : κ} {v : Value} {generation : Nat} {owns : Bool}
    (quiet : call.Quiet) (ran : applyConversion call n y f v generation owns w = .ok false w')
    (generation' : Nat) : (w'.node n).progress ≠ .applied generation' true := by
  rw [applyConversion, bind_apply, setProgress_apply] at ran
  obtain ⟨result, w₁, called, ran⟩ := bind_ok ran
  have untouched := (quiet f [v]).of_ok called
  rw [bind_apply, value_apply] at ran
  dsimp only at ran
  cases owns with
  | true => exact spent_of_refused ran generation'
  | false =>
    cases held : w₁.value y with
    | none =>
      rw [held] at ran
      exact spent_of_refused ran generation'
    | some u =>
      rw [held] at ran
      injection ran with _ done
      rw [← done, untouched.node, World.progress_noted]
      rintro ⟨⟩

theorem atRest_of_advanceConvert {x y : Var} {f : κ} (quiet : call.Quiet)
    (ran : advanceConvert call s n x y f w = .ok false w') :
    (Relation.convert n x y f).AtRest w' := by
  rw [advanceConvert, bind_apply, get_apply] at ran
  dsimp only at ran
  cases bound : (w.cell x).value with
  | none => rw [bound] at ran; cases ran
  | some v =>
    simp only [bound, bind_apply, progress_apply] at ran
    cases progress : (w.node n).progress with
    | applied generation owns =>
      simp only [progress] at ran
      split at ran
      · rw [bind_apply] at ran
        cases released : releaseTarget n y w with
        | ok _ w₁ =>
          rw [released] at ran
          cases ran
          exact releaseTarget_spent released
        | error why w₁ => rw [released] at ran; cases ran
      · exact spent_of_applyConversion quiet ran
    | _ =>
      simp only [progress] at ran
      exact spent_of_applyConversion quiet ran

theorem atRest_of_advanceCompare {x y : Var} {c : Comparison κ} (quiet : call.Quiet)
    (ran : advanceCompare call n x y c w = .ok false w') :
    (Relation.compare n x y c).AtRest w' := by
  have dropped (fired : (w'.node n).progress = .fired []) :
      (Relation.compare n x y c).AtRest w' := by
    intro watches noted
    injection fired.symm.trans noted with none
    exact none.symm
  by_cases fired : ∃ entries, (w.node n).progress = .fired entries
  · obtain ⟨entries, fired⟩ := fired
    rw [advanceCompare_of_fired fired] at ran
    cases ran
    exact dropped (World.progress_noted ..)
  · rw [advanceCompare_of_unfired (not_exists.mp fired)] at ran
    -- A comparison that leaves watches answers `true`.
    split at ran
    · have untouched := (quiet.comparison c _ _).of_ok ran
      exact dropped ((congrArg Node.progress (untouched.node n)).trans (World.progress_noted ..))
    · cases ran

/-- **An exhausted leaf holds nothing.** -/
theorem atRest_of_exhausted (quiet : call.Quiet) (leaf : s.IsLeaf)
    (ran : s.solve call fuel w = .ok false w') : s.AtRest w' := by
  have after {w₁ : World κ σ} (rest : s.AtRest w₁) : s.AtRest (w₁.concluded s false) :=
    rest.congr (World.progress_concluded ..) (World.value_concluded _ _ _)
  cases s with
  | domain =>
    obtain ⟨w₁, searched, rfl⟩ := ok_of_answering ran
    exact after (atRest_of_advanceDomain searched)
  | convert =>
    obtain ⟨w₁, searched, rfl⟩ := ok_of_answering ran
    exact after (atRest_of_advanceConvert quiet searched)
  | compare =>
    obtain ⟨w₁, searched, rfl⟩ := ok_of_answering ran
    exact after (atRest_of_advanceCompare quiet searched)
  | predicate | always | never => trivial
  | and | or => cases leaf

/-! ## What a course keeps -/

namespace Course

theorem ready (run : Course call r start last w) : r.Ready start := by
  induction run with
  | start ready => exact ready
  | solve _ _ _ ih | meanwhile _ _ ih => exact ih

/-- Between the calls nobody drives the relation. -/
theorem idle (quiet : call.Quiet) (run : Course call r start last w) : r.Idle w := by
  induction run with
  | start ready => exact ready.idle
  | solve _ fuel ran ih => exact ih.within ((solve_frame quiet.sparesNodes r).of_ok ran)
  | meanwhile _ same ih =>
    intro m hm
    rw [same.node m hm]
    exact ih m hm

/-- A ledger that does not look at the generations of unbound variables stays true in a course. -/
theorem keepsBooks {A : Nat → Cell κ → Prop → (Nat → Prop) → Prop} (ledger : Ledger A)
    (shown : ∀ {i c c' owned lists}, A i c owned lists → c.Restored c' → A i c' owned lists)
    (quiet : call.Quiet) (coherent : r.Coherent) (run : Course call r start last w) :
    KeepsBooks A r start w := by
  intro begun
  induction run with
  | start => exact begun
  | solve _ fuel ran ih =>
    exact (Books.solve ledger quiet coherent (mem_subs_self r)).of_ok ran ih
  | @meanwhile _ v v' _ same ih =>
    have progress (m : Nat) (hm : m ∈ r.ids) : (v'.node m).progress = (v.node m).progress := by
      rw [same.node m hm]
    refine ⟨fun x => ?_, fun s hs => ?_⟩
    · refine ledger.change (shown (ih.cells x) (same.restored x)) ?_ ?_ ?_ ?_
      · exact fun own => .inl (own.congr fun m hm => (progress m hm).symm)
      · exact fun own unowned => absurd (own.congr progress) unowned
      · exact fun id lists => .inl (lists.congr fun m hm => (progress m hm).symm)
      · exact fun watch _ lists => lists.congr progress
    · rw [progress _ (List.mem_map_of_mem hs)]
      exact ih.proper s hs

theorem numbered (quiet : call.Quiet) (coherent : r.Coherent) (numbered : start.Numbered)
    (run : Course call r start last w) : w.Numbered := by
  have proper := proper_of_fresh fun m hm => (run.ready m hm).1
  refine (run.keepsBooks World.Numbered.ledger ?_ quiet coherent ⟨numbered, proper⟩).cells
  intro _ c c' _ _ older restored watch hm
  rw [restored.watches] at hm
  exact Nat.lt_of_lt_of_le (older watch hm) restored.nextWatch

theorem accounted (quiet : call.Quiet) (coherent : r.Coherent) (numbered : start.Numbered)
    (run : Course call r start last w) : Accounted start r w := by
  refine run.keepsBooks (Cell.Accounted.ledger numbered) ?_ quiet coherent
    (Accounted.start fun m hm => (run.ready m hm).1)
  exact fun accounted restored => accounted.shown restored

end Course

/-! ## Conjunctions -/

/-- Where the course of a conjunction has come to.  While it is retrying, its left side has answered
`true` and waits as it `paused`; the right side began its own course there and has answered `true`. -/
inductive Joining (call : Caller κ σ) (n : Nat) (l r : Relation κ) (start : World κ σ) :
    Option Bool → World κ σ → Prop
  | fresh {w : World κ σ} (progress : (w.node n).progress = .fresh)
      (left : Course call l start none w) (right : r.Ready w) : Joining call n l r start none w
  | retrying {w paused : World κ σ} (progress : (w.node n).progress = .retrying)
      (left : Course call l start (some true) paused)
      (same : ∀ m ∈ l.ids, w.node m = paused.node m)
      (right : Course call r paused (some true) w) : Joining call n l r start (some true) w
  | exhausted {w : World κ σ} (progress : (w.node n).progress = .exhausted) (left : l.Settled w)
      (right : r.Settled w) : Joining call n l r start (some false) w

theorem Joining.congr (apart : Apart n l r) (h : Joining call n l r start last w)
    (same : (Relation.and n l r).Resembles w w') : Joining call n l r start last w' := by
  have left : Similar l w w' := same.part left_sub_and apart.left
  have right : Similar r w w' := same.part right_sub_and apart.right
  cases h with
  | fresh progress hl hr =>
    exact .fresh (same.progress.trans progress) (hl.meanwhile left) (hr.congr right.node)
  | retrying progress hl nodes hr =>
    exact .retrying (same.progress.trans progress) hl
      (fun m hm => (left.node m hm).trans (nodes m hm)) (hr.meanwhile right)
  | exhausted progress hl hr =>
    exact .exhausted (same.progress.trans progress) (hl.congr left.node same.restored.value)
      (hr.congr right.node same.restored.value)

section Conjunction

variable (quiet : call.Quiet) (apart : Apart n l r) (numbered : start.Numbered)
variable (leftSettles : ∀ {began w : World κ σ}, began.Numbered →
  Course call l began (some false) w → l.Settled w)
variable (rightSettles : ∀ {began w : World κ σ}, began.Numbered →
  Course call r began (some false) w → r.Settled w)

include quiet apart rightSettles

/-- The right side is called under a left answer; when it is exhausted, the loop goes on. -/
theorem Joining.retry {k : Nat} {paused : World κ σ} {last' : Option Bool}
    (progress : (w.node n).progress = .retrying) (numbered : paused.Numbered)
    (left : Course call l start (some true) paused)
    (same : ∀ m ∈ l.ids, w.node m = paused.node m) (right : Course call r paused last' w)
    (loop : ∀ w w₁ b, Course call l start (some true) w → r.Ready w →
      conjoin n (l.solve call fuel) (r.solve call fuel) r.reset k w = .ok b w₁ →
      Joining call n l r start (some b) w₁)
    (ran : conjoinRight n (l.solve call fuel) (r.solve call fuel) r.reset k w = .ok answer w') :
    Joining call n l r start (some answer) w' := by
  obtain ⟨found, w₁, asked, goesOn⟩ := bind_ok ran
  have frame {m : Nat} (hm : m ∉ r.ids) : w₁.node m = w.node m :=
    ((solve_frame quiet.sparesNodes r).of_ok asked).node m hm
  have waits : ∀ m ∈ l.ids, w₁.node m = paused.node m :=
    fun m hm => (frame (apart.sides m hm)).trans (same m hm)
  have right' := right.solve fuel asked
  cases found with
  | true =>
    cases goesOn
    exact .retrying ((congrArg Node.progress (frame apart.right)).trans progress) left waits right'
  | false =>
    have settled := rightSettles numbered right'
    obtain ⟨w₂, rewound, ready, restored⟩ := settled.reset apart.coherent
    have frame₂ := ((reset_frame r).of_ok rewound).node
    -- To the left side nothing has happened: its nodes are its own, and the variables are restored.
    have back : Restored paused w₂ :=
      ((right'.accounted quiet apart.coherent numbered).restored_of_settled settled).trans restored
    have again : Similar l paused w₂ :=
      ⟨back, fun m hm => (frame₂ m (apart.sides m hm)).trans (waits m hm)⟩
    simp only [Bool.false_eq_true, if_false, bind_apply, rewound] at goesOn
    exact loop w₂ w' answer (left.meanwhile again) ready goesOn

variable (coherent : l.Coherent)
include numbered leftSettles coherent

/-- The loop of a conjunction: the left side is called, and the right side under each of its answers. -/
theorem Joining.loop {k : Nat} (left : Course call l start last w) (right : r.Ready w)
    (ran : conjoin n (l.solve call fuel) (r.solve call fuel) r.reset k w = .ok answer w') :
    Joining call n l r start (some answer) w' := by
  induction k generalizing w w' last answer with
  | zero => cases ran
  | succ k ih =>
    obtain ⟨found, w₁, asked, goesOn⟩ := bind_ok ran
    have left' := left.solve fuel asked
    have ready : r.Ready w₁ := right.congr fun m hm =>
      ((solve_frame quiet.sparesNodes l).of_ok asked).node m fun h => apart.sides m h hm
    have ready' (p : Progress) : r.Ready (w₁.noted n p) := ready.congr fun m hm =>
      World.node_noted_of_mem _ _ _ apart.right hm
    have beside (p : Progress) : Similar l w₁ (w₁.noted n p) := .of_modifyNode apart.left w₁ _
    cases found with
    | true =>
      have paused := left'.meanwhile (beside .retrying)
      exact retry quiet apart rightSettles (World.progress_noted ..)
        (paused.numbered quiet coherent numbered) paused (fun _ _ => rfl) (.start (ready' .retrying))
        (fun w₂ w₃ b hl hr ran => ih hl hr ran) goesOn
    | false =>
      cases goesOn
      exact .exhausted (World.progress_noted ..)
        ((leftSettles numbered left').congr (beside .exhausted).node fun _ => rfl)
        (ready' .exhausted).settled

theorem Joining.step (h : Joining call n l r start last w)
    (ran : advanceAnd fuel n (l.solve call fuel) (r.solve call fuel) r.reset w = .ok answer w') :
    Joining call n l r start (some answer) w' := by
  have loop {v : World κ σ} {last' : Option Bool} (left : Course call l start last' v)
      (right : r.Ready v) {b : Bool} {v' : World κ σ}
      (ran : conjoin n (l.solve call fuel) (r.solve call fuel) r.reset fuel v = .ok b v') :
      Joining call n l r start (some b) v' :=
    .loop quiet apart numbered leftSettles rightSettles coherent left right ran
  cases h with
  | fresh progress left right =>
    rw [advanceAnd_of_fresh progress] at ran
    exact loop left right ran
  | retrying progress left same right =>
    rw [advanceAnd_of_retrying progress] at ran
    exact retry quiet apart rightSettles progress (left.numbered quiet coherent numbered) left same
      right (fun _ _ _ hl hr ran => loop hl hr ran) ran
  | exhausted progress left right =>
    rw [advanceAnd_of_exhausted progress] at ran
    cases ran
    exact .exhausted progress left right

/-- The course of a conjunction is made of courses of its sides. -/
theorem Joining.of_course (run : Course call (.and n l r) start last w) :
    Joining call n l r start last w := by
  induction run with
  | start ready =>
    exact .fresh (ready n (node_mem_ids _)).1 (.start (ready.mono left_sub_and))
      (ready.mono right_sub_and)
  | solve _ fuel ran ih =>
    obtain ⟨w₁, searched, rfl⟩ := ok_of_answering ran
    have begun := ih.congr apart (.setBusy (.and n l r) _ true)
    exact (begun.step quiet apart numbered leftSettles rightSettles coherent searched).congr apart
      (.concluded (.and n l r) w₁ _)
  | meanwhile _ same ih => exact ih.congr apart (.of_similar same)

end Conjunction

/-! ## Disjunctions -/

/-- Where the course of a disjunction has come to.  On the left, the nodes that only the right side has
are ready; on the right, the nodes that only the left side has, and the right side began in a world
that shows what `start` does. -/
inductive Choosing (call : Caller κ σ) (n : Nat) (l r : Relation κ) (start : World κ σ) :
    Option Bool → World κ σ → Prop
  | left {w : World κ σ} {last : Option Bool}
      (progress : (w.node n).progress = .fresh ∨ (w.node n).progress = .inLeft)
      (left : Course call l start last w) (unended : last ≠ some false)
      (right : ∀ m ∈ r.ids, m ∉ l.ids →
        (w.node m).progress = .fresh ∧ (w.node m).busy = false) :
    Choosing call n l r start last w
  | right {w began : World κ σ} (progress : (w.node n).progress = .inRight)
      (restored : Restored start began) (right : Course call r began (some true) w)
      (left : ∀ m ∈ l.ids, m ∉ r.ids →
        (w.node m).progress = .fresh ∧ (w.node m).busy = false) :
    Choosing call n l r start (some true) w
  | exhausted {w : World κ σ} (progress : (w.node n).progress = .exhausted) (left : l.Settled w)
      (right : r.Settled w) : Choosing call n l r start (some false) w

theorem Choosing.congr (coherent : (Relation.or n l r).Coherent)
    (h : Choosing call n l r start last w) (same : (Relation.or n l r).Resembles w w') :
    Choosing call n l r start last w' := by
  have left : Similar l w w' := same.part left_sub_or (coherent.node_not_mem left_part_or)
  have right : Similar r w w' := same.part right_sub_or (coherent.node_not_mem right_part_or)
  cases h with
  | left progress hl unended unused =>
    refine .left ?_ (hl.meanwhile left) unended fun m hm hne => ?_
    · rw [show (w'.node n).progress = (w.node n).progress from same.progress]
      exact progress
    · rw [right.node m hm]
      exact unused m hm hne
  | right progress restored hr unused =>
    refine .right (same.progress.trans progress) restored (hr.meanwhile right) fun m hm hne => ?_
    rw [left.node m hm]
    exact unused m hm hne
  | exhausted progress hl hr =>
    exact .exhausted (same.progress.trans progress) (hl.congr left.node same.restored.value)
      (hr.congr right.node same.restored.value)

section Disjunction

variable (quiet : call.Quiet) (coherent : (Relation.or n l r).Coherent) (numbered : start.Numbered)
variable (leftSettles : ∀ {began w : World κ σ}, began.Numbered →
  Course call l began (some false) w → l.Settled w)
variable (rightSettles : ∀ {began w : World κ σ}, began.Numbered →
  Course call r began (some false) w → r.Settled w)

include quiet coherent rightSettles numbered

theorem Choosing.searchRight {began : World κ σ} {last' : Option Bool}
    (progress : (w.node n).progress = .inRight) (restored : Restored start began)
    (right : Course call r began last' w)
    (left : ∀ m ∈ l.ids, m ∉ r.ids → (w.node m).progress = .fresh ∧ (w.node m).busy = false)
    (ran : disjoinRight n (r.solve call fuel) w = .ok answer w') :
    Choosing call n l r start (some answer) w' := by
  have outL : n ∉ l.ids := coherent.node_not_mem left_part_or
  have outR : n ∉ r.ids := coherent.node_not_mem right_part_or
  obtain ⟨found, w₁, asked, goesOn⟩ := bind_ok ran
  have frame {m : Nat} (hm : m ∉ r.ids) : w₁.node m = w.node m :=
    ((solve_frame quiet.sparesNodes r).of_ok asked).node m hm
  have unused : ∀ m ∈ l.ids, m ∉ r.ids →
      (w₁.node m).progress = .fresh ∧ (w₁.node m).busy = false := by
    intro m hm hne
    rw [frame hne]
    exact left m hm hne
  have right' := right.solve fuel asked
  cases found with
  | true =>
    cases goesOn
    exact .right ((congrArg Node.progress (frame outR)).trans progress) restored right' unused
  | false =>
    cases goesOn
    have settled := rightSettles (numbered.of_restored restored) right'
    have noted {s : Relation κ} (hn : n ∉ s.ids) (h : s.Settled w₁) :
        s.Settled (w₁.noted n .exhausted) :=
      h.congr (fun m hm => World.node_noted_of_mem _ _ _ hn hm) fun _ => rfl
    exact .exhausted (World.progress_noted ..)
      (noted outL (.of_shared coherent left_sub_or right_sub_or settled unused)) (noted outR settled)

include leftSettles

/-- The left side is called; when it is exhausted, the right side begins where all is as it was. -/
theorem Choosing.searchLeft (left : Course call l start last w)
    (unused : ∀ m ∈ r.ids, m ∉ l.ids → (w.node m).progress = .fresh ∧ (w.node m).busy = false)
    (ran : disjoinLeft n (l.solve call fuel) (r.solve call fuel) l.reset w = .ok answer w') :
    Choosing call n l r start (some answer) w' := by
  have outL : n ∉ l.ids := coherent.node_not_mem left_part_or
  have outR : n ∉ r.ids := coherent.node_not_mem right_part_or
  have coherentL : l.Coherent := coherent.mono left_sub_or
  obtain ⟨found, w₁, asked, goesOn⟩ := bind_ok ran
  have frame {m : Nat} (hm : m ∉ l.ids) : w₁.node m = w.node m :=
    ((solve_frame quiet.sparesNodes l).of_ok asked).node m hm
  have unused₁ : ∀ m ∈ r.ids, m ∉ l.ids →
      (w₁.node m).progress = .fresh ∧ (w₁.node m).busy = false := by
    intro m hm hne
    rw [frame hne]
    exact unused m hm hne
  have left' := left.solve fuel asked
  cases found with
  | true =>
    cases goesOn
    have unused₂ : ∀ m ∈ r.ids, m ∉ l.ids →
        ((w₁.noted n .inLeft).node m).progress = .fresh ∧
          ((w₁.noted n .inLeft).node m).busy = false := by
      intro m hm hne
      rw [World.node_noted_of_mem _ _ _ outR hm]
      exact unused₁ m hm hne
    exact .left (.inr (World.progress_noted ..)) (left'.meanwhile (.of_modifyNode outL w₁ _)) nofun
      unused₂
  | false =>
    have settled := leftSettles numbered left'
    obtain ⟨w₂, rewound, ready, restored⟩ := settled.reset coherentL
    have back : Restored start w₂ :=
      ((left'.accounted quiet coherentL numbered).restored_of_settled settled).trans restored
    have frame₂ := ((reset_frame l).of_ok rewound).node
    -- What the right side shares has been rewound with the left one.
    have readyR : r.Ready w₂ := by
      intro m hm
      by_cases shared : m ∈ l.ids
      · exact ready m shared
      · rw [frame₂ m shared]
        exact unused₁ m hm shared
    have noted {s : Relation κ} (hn : n ∉ s.ids) (h : s.Ready w₂) :
        s.Ready (w₂.noted n .inRight) :=
      h.congr fun m hm => World.node_noted_of_mem _ _ _ hn hm
    simp only [Bool.false_eq_true, if_false, bind_apply, rewound, setProgress_apply] at goesOn
    exact searchRight quiet coherent numbered rightSettles (World.progress_noted ..)
      (back.trans (.noted w₂ n .inRight)) (.start (noted outR readyR))
      (fun m hm _ => noted outL ready m hm) goesOn

theorem Choosing.step (h : Choosing call n l r start last w)
    (ran : advanceOr n (l.solve call fuel) (r.solve call fuel) l.reset w = .ok answer w') :
    Choosing call n l r start (some answer) w' := by
  cases h with
  | left progress left unended unused =>
    rw [advanceOr_of_left progress] at ran
    exact searchLeft quiet coherent numbered leftSettles rightSettles left unused ran
  | right progress restored right unused =>
    rw [advanceOr_of_inRight progress] at ran
    exact searchRight quiet coherent numbered rightSettles progress restored right unused ran
  | exhausted progress left right =>
    rw [advanceOr_of_exhausted progress] at ran
    cases ran
    exact .exhausted progress left right

/-- The course of a disjunction is made of courses of its sides. -/
theorem Choosing.of_course (run : Course call (.or n l r) start last w) :
    Choosing call n l r start last w := by
  induction run with
  | start ready =>
    exact .left (.inl (ready n (node_mem_ids _)).1) (.start (ready.mono left_sub_or)) nofun
      fun m hm _ => ready.mono right_sub_or m hm
  | solve _ fuel ran ih =>
    obtain ⟨w₁, searched, rfl⟩ := ok_of_answering ran
    have begun := ih.congr coherent (.setBusy (.or n l r) _ true)
    exact (begun.step quiet coherent numbered leftSettles rightSettles searched).congr coherent
      (.concluded (.or n l r) w₁ _)
  | meanwhile _ same ih => exact ih.congr coherent (.of_similar same)

end Disjunction

/-! ## The end of a course -/

namespace Course

theorem atRest (quiet : call.Quiet) (leaf : r.IsLeaf) (run : Course call r start (some false) w) :
    r.AtRest w := by
  generalize ended : some false = last at run
  induction run with
  | start => cases ended
  | solve _ fuel ran =>
    cases ended
    exact atRest_of_exhausted quiet leaf ran
  | meanwhile _ same ih =>
    exact (ih ended).congr (by rw [same.node _ (node_mem_ids r)]) same.restored.value

/-- **A course that ends with `false` leaves every leaf at rest.** -/
theorem settled (quiet : call.Quiet) (coherent : r.Coherent) (separated : r.Separated)
    (numbered : start.Numbered) (run : Course call r start (some false) w) : r.Settled w := by
  have idle := run.idle quiet
  induction r generalizing start w with
  | and n l r ihl ihr =>
    have coherentL := coherent.mono left_sub_and
    have coherentR := coherent.mono right_sub_and
    cases Joining.of_course quiet (.of_separated coherent separated) numbered
      (fun numbered run => ihl coherentL separated.2.1 numbered run (run.idle quiet))
      (fun numbered run => ihr coherentR separated.2.2 numbered run (run.idle quiet)) coherentL run with
    | exhausted _ left right =>
      exact .of_parts (forall_parts_and left right) trivial (idle n (node_mem_ids _))
  | or n l r ihl ihr =>
    cases Choosing.of_course quiet coherent numbered
      (fun numbered run => ihl (coherent.mono left_sub_or) separated.1 numbered run (run.idle quiet))
      (fun numbered run => ihr (coherent.mono right_sub_or) separated.2 numbered run (run.idle quiet))
      run with
    | left _ _ unended => exact absurd rfl unended
    | exhausted _ left right =>
      exact .of_parts (forall_parts_or left right) trivial (idle n (node_mem_ids _))
  | domain | convert | compare | predicate | always | never =>
    intro s hs
    obtain rfl := List.mem_singleton.mp hs
    exact ⟨run.atRest quiet rfl, idle _ (node_mem_ids _)⟩

theorem restored (quiet : call.Quiet) (coherent : r.Coherent) (separated : r.Separated)
    (numbered : start.Numbered) (run : Course call r start (some false) w) : Restored start w :=
  (run.accounted quiet coherent numbered).restored_of_settled
    (run.settled quiet coherent separated numbered)

theorem joining (quiet : call.Quiet) (coherent : (Relation.and n l r).Coherent)
    (separated : (Relation.and n l r).Separated) (numbered : start.Numbered)
    (run : Course call (.and n l r) start last w) : Joining call n l r start last w :=
  .of_course quiet (.of_separated coherent separated) numbered
    (fun numbered run => run.settled quiet (coherent.mono left_sub_and) separated.2.1 numbered)
    (fun numbered run => run.settled quiet (coherent.mono right_sub_and) separated.2.2 numbered)
    (coherent.mono left_sub_and) run

theorem choosing (quiet : call.Quiet) (coherent : (Relation.or n l r).Coherent)
    (separated : (Relation.or n l r).Separated) (numbered : start.Numbered)
    (run : Course call (.or n l r) start last w) : Choosing call n l r start last w :=
  .of_course quiet coherent numbered
    (fun numbered run => run.settled quiet (coherent.mono left_sub_or) separated.1 numbered)
    (fun numbered run => run.settled quiet (coherent.mono right_sub_or) separated.2 numbered) run

end Course

end Relation
end RelationSearch
