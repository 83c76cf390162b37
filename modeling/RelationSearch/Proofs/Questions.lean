import Mathlib.Logic.Function.Iterate
import RelationSearch.Proofs.DepthFirst

/-! # What a search asks its callbacks

Resuming a search derives nothing twice.  Whatever callbacks do that leave the variables and the nodes
alone, the calls of `solve` run them just as the dialogue of the relation says, which is that of a plain
depth-first search that is never interrupted (`Relation.solve_asks_as_dialogue`): between two answers
the same callbacks are run with the same arguments in the same order, and after the end of the
dialogue none.

What is run is read off a log that the callbacks keep beside their own state (`Replies.logged`).
-/
namespace RelationSearch

open Act

variable {κ σ : Type}

/-- A callback and the arguments that it was run with. -/
abbrev Question (κ : Type) := κ × List Value

/-- What can be seen of a search. -/
inductive Moment (κ : Type)
  | asked (question : Question κ)
  | answered (env : Env κ)

namespace Moment

def question? : Moment κ → Option (Question κ)
  | .asked question => some question
  | .answered _ => none

def isAnswer : Moment κ → Bool
  | .asked _ => false
  | .answered _ => true

end Moment

/-- The callbacks with a log of what they were asked. -/
def Replies.logged (reply : Replies κ σ) : Replies κ (σ × List (Question κ)) :=
  fun k args (client, log) =>
    ((reply k args client).1, (reply k args client).2, log ++ [(k, args)])

/-- What is seen of a dialogue, given the replies: its questions and answers in order, and the interrupt
that ends it, if one does. -/
def Dialogue.play (reply : Replies κ σ) : Dialogue κ → σ → Answers (Moment κ)
  | .ask k args next, client =>
    (Answers.once (.asked (k, args))).append
      ((next (reply k args client).1).play reply (reply k args client).2)
  | .answer env rest, client => (Answers.once (.answered env)).append (rest.play reply client)
  | .ended, _ => .none
  | .interrupted why, _ => .interrupted why

namespace Relation

variable {r : Relation κ} {reply : Replies κ σ} {fuel : Nat}
variable {start w : World κ (σ × List (Question κ))} {d : Dialogue κ}

/-- So many further calls all answer `false`, and ask nothing. -/
def StaysSilent (reply : Replies κ σ) (fuel : Nat) (r : Relation κ) (log : List (Question κ)) :
    Nat → World κ (σ × List (Question κ)) → Prop
  | 0, _ => True
  | k + 1, w => ∃ w', r.solve reply.logged.call fuel w = .ok false w' ∧ w'.client.2 = log ∧
      StaysSilent reply fuel r log k w'

/-- One call of `solve` after the other asks the questions up to the next answer, and comes to that answer;
the call after the last answer asks the questions that are left, and comes to the interrupt or to
`false`. -/
def Recounts (reply : Replies κ σ) (fuel : Nat) (r : Relation κ) (interrupt : Option Interrupt) :
    List (Moment κ) → List (Question κ) → World κ (σ × List (Question κ)) → Prop
  | .asked question :: rest, log, w => Recounts reply fuel r interrupt rest (log ++ [question]) w
  | .answered env :: rest, log, w =>
    ∃ w', r.solve reply.logged.call fuel w = .ok true w' ∧ w'.client.2 = log ∧ w'.Shows env ∧
      Recounts reply fuel r interrupt rest log w'
  | [], log, w =>
    match interrupt with
    | some why => ∃ w', r.solve reply.logged.call fuel w = .error why w' ∧ w'.client.2 = log
    | none => ∀ k, StaysSilent reply fuel r log k w

theorem Converses.staysSilent (h : r.Converses reply.logged fuel start .ended w) (k : Nat) :
    r.StaysSilent reply fuel w.client.2 k w := by
  induction k generalizing w with
  | zero => trivial
  | succ k ih =>
    have called := h.call (.refl r w)
    generalize ran : r.solve reply.logged.call fuel w = result at called
    cases called with
    | @ended _ w₁ kept _ done => exact ⟨w₁, ran, by rw [kept], kept ▸ ih done.2⟩

/-- A call that follows a dialogue recounts it, if the calls after it do. -/
theorem recounts_of_follows {client : σ × List (Question κ)}
    (called : Follows reply.logged start (r.Converses reply.logged fuel start)
      (fun w => r.Settled w ∧ r.Converses reply.logged fuel start .ended w) d client
      (r.solve reply.logged.call fuel w)) :
    r.Recounts reply fuel (d.play reply client.1).interrupt (d.play reply client.1).found
      client.2 w := by
  induction d generalizing client w with
  | ask k args next ih =>
    cases called with
    | asked after => exact ih _ after
  | answer env rest ih =>
    generalize ran : r.solve reply.logged.call fuel w = result at called
    cases called with
    | @found _ _ _ w₁ kept shows next =>
      exact ⟨w₁, ran, congrArg Prod.snd kept, shows, kept ▸ ih (next.call (.refl r w₁))⟩
  | ended =>
    generalize ran : r.solve reply.logged.call fuel w = result at called
    cases called with
    | @ended _ w₁ kept _ done =>
      rintro (_ | k)
      · trivial
      · exact ⟨w₁, ran, congrArg Prod.snd kept, kept ▸ done.2.staysSilent k⟩
  | interrupted why =>
    generalize ran : r.solve reply.logged.call fuel w = result at called
    cases called with
    | @interrupted _ _ w₁ kept => exact ⟨w₁, ran, congrArg Prod.snd kept⟩

/-- After so many answers, the log holds the questions up to there. -/
theorem Recounts.upTo {interrupt : Option Interrupt} {moments : List (Moment κ)}
    {log : List (Question κ)} (h : r.Recounts reply fuel interrupt moments log w) {k : Nat}
    (few : k < moments.countP Moment.isAnswer) :
    ∃ upTo, upTo <+: moments ∧ upTo.countP Moment.isAnswer = k + 1 ∧
      ((r.solve reply.logged.call fuel).final^[k + 1] w).client.2 =
        log ++ upTo.filterMap Moment.question? := by
  induction moments generalizing log w k with
  | nil => cases few
  | cons moment rest ih =>
    cases moment with
    | asked question =>
      obtain ⟨upTo, initial, count, logged⟩ := ih h few
      refine ⟨.asked question :: upTo, (List.prefix_cons_inj _).mpr initial, count, ?_⟩
      rw [logged, List.append_assoc]
      rfl
    | answered env =>
      obtain ⟨w₁, ran, kept, -, goesOn⟩ := h
      cases k with
      | zero =>
        refine ⟨[.answered env], List.prefix_append .., rfl, ?_⟩
        show ((r.solve reply.logged.call fuel).final w).client.2 = log ++ []
        rw [final_of_ok ran, kept, List.append_nil]
      | succ k =>
        rw [List.countP_cons_of_pos rfl] at few
        obtain ⟨upTo, initial, count, logged⟩ := ih goesOn (Nat.lt_of_succ_lt_succ few)
        refine ⟨.answered env :: upTo, (List.prefix_cons_inj _).mpr initial, ?_, ?_⟩
        · rw [List.countP_cons_of_pos rfl, count]
        rw [Function.iterate_succ_apply, final_of_ok ran]
        exact logged

/-- **Resuming a search derives nothing twice.**  In a world that shows an environment, the calls of `solve`
on a ready relation ask and answer what its dialogue there asks and answers, which is that of a plain
depth-first search: so many calls have asked the questions up to the last of their answers and no
others, and after the end of the dialogue nothing is asked. -/
theorem solve_asks_as_dialogue (reply : Replies κ σ) {env : Env κ} (coherent : r.Coherent)
    (separated : r.Separated) (enough : r.weight < fuel) (ready : r.Ready w) (shows : w.Shows env) :
    let story := (r.dialogue env).play reply w.client.1
    r.Recounts reply fuel story.interrupt story.found w.client.2 w ∧
    ∀ k ≤ story.found.countP Moment.isAnswer,
      ∃ upTo, upTo <+: story.found ∧ upTo.countP Moment.isAnswer = k ∧
        ((r.solve reply.logged.call fuel).final^[k] w).client.2 =
          w.client.2 ++ upTo.filterMap Moment.question? := by
  intro story
  have recounts : r.Recounts reply fuel story.interrupt story.found w.client.2 w :=
    recounts_of_follows ((Converses.of_ready coherent separated enough ready shows).call (.refl r w))
  refine ⟨recounts, fun k few => ?_⟩
  cases k with
  | zero => exact ⟨[], List.nil_prefix, rfl, (List.append_nil _).symm⟩
  | succ k => exact recounts.upTo few

/-- Two equal bits: the comparison is asked about each of the four pairs when the second bit is offered, and
never again. -/
theorem four_pairs_asked_once :
    let x : Var := ⟨0, "X"⟩
    let y : Var := ⟨1, "Y"⟩
    let bits : List Value := [.bool false, .bool true]
    let r : Relation String :=
      .and 0 (.compare 1 x y (.custom "equal")) (.and 2 (.domain 3 x bits) (.domain 4 y bits))
    let env : Env String := { value := fun _ => none, pending := [] }
    let reply : Replies String Unit := fun _ args _ => (.ok (.bool (args.head? == args[1]?)), ())
    let w : World String (Unit × List (Question String)) := { client := ((), []) }
    let story := (r.dialogue env).play reply ()
    story.found.countP Moment.isAnswer = 2 ∧
      story.found.filterMap Moment.question? = [("equal", [.bool false, .bool false]),
        ("equal", [.bool false, .bool true]), ("equal", [.bool true, .bool false]),
        ("equal", [.bool true, .bool true])] ∧
      r.Recounts reply 32 story.interrupt story.found [] w := by
  intro x y bits r env reply w story
  refine ⟨by decide +kernel, by rfl, ?_⟩
  exact (solve_asks_as_dialogue (r := r) (w := w) reply (.of_nodup (by decide))
    ⟨by decide, trivial, by decide, trivial, trivial⟩ (show r.weight < 32 by decide) (.blank _ _)
    (.blank _)).1

end Relation
end RelationSearch
