import RelationSearch.Proofs.Rewinding

/-! # How the calls of a search ended

A node does not remember how the latest call on it ended.  Here the search runs beside a log that does:
for every node, how the latest call of `solve` or `reset` on it ended (`Relation.solveNoting`,
`Relation.resetNoting`).  The log is kept in the client's part of the world, and the leaves are run
without it (`Act.logged`).

The log changes nothing: without it, a noted call is the call itself (`Relation.solveNoting_erases`).
-/
namespace RelationSearch

open Act

variable {κ σ α β : Type} {call : Caller κ σ} {fuel : Nat}

/-- How a call of `solve` or `reset` ended. -/
inductive Ending
  | answered (answer : Bool)
  | interrupted
  | rewound
  deriving DecidableEq, Repr

/-- How the latest call on each node ended, if there was one. -/
abbrev Log := Nat → Option Ending

namespace World

/-- The world without its log. -/
def plain (w : World κ (σ × Log)) : World κ σ where
  cells := w.cells
  nodes := w.nodes
  tracing := w.tracing
  events := w.events
  client := w.client.1

/-- The world beside a log. -/
def logged (w : World κ σ) (log : Log) : World κ (σ × Log) where
  cells := w.cells
  nodes := w.nodes
  tracing := w.tracing
  events := w.events
  client := (w.client, log)

/-- How the latest call on a node ended. -/
def latest (w : World κ (σ × Log)) (n : Nat) : Option Ending := w.client.2 n

/-- Notes how a call on a node ended. -/
def note (w : World κ (σ × Log)) (n : Nat) (ending : Ending) : World κ (σ × Log) :=
  { w with client := (w.client.1, fun m => if m = n then some ending else w.client.2 m) }

variable (w : World κ (σ × Log)) (n m : Nat) (x : Var) (ending : Ending)

@[simp] theorem plain_logged (w : World κ σ) (log : Log) : (w.logged log).plain = w := rfl

@[simp] theorem plain_note : (w.note n ending).plain = w.plain := rfl

@[simp] theorem node_plain : w.plain.node n = w.node n := rfl

@[simp] theorem node_note : (w.note n ending).node m = w.node m := rfl

@[simp] theorem latest_note : (w.note n ending).latest n = some ending := if_pos rfl

theorem latest_note_of_ne (h : m ≠ n) : (w.note n ending).latest m = w.latest m := if_neg h

@[simp] theorem latest_modifyNode (f : Node → Node) : (w.modifyNode n f).latest m = w.latest m :=
  rfl

@[simp] theorem latest_record (event : World κ (σ × Log) → Event) :
    (w.record event).latest m = w.latest m := by
  unfold record
  split <;> rfl

theorem image_plain (r : Relation κ) : w.plain.image r = w.image r := by
  induction r with
  | and n l r ihl ihr | or n l r ihl ihr => rw [image, image, ihl, ihr]; rfl
  | domain | convert | compare | predicate | always | never => rfl

theorem plain_record (event : World κ (σ × Log) → Event) (event' : World κ σ → Event)
    (h : event w = event' w.plain) : (w.record event).plain = w.plain.record event' := by
  unfold record
  rw [h]
  change (if w.tracing then _ else _ : World κ (σ × Log)).plain = if w.tracing then _ else _
  split <;> rfl

theorem plain_concluded (r : Relation κ) (answer : Bool) :
    (w.concluded r answer).plain = w.plain.concluded r answer := by
  unfold concluded
  exact plain_record _ _ _ (congrArg (Event.solved · answer) (image_plain _ r).symm)

theorem plain_rewound (r : Relation κ) : (w.rewound r).plain = w.plain.rewound r := by
  unfold rewound
  exact plain_record _ _ _ (congrArg Event.rewound (image_plain _ r).symm)

end World

/-- Runs a computation that knows of no log. -/
def Act.logged (act : Act κ σ α) : Act κ (σ × Log) α := fun w =>
  match act w.plain with
  | .ok a w' => .ok a (w'.logged w.client.2)
  | .error why w' => .error why (w'.logged w.client.2)

/-- Runs a call on a node and notes how it ended. -/
def noting (n : Nat) (ending : α → Ending) (act : Act κ (σ × Log) α) : Act κ (σ × Log) α := fun w =>
  match act w with
  | .ok a w' => .ok a (w'.note n (ending a))
  | .error why w' => .error why (w'.note n .interrupted)

theorem noting_ok {n : Nat} {ending : α → Ending} {act : Act κ (σ × Log) α}
    {w w' : World κ (σ × Log)} {a : α} (ran : noting n ending act w = .ok a w') :
    ∃ w₁, act w = .ok a w₁ ∧ w' = w₁.note n (ending a) := by
  unfold noting at ran
  cases first : act w with
  | ok b w₁ => rw [first] at ran; cases ran; exact ⟨w₁, rfl, rfl⟩
  | error why w₁ => rw [first] at ran; cases ran

theorem noting_error {n : Nat} {ending : α → Ending} {act : Act κ (σ × Log) α}
    {w w' : World κ (σ × Log)} {why : Interrupt} (ran : noting n ending act w = .error why w') :
    ∃ w₁, act w = .error why w₁ ∧ w' = w₁.note n .interrupted := by
  unfold noting at ran
  cases first : act w with
  | ok b w₁ => rw [first] at ran; cases ran
  | error why w₁ => rw [first] at ran; cases ran; exact ⟨w₁, rfl, rfl⟩

/-- A noted call on an idle node is its search, closed and noted. -/
theorem noting_answering {r : Relation κ} {search : Act κ (σ × Log) Bool}
    {w : World κ (σ × Log)} (idle : (w.node r.node).busy = false) :
    noting r.node .answered (answering r search) w = match search (w.setBusy r.node true) with
      | .ok answer w' => .ok answer ((w'.concluded r answer).note r.node (.answered answer))
      | .error why w' => .error why ((w'.setBusy r.node false).note r.node .interrupted) := by
  unfold noting
  rw [answering_of_idle idle]
  cases search (w.setBusy r.node true) <;> rfl

namespace Relation

/-- `reset` with its endings noted. -/
def resetNoting : Relation κ → Act κ (σ × Log) Unit
  | .and n l r => noting n (fun _ => .rewound) <| rewinding (.and n l r) do
    r.resetNoting
    l.resetNoting
  | .or n l r => noting n (fun _ => .rewound) <| rewinding (.or n l r) do
    l.resetNoting
    r.resetNoting
  | leaf => noting leaf.node (fun _ => .rewound) (Act.logged leaf.reset)

/-- `solve` with its endings noted. -/
def solveNoting (call : Caller κ σ) (fuel : Nat) : Relation κ → Act κ (σ × Log) Bool
  | .and n l r => noting n .answered <| answering (.and n l r) <|
    advanceAnd fuel n (l.solveNoting call fuel) (r.solveNoting call fuel) r.resetNoting
  | .or n l r => noting n .answered <| answering (.or n l r) <|
    advanceOr n (l.solveNoting call fuel) (r.solveNoting call fuel) l.resetNoting
  | leaf => noting leaf.node .answered (Act.logged (leaf.solve call fuel))

end Relation

namespace Relation

variable {r : Relation κ} {w w' : World κ (σ × Log)}

theorem solveNoting_ok {answer : Bool} (ran : r.solveNoting call fuel w = .ok answer w') :
    w'.latest r.node = some (.answered answer) := by
  cases r with
  | and | or | domain | convert | compare | predicate | always | never =>
    obtain ⟨w₁, -, rfl⟩ := noting_ok ran
    exact World.latest_note ..

theorem solveNoting_error {why : Interrupt} (ran : r.solveNoting call fuel w = .error why w') :
    w'.latest r.node = some .interrupted := by
  cases r with
  | and | or | domain | convert | compare | predicate | always | never =>
    obtain ⟨w₁, -, rfl⟩ := noting_error ran
    exact World.latest_note ..

end Relation

/-! ## The log changes nothing -/

/-- What came of a computation, without the log. -/
def plainResult : EStateM.Result Interrupt (World κ (σ × Log)) α →
    EStateM.Result Interrupt (World κ σ) α
  | .ok a w => .ok a w.plain
  | .error why w => .error why w.plain

/-- Without the log, the one computation is the other. -/
def Erases (act : Act κ (σ × Log) α) (act' : Act κ σ α) : Prop :=
  ∀ w, plainResult (act w) = act' w.plain

namespace Erases

variable {act : Act κ (σ × Log) α} {act' : Act κ σ α} {n : Nat} {r : Relation κ}
variable {left right : Act κ (σ × Log) Bool} {left' right' : Act κ σ Bool}
variable {rewind : Act κ (σ × Log) Unit} {rewind' : Act κ σ Unit}

theorem pure (a : α) : Erases (Pure.pure a : Act κ (σ × Log) α) (Pure.pure a : Act κ σ α) :=
  fun _ => rfl

theorem throw (why : Interrupt) :
    Erases (MonadExcept.throw why : Act κ (σ × Log) α) (MonadExcept.throw why : Act κ σ α) :=
  fun _ => rfl

theorem bind (h : Erases act act') {next : α → Act κ (σ × Log) β} {next' : α → Act κ σ β}
    (hn : ∀ a, Erases (next a) (next' a)) : Erases (act >>= next) (act' >>= next') := by
  intro w
  have first := h w
  rw [bind_apply, bind_apply, ← first]
  cases act w with
  | ok a w' => exact hn a w'
  | error why w' => rfl

theorem progress (n : Nat) :
    Erases (Act.progress n : Act κ (σ × Log) _) (Act.progress n : Act κ σ _) :=
  fun _ => rfl

theorem setProgress (n : Nat) (p : Progress) :
    Erases (Act.setProgress n p : Act κ (σ × Log) Unit) (Act.setProgress n p : Act κ σ Unit) :=
  fun _ => rfl

theorem logged (act : Act κ σ α) : Erases (Act.logged act) act := by
  intro w
  unfold Act.logged
  cases act w.plain <;> rfl

theorem noting (h : Erases act act') (n : Nat) (ending : α → Ending) :
    Erases (noting n ending act) act' := by
  intro w
  rw [← h w]
  unfold RelationSearch.noting
  cases act w <;> rfl

theorem ite {test : Act κ (σ × Log) Bool} {test' : Act κ σ Bool} (h : Erases test test')
    {yes no : Act κ (σ × Log) α} {yes' no' : Act κ σ α} (hy : Erases yes yes')
    (hn : Erases no no') : Erases (do if ← test then yes else no) (do if ← test' then yes' else no') :=
  h.bind fun b => by cases b <;> assumption

theorem answering (h : Erases left left') : Erases (answering r left) (answering r left') := by
  intro w
  cases idle : (w.node r.node).busy with
  | true => rw [answering_of_busy idle, answering_of_busy (w := w.plain) idle]; rfl
  | false =>
    have inner : _ = left' (w.plain.setBusy r.node true) := h (w.setBusy r.node true)
    rw [answering_of_idle idle, answering_of_idle (w := w.plain) idle, ← inner]
    cases left (w.setBusy r.node true) with
    | ok answer w' => exact congrArg _ (w'.plain_concluded r answer)
    | error why w' => rfl

theorem rewinding (h : Erases rewind rewind') :
    Erases (rewinding r rewind) (rewinding r rewind') := by
  intro w
  cases idle : (w.node r.node).busy with
  | true => rw [rewinding_of_busy idle, rewinding_of_busy (w := w.plain) idle]; rfl
  | false =>
    have inner : _ = rewind' (w.plain.setBusy r.node true) := h (w.setBusy r.node true)
    rw [rewinding_of_idle idle, rewinding_of_idle (w := w.plain) idle, ← inner]
    cases rewind (w.setBusy r.node true) with
    | ok answer w' => exact congrArg _ (w'.plain_rewound r)
    | error why w' => rfl

theorem conjoin (hl : Erases left left') (hr : Erases right right') (hw : Erases rewind rewind')
    (fuel : Nat) : Erases (conjoin n left right rewind fuel) (conjoin n left' right' rewind' fuel) := by
  induction fuel with
  | zero => exact .throw _
  | succ fuel ih =>
    refine .ite hl ?_ ((setProgress _ _).bind fun _ => .pure _)
    exact (setProgress _ _).bind fun _ => .ite hr (.pure _) (hw.bind fun _ => ih)

theorem advanceAnd (hl : Erases left left') (hr : Erases right right')
    (hw : Erases rewind rewind') :
    Erases (advanceAnd fuel n left right rewind) (advanceAnd fuel n left' right' rewind') := by
  have loop := conjoin (n := n) hl hr hw fuel
  refine (progress n).bind fun p => ?_
  cases p with
  | exhausted => exact .pure _
  | retrying => exact .ite hr (.pure _) (hw.bind fun _ => loop)
  | _ => exact loop

theorem advanceOr (hl : Erases left left') (hr : Erases right right')
    (hw : Erases rewind rewind') :
    Erases (advanceOr n left right rewind) (advanceOr n left' right' rewind') := by
  have later : Erases (disjoinRight n right) (disjoinRight n right') :=
    .ite hr (.pure _) ((setProgress _ _).bind fun _ => .pure _)
  refine (progress n).bind fun p => ?_
  cases p with
  | exhausted => exact .pure _
  | inRight => exact later
  | _ =>
    exact .ite hl ((setProgress _ _).bind fun _ => .pure _)
      (hw.bind fun _ => (setProgress _ _).bind fun _ => later)

end Erases

namespace Relation

theorem resetNoting_erases (r : Relation κ) :
    Erases (r.resetNoting : Act κ (σ × Log) Unit) r.reset := by
  induction r with
  | and n l r ihl ihr => exact (Erases.rewinding (ihr.bind fun _ => ihl)).noting _ _
  | or n l r ihl ihr => exact (Erases.rewinding (ihl.bind fun _ => ihr)).noting _ _
  | domain | convert | compare | predicate | always | never => exact (Erases.logged _).noting _ _

/-- **The log changes nothing.**  What a noted call brings is what the call brings without the log. -/
theorem solveNoting_erases (call : Caller κ σ) (fuel : Nat) (r : Relation κ) :
    Erases (r.solveNoting call fuel) (r.solve call fuel) := by
  induction r with
  | and n l r ihl ihr =>
    exact (Erases.answering (.advanceAnd ihl ihr r.resetNoting_erases)).noting _ _
  | or n l r ihl ihr =>
    exact (Erases.answering (.advanceOr ihl ihr l.resetNoting_erases)).noting _ _
  | domain | convert | compare | predicate | always | never => exact (Erases.logged _).noting _ _

end Relation
end RelationSearch
