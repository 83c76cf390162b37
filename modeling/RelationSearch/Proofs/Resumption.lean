import RelationSearch.Proofs.Dialogue
import RelationSearch.Proofs.Restoration

/-! # Searches that are resumed

A relation that was started in some world and has been solved a few times still has some of its dialogue
to hold.  `Relation.Converses` says which part: whenever the relation is called with its own nodes as it
left them and the variables showing what they showed, the call asks the callbacks what the dialogue
asks, up to its first answer (`Follows`), and then the relation has the rest of the dialogue to hold.
When the dialogue is over it restores the world in which it was started, settles, and goes on
answering `false` without asking anybody.

The world may have moved on between two calls, as it does below a conjunction, whose right side is
searched and rewound while its left side waits, and so may the state in which the callbacks keep
what they like.  What matters is only that the world looks the same to the relation (`Similar`).

`Converses` is the largest predicate that is closed under calls, presented by a candidate:
`Converses.call` unfolds one call, and `Converses.of_search` turns an invariant of a node's search into
the predicate.

Where the callbacks are functions, nothing depends on what they are asked, and the answers are all that is
left of the dialogue (`Relation.Resumes`).
-/
namespace RelationSearch

open Act RelationSearch.Relation

variable {κ σ : Type} {fuel : Nat}

/-! ## Callbacks and their replies -/

namespace World

/-- The world with another state of the client. -/
def withClient (w : World κ σ) (client : σ) : World κ σ := { w with client }

theorem Shows.withClient {w : World κ σ} {env : Env κ} (h : w.Shows env) (client : σ) :
    (w.withClient client).Shows env := h.of_restored (.of_cells fun _ => rfl)

end World

theorem Restored.withClient (w : World κ σ) (client : σ) : Restored w (w.withClient client) :=
  .of_cells fun _ => rfl

/-- How callbacks reply, and what they keep in mind.  They know what they kept in mind before. -/
abbrev Replies (κ σ : Type) := κ → List Value → σ → Except String Value × σ

/-- Runs callbacks that leave the variables and the nodes alone. -/
def Replies.call (reply : Replies κ σ) : Caller κ σ := fun k args w =>
  match reply k args w.client with
  | (.ok v, client) => .ok v (w.withClient client)
  | (.error message, client) => .error (.failed message) (w.withClient client)

theorem Replies.sparesNodes (reply : Replies κ σ) : reply.call.SparesNodes := by
  intro k args w
  unfold Act.final Replies.call
  rcases reply k args w.client with ⟨message | v, client⟩ <;> rfl

/-- Functions reply as they do and keep nothing in mind. -/
def Function.replies : Replies Function σ := fun f args client => (f args, client)

theorem Function.call_replies : (Function.replies : Replies Function σ).call = Function.call := by
  funext f args w
  unfold Replies.call Function.replies
  rw [Function.call_eq]
  cases f args <;> rfl

/-! ## One call -/

/-- A call that was started in `start` asked and answered as a dialogue says, up to its first answer, and
left the callbacks as they are after that.  `Next` is required of what is left after an answer, `Done`
of the world after the last one. -/
inductive Follows (reply : Replies κ σ) (start : World κ σ)
    (Next : Dialogue κ → World κ σ → Prop) (Done : World κ σ → Prop) :
    Dialogue κ → σ → EStateM.Result Interrupt (World κ σ) Bool → Prop
  | asked {k : κ} {args : List Value} {next : Except String Value → Dialogue κ} {client : σ}
      {result : EStateM.Result Interrupt (World κ σ) Bool}
      (after : Follows reply start Next Done (next (reply k args client).1) (reply k args client).2
        result) : Follows reply start Next Done (.ask k args next) client result
  | found {env : Env κ} {rest : Dialogue κ} {client : σ} {w : World κ σ} (kept : w.client = client)
      (shows : w.Shows env) (next : Next rest w) :
    Follows reply start Next Done (.answer env rest) client (.ok true w)
  | interrupted {why : Interrupt} {client : σ} {w : World κ σ} (kept : w.client = client) :
    Follows reply start Next Done (.interrupted why) client (.error why w)
  | ended {client : σ} {w : World κ σ} (kept : w.client = client) (restored : Restored start w)
      (done : Done w) : Follows reply start Next Done .ended client (.ok false w)

/-- What is done to a dialogue leaves its questions and its interrupt where they are. -/
structure Dialogue.Carries (f : Dialogue κ → Dialogue κ) : Prop where
  ask : ∀ k args next, f (.ask k args next) = .ask k args fun reply => f (next reply)
  interrupted : ∀ why, f (.interrupted why) = .interrupted why

namespace Dialogue.Carries

theorem id : Carries fun d : Dialogue κ => d := ⟨fun _ _ _ => rfl, fun _ => rfl⟩

theorem bind (next : Env κ → Dialogue κ) : Carries fun d => d.bind next :=
  ⟨fun _ _ _ => rfl, fun _ => rfl⟩

theorem append (other : Dialogue κ) : Carries fun d => d.append other :=
  ⟨fun _ _ _ => rfl, fun _ => rfl⟩

end Dialogue.Carries

namespace Follows

variable {reply : Replies κ σ} {start start' w : World κ σ} {r : Relation κ}
variable {Next Next' : Dialogue κ → World κ σ → Prop} {Done Done' : World κ σ → Prop}
variable {d yes no : Dialogue κ} {client : σ} {result : EStateM.Result Interrupt (World κ σ) Bool}

theorem mono (h : Follows reply start Next Done d client result)
    (next : ∀ d w, Next d w → Next' d w) (done : ∀ w, Done w → Done' w) :
    Follows reply start Next' Done' d client result := by
  induction h with
  | asked _ ih => exact .asked ih
  | found kept shows hn => exact .found kept shows (next _ _ hn)
  | interrupted kept => exact .interrupted kept
  | ended kept restored hd => exact .ended kept restored (done _ hd)

/-- A condition that is all that is left. -/
theorem given {env : Env κ} (holds : Bool) (shows : w.Shows env) (restored : Restored start w)
    (next : Next .ended w) (done : Done w) :
    Follows reply start Next Done (.given holds env) w.client (.ok holds w) := by
  cases holds with
  | true => exact .found rfl shows next
  | false => exact .ended rfl restored done

/-- A test is asked, and what is left depends on the reply. -/
theorem test {k : κ} {args : List Value} {next : Bool → Act κ σ Bool}
    (whenTrue : ∀ client, Follows reply start Next Done yes client (next true (w.withClient client)))
    (whenFalse : ∀ client,
      Follows reply start Next Done no client (next false (w.withClient client))) :
    Follows reply start Next Done (.test k args yes no) w.client
      ((reply.call.holds k args >>= next) w) := by
  refine .asked ?_
  rw [bind_apply, Caller.holds, bind_apply, Replies.call]
  rcases reply k args w.client with ⟨message | v, client⟩
  · exact .interrupted rfl
  · dsimp only [pure_apply]
    cases v.isTrue with
    | true => exact whenTrue client
    | false => exact whenFalse client

/-- Values are compared, and what is left depends on the outcome. -/
theorem compare {u v : Value} {c : Comparison κ} {next : Bool → Act κ σ Bool}
    (whenTrue : ∀ client, Follows reply start Next Done yes client (next true (w.withClient client)))
    (whenFalse : ∀ client,
      Follows reply start Next Done no client (next false (w.withClient client))) :
    Follows reply start Next Done (.compare u v yes no c) w.client
      ((c.holds reply.call u v >>= next) w) := by
  cases c with
  | equality =>
    rw [Dialogue.compare, Comparison.holds, bind_apply, pure_apply]
    cases u == v with
    | true => exact whenTrue w.client
    | false => exact whenFalse w.client
  | custom k => exact test whenTrue whenFalse

/-- A call continued by what is left to do after it. -/
theorem bind {act : Act κ σ Bool} {next : Bool → Act κ σ Bool} {f : Dialogue κ → Dialogue κ}
    (carries : Dialogue.Carries f) (h : Follows reply start Next Done d client (act w))
    (found : ∀ env rest w', act w = .ok true w' → w'.Shows env → Next rest w' →
      (∀ m, d.AtMost m → (Dialogue.answer env rest).AtMost m) →
      Follows reply start' Next' Done' (f (.answer env rest)) w'.client (next true w'))
    (ended : ∀ w', act w = .ok false w' → Restored start w' → Done w' →
      Follows reply start' Next' Done' (f .ended) w'.client (next false w')) :
    Follows reply start' Next' Done' (f d) client ((act >>= next) w) := by
  rw [bind_apply]
  generalize act w = result at h found ended
  induction h with
  | @asked k args rest client result _ ih =>
    rw [carries.ask]
    refine .asked (ih (fun env rest w' same shows next few => ?_) ended)
    refine found env rest w' same shows next fun m h => few m ?_
    cases h with
    | ask every => exact every _
  | found kept shows hn => exact kept ▸ found _ _ _ rfl shows hn fun _ h => h
  | interrupted kept => rw [carries.interrupted]; exact .interrupted kept
  | ended kept restored hd => exact kept ▸ ended _ rfl restored hd

/-- A search that follows a dialogue is a call that does. -/
theorem answering {search : Act κ σ Bool} (idle : (w.node r.node).busy = false)
    (h : Follows reply start Next Done d client (search (w.setBusy r.node true)))
    (next : ∀ d w, Next d w → Next' d (w.concluded r true))
    (done : ∀ w, Done w → Done' (w.concluded r false)) :
    Follows reply start Next' Done' d client (answering r search w) := by
  rw [answering_of_idle idle]
  have same (b : Bool) (w : World κ σ) : Restored w (w.concluded r b) :=
    .of_cells fun x => by simp
  have kept (b : Bool) (w : World κ σ) : (w.concluded r b).client = w.client := by
    rw [World.concluded, World.client_record]
    rfl
  generalize search (w.setBusy r.node true) = result at h
  induction h with
  | asked _ ih => exact .asked ih
  | found here shows hn =>
    exact .found ((kept true _).trans here) (shows.of_restored (same true _)) (next _ _ hn)
  | interrupted here => exact .interrupted here
  | ended here restored hd =>
    exact .ended ((kept false _).trans here) (restored.trans (same false _)) (done _ hd)

end Follows

/-! ## All later calls -/

namespace Relation

/-- Every leaf is at rest, and nobody is driving a node below this one. -/
def Calm (r : Relation κ) (w : World κ σ) : Prop :=
  ∀ s ∈ r.subs, s.AtRest w ∧ (s.node ≠ r.node → (w.node s.node).busy = false)

/-- The relation, started in `start` and paused in `w`, still has this dialogue to hold. -/
def Converses (reply : Replies κ σ) (fuel : Nat) (r : Relation κ) (start : World κ σ)
    (d : Dialogue κ) (w : World κ σ) : Prop :=
  ∃ P : Dialogue κ → World κ σ → Prop, P d w ∧
    ∀ d w, P d w → (w.node r.node).busy = false ∧ ∀ w', Similar r w w' →
      Follows reply start P (fun w => r.Settled w ∧ P .ended w) d w'.client
        (r.solve reply.call fuel w')

section Converses

variable {reply : Replies κ σ} {r : Relation κ} {start w w' : World κ σ} {d : Dialogue κ}

theorem Calm.settled (h : r.Calm w) (answer : Bool) : r.Settled (w.concluded r answer) := by
  intro s hs
  refine ⟨(h s hs).1.congr (by simp) (by simp), ?_⟩
  by_cases hn : r.node = s.node
  · rw [← hn]; exact World.busy_concluded ..
  · rw [World.node_concluded_of_ne _ _ _ hn]
    exact (h s hs).2 (Ne.symm hn)

/-- What the next call does. -/
theorem Converses.call (h : r.Converses reply fuel start d w) (same : Similar r w w') :
    Follows reply start (r.Converses reply fuel start)
      (fun w => r.Settled w ∧ r.Converses reply fuel start .ended w) d w'.client
      (r.solve reply.call fuel w') := by
  obtain ⟨P, hp, closed⟩ := h
  refine ((closed _ _ hp).2 w' same).mono (fun d w hd => ⟨P, hd, closed⟩) ?_
  rintro w ⟨settled, hd⟩
  exact ⟨settled, P, hd, closed⟩

/-- A search is resumed from whatever looks the same. -/
theorem Converses.congr (h : r.Converses reply fuel start d w) (same : Similar r w w') :
    r.Converses reply fuel start d w' := by
  obtain ⟨P, hp, closed⟩ := h
  -- The invariant of what looks the same: some world like it satisfies the old one.
  refine ⟨fun d w' => ∃ w, P d w ∧ Similar r w w', ⟨w, hp, same⟩, ?_⟩
  rintro d w' ⟨w, hd, same⟩
  refine ⟨?_, fun v hv => ?_⟩
  · rw [same.node _ (node_mem_ids r)]
    exact (closed _ _ hd).1
  · refine ((closed _ _ hd).2 v (same.trans hv)).mono (fun d w hd => ⟨w, hd, .refl r w⟩) ?_
    rintro w ⟨settled, hd⟩
    exact ⟨settled, w, hd, .refl r w⟩

/-- **An invariant of the search is enough.**  Where the search keeps following dialogues, so do the
calls. -/
theorem Converses.of_search {search : Act κ σ Bool} {Q : Dialogue κ → World κ σ → Prop}
    (isCall : r.solve reply.call fuel = answering r search)
    (congr : ∀ d w w', Q d w → r.Resembles w w' → Q d w')
    (step : ∀ d w, Q d w →
      Follows reply start Q (fun w => r.Calm w ∧ Q .ended w) d w.client (search w))
    (idle : (w.node r.node).busy = false) (h : Q d w) : r.Converses reply fuel start d w := by
  refine ⟨fun d w => (w.node r.node).busy = false ∧ Q d w, ⟨idle, h⟩, ?_⟩
  rintro d w ⟨idle, hd⟩
  refine ⟨idle, fun w' same => ?_⟩
  have idle' : (w'.node r.node).busy = false := same.node _ (node_mem_ids r) ▸ idle
  have hd' := congr _ _ _ hd ((Resembles.of_similar same).trans (.setBusy r w' true))
  rw [isCall]
  refine Follows.answering idle' (step _ _ hd') (fun d w hw => ?_) fun w hw => ?_
  · exact ⟨World.busy_concluded .., congr _ _ _ hw (.concluded r w true)⟩
  · exact ⟨hw.1.settled false, World.busy_concluded .., congr _ _ _ hw.2 (.concluded r w false)⟩

/-- A leaf has nothing below it, so that its own rest is all the calm it needs. -/
theorem Converses.of_leaf (leaf : r.IsLeaf) {search : Act κ σ Bool}
    {Q : Dialogue κ → World κ σ → Prop}
    (isCall : r.solve reply.call fuel = RelationSearch.answering r search)
    (congr : ∀ d w w', Q d w → r.Resembles w w' → Q d w')
    (step : ∀ d w, Q d w →
      Follows reply start Q (fun w => r.AtRest w ∧ Q .ended w) d w.client (search w))
    (idle : (w.node r.node).busy = false) (h : Q d w) : r.Converses reply fuel start d w := by
  refine .of_search isCall congr (fun d w hd => ?_) idle h
  refine (step d w hd).mono (fun _ _ => id) ?_
  rintro w ⟨rest, hq⟩
  refine ⟨fun s hs => ?_, hq⟩
  rw [subs_of_isLeaf leaf] at hs
  obtain rfl := List.mem_singleton.mp hs
  exact ⟨rest, fun h => absurd rfl h⟩

end Converses
end Relation

/-! ## Functions as callbacks -/

/-- A call that was started in `start` came back as it should, with `answers` left to give: with the
first of them, or with the interrupt after the last one, or with `false` and everything restored.
`Next` is required of what is left after an answer, `Done` of the world after the last one. -/
inductive Delivers (start : World Function σ)
    (Next : Answers (Env Function) → World Function σ → Prop) (Done : World Function σ → Prop) :
    Answers (Env Function) → EStateM.Result Interrupt (World Function σ) Bool → Prop
  | found {env : Env Function} {found : List (Env Function)} {interrupt : Option Interrupt}
      {w : World Function σ} (shows : w.Shows env) (next : Next ⟨found, interrupt⟩ w) :
    Delivers start Next Done ⟨env :: found, interrupt⟩ (.ok true w)
  | interrupted {why : Interrupt} {w : World Function σ} :
    Delivers start Next Done ⟨[], some why⟩ (.error why w)
  | ended {w : World Function σ} (restored : Restored start w) (done : Done w) :
    Delivers start Next Done ⟨[], none⟩ (.ok false w)

variable {r : Relation Function} {start w w' : World Function σ} {answers : Answers (Env Function)}
variable {Next Next' : Answers (Env Function) → World Function σ → Prop}
variable {Done Done' : World Function σ → Prop}
variable {result : EStateM.Result Interrupt (World Function σ) Bool}

theorem Delivers.mono (h : Delivers start Next Done answers result)
    (next : ∀ a w, Next a w → Next' a w) (done : ∀ w, Done w → Done' w) :
    Delivers start Next' Done' answers result := by
  cases h with
  | found shows hn => exact .found shows (next _ _ hn)
  | interrupted => exact .interrupted
  | ended restored hd => exact .ended restored (done _ hd)

/-- A call that follows a dialogue delivers its answers. -/
theorem Delivers.of_follows {N : Dialogue Function → World Function σ → Prop} {d : Dialogue Function}
    {client : σ} (h : Follows Function.replies start N Done d client result)
    (next : ∀ d w, N d w → Next d.answers w) : Delivers start Next Done d.answers result := by
  induction h with
  | asked _ ih => exact ih
  | found _ shows hn => exact .found shows (next _ _ hn)
  | interrupted => exact .interrupted
  | ended _ restored done => exact .ended restored done

namespace Relation

/-- The relation, started in `start` and paused in `w`, still has `answers` to give. -/
def Resumes (fuel : Nat) (r : Relation Function) (start : World Function σ)
    (answers : Answers (Env Function)) (w : World Function σ) : Prop :=
  ∃ P : Answers (Env Function) → World Function σ → Prop, P answers w ∧
    ∀ a w, P a w → (w.node r.node).busy = false ∧ ∀ w', Similar r w w' →
      Delivers start P (fun w => r.Settled w ∧ P .none w) a (r.solve Function.call fuel w')

/-- What the next call does. -/
theorem Resumes.call (h : r.Resumes fuel start answers w) (same : Similar r w w') :
    Delivers start (r.Resumes fuel start) (fun w => r.Settled w ∧ r.Resumes fuel start .none w)
      answers (r.solve Function.call fuel w') := by
  obtain ⟨P, hp, closed⟩ := h
  refine ((closed _ _ hp).2 w' same).mono (fun a w ha => ⟨P, ha, closed⟩) ?_
  rintro w ⟨settled, ha⟩
  exact ⟨settled, P, ha, closed⟩

/-- The next call brings the first of the answers that are left. -/
theorem Resumes.next {env : Env Function} {found : List (Env Function)} {interrupt : Option Interrupt}
    (h : r.Resumes fuel start ⟨env :: found, interrupt⟩ w) :
    ∃ w', r.solve Function.call fuel w = .ok true w' ∧ w'.Shows env ∧
      r.Resumes fuel start ⟨found, interrupt⟩ w' := by
  have called := h.call (.refl r w)
  generalize r.solve Function.call fuel w = result at called
  cases called with
  | found shows next => exact ⟨_, rfl, shows, next⟩

/-- After the last answer it brings the interrupt, if there is one. -/
theorem Resumes.breaks {why : Interrupt} (h : r.Resumes fuel start ⟨[], some why⟩ w) :
    ∃ w', r.solve Function.call fuel w = .error why w' := by
  have called := h.call (.refl r w)
  generalize r.solve Function.call fuel w = result at called
  cases called with
  | interrupted => exact ⟨_, rfl⟩

/-- Otherwise it answers `false`, with everything restored, and so will the call after it. -/
theorem Resumes.ends (h : r.Resumes fuel start .none w) :
    ∃ w', r.solve Function.call fuel w = .ok false w' ∧ Restored start w' ∧ r.Settled w' ∧
      r.Resumes fuel start .none w' := by
  have called := h.call (.refl r w)
  generalize r.solve Function.call fuel w = result at called
  cases called with
  | ended restored done => exact ⟨_, rfl, restored, done⟩

/-- A search is resumed from whatever looks the same. -/
theorem Resumes.congr (h : r.Resumes fuel start answers w) (same : Similar r w w') :
    r.Resumes fuel start answers w' := by
  obtain ⟨P, hp, closed⟩ := h
  refine ⟨fun a w' => ∃ w, P a w ∧ Similar r w w', ⟨w, hp, same⟩, ?_⟩
  rintro a w' ⟨w, ha, same⟩
  refine ⟨?_, fun v hv => ?_⟩
  · rw [same.node _ (node_mem_ids r)]
    exact (closed _ _ ha).1
  · refine ((closed _ _ ha).2 v (same.trans hv)).mono (fun a w ha => ⟨w, ha, .refl r w⟩) ?_
    rintro w ⟨settled, ha⟩
    exact ⟨settled, w, ha, .refl r w⟩

/-- What a relation has left of its dialogue, it has left of its answers. -/
theorem Resumes.of_converses {d : Dialogue Function}
    (h : r.Converses Function.replies fuel start d w) : r.Resumes fuel start d.answers w := by
  obtain ⟨P, hp, closed⟩ := h
  refine ⟨fun a w => ∃ d : Dialogue Function, d.answers = a ∧ P d w, ⟨d, rfl, hp⟩, ?_⟩
  rintro _ w ⟨d, rfl, hd⟩
  refine ⟨(closed d w hd).1, fun w' same => ?_⟩
  have called := (closed d w hd).2 w' same
  rw [Function.call_replies] at called
  refine (Delivers.of_follows called fun d w hd => ⟨d, rfl, hd⟩).mono (fun _ _ => id) ?_
  rintro w ⟨settled, hd⟩
  exact ⟨settled, .ended, rfl, hd⟩

end Relation
end RelationSearch
