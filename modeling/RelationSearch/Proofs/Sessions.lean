import RelationSearch.Proofs.Enumerations

/-! # The account of an enumeration

An enumeration shows its client one solution after the other; the client refuses it, or takes it and says
whether to go on.  The *transcript* lists what was shown and what the client made of it.  A *session*
(`Session`) is an enumeration under way, known by its transcript and nothing else: what the enumeration
counts is counted there (`Transcript.tally`).

Sessions end in one of three ways (`Closes`): the settings ask for no more, the relation has no more, or
the client wants no more.  From this the account of an enumeration that was not interrupted follows
(`Relation.enumerate_account`): what it counts, whether it stopped early, and that nothing was shown
after the reason to stop.
-/
namespace RelationSearch

open Act RelationSearch.Relation

variable {κ σ α : Type} {call : Caller κ σ} {limit fuel : Nat} {root : Relation κ}
variable {settings : Settings} {client : Client κ σ α} {start a : α} {w w' v : World κ σ}

/-! ## The variables that solutions show -/

namespace Relation

variable {r : Relation κ}

/-- Adds the variables of a relation to those met so far. -/
def gather (seen : List Var) : Relation κ → List Var
  | .and _ l r | .or _ l r => r.gather (l.gather seen)
  | leaf => addNew seen leaf.operands

/-- The variables of a relation by number. -/
def scope (r : Relation κ) : List Var := (r.gather []).mergeSort fun x y => x.id ≤ y.id

theorem addVariables_eq {seen found : List Var} (h : w.addVariables seen r = some found) :
    found = r.gather seen := by
  induction r generalizing seen found with
  | and n l r ihl ihr | or n l r ihl ihr =>
    rw [World.addVariables] at h
    obtain ⟨-, -, h⟩ := Option.bind_eq_some_iff.mp h
    obtain ⟨met, left, right⟩ := Option.bind_eq_some_iff.mp h
    rw [gather, ← ihl left, ← ihr right]
  | domain | convert | compare | predicate | always | never =>
    obtain ⟨-, -, found⟩ := Option.bind_eq_some_iff.mp h
    exact (Option.some.inj found).symm

theorem idle_eq_some {n : Nat} (idle : (w.node n).busy = false) : w.idle n = some () := by
  rw [World.idle, idle]
  rfl

theorem addVariables_of_idle (idle : ∀ m ∈ r.ids, (w.node m).busy = false) (seen : List Var) :
    w.addVariables seen r = some (r.gather seen) := by
  induction r generalizing seen with
  | and n l r ihl ihr =>
    rw [World.addVariables, idle_eq_some (idle n (node_mem_ids _)), Option.bind_eq_bind,
      Option.bind_some, ihl fun m hm => idle m (mem_ids_and.mpr (.inr (.inl hm)))]
    exact ihr (fun m hm => idle m (mem_ids_and.mpr (.inr (.inr hm)))) _
  | or n l r ihl ihr =>
    rw [World.addVariables, idle_eq_some (idle n (node_mem_ids _)), Option.bind_eq_bind,
      Option.bind_some, ihl fun m hm => idle m (mem_ids_or.mpr (.inr (.inl hm)))]
    exact ihr (fun m hm => idle m (mem_ids_or.mpr (.inr (.inr hm)))) _
  | domain n | convert n | compare n | predicate n | always n | never n =>
    unfold World.addVariables
    rw [node, idle_eq_some (idle n (node_mem_ids _))]
    rfl

/-- The variables of a relation that nobody is solving can be listed. -/
theorem vars_of_idle (idle : ∀ m ∈ r.ids, (w.node m).busy = false) :
    (r.vars : Act κ σ _) w = .ok (r.gather []) w := by
  rw [vars, Act.ofWalk, bind_apply, get_apply]
  dsimp only
  rw [addVariables_of_idle idle]
  rfl

theorem prepare_of_idle (keeps : settings.resetBeforeSolve = false)
    (idle : ∀ m ∈ r.ids, (w.node m).busy = false) : r.prepare settings w = .ok r.scope w := by
  rw [prepare, keeps]
  exact (bind_apply ..).trans (by rw [vars_of_idle idle]; rfl)

/-- An enumeration is what it comes to when it drives the relation, and a note that it is over. -/
theorem enumerate_of_drive {result : Enumeration α} (keeps : settings.resetBeforeSolve = false)
    (idle : ∀ m ∈ root.ids, (w.node m).busy = false)
    (driven : drive call fuel settings client root root.scope fuel start {} w = .ok result v)
    (normal : result.interrupt = none) :
    root.enumerate call fuel settings client start w = .ok result (v.record fun _ =>
      .finished result.tally.solutions result.tally.rejected result.tally.stoppedEarly) := by
  rw [enumerate, bind_apply, prepare_of_idle keeps idle]
  dsimp only
  rw [bind_apply, driven]
  dsimp only
  rw [normal, Option.isNone_none, if_pos rfl]
  rfl

/-- Without a reset, preparing a relation lists its variables and does nothing. -/
theorem prepare_ok {xs : List Var} (keeps : settings.resetBeforeSolve = false)
    (ran : root.prepare settings w = .ok xs w') : xs = root.scope ∧ w' = w := by
  rw [prepare, keeps] at ran
  obtain ⟨found, w₁, walked, sorted⟩ := bind_ok ran
  have same : w.addVariables [] root = some found ∧ w₁ = w := by
    rw [vars, Act.ofWalk, bind_apply, get_apply] at walked
    cases listed : w.addVariables [] root with
    | none => simp only [listed] at walked; cases walked
    | some met => simp only [listed] at walked; cases walked; exact ⟨rfl, rfl⟩
  cases sorted
  exact ⟨by rw [scope, ← addVariables_eq same.1], same.2⟩

end Relation

/-! ## Transcripts -/

/-- What the client of an enumeration made of a solution. -/
inductive Verdict
  | refused
  /-- The client took it, and said whether to go on. -/
  | taken (goOn : Bool)

/-- The solutions that were shown to the client, in order. -/
abbrev Transcript := List (Solution × Verdict)

namespace Transcript

def shown (t : Transcript) : List Solution := t.map Prod.fst

def taken (t : Transcript) : List Solution :=
  t.filterMap fun
    | (solution, .taken _) => some solution
    | (_, .refused) => none

def refused (t : Transcript) : List Solution :=
  t.filterMap fun
    | (solution, .refused) => some solution
    | (_, .taken _) => none

/-- There is no reason yet to stop: the client wanted to go on each time, and the settings ask for
more. -/
def Open (settings : Settings) (t : Transcript) : Prop :=
  (∀ solution, (solution, .taken false) ∉ t) ∧
    ∀ m, settings.maxSolutions = some m → t.taken.length < m

/-- What an enumeration has counted. -/
def tally (t : Transcript) : Tally :=
  { solutions := t.taken.length, rejected := t.refused.length, solveCalls := t.length }

theorem tally_concat (t : Transcript) (solution : Solution) (goOn : Bool) :
    tally (t ++ [(solution, .taken goOn)]) =
      { t.tally with solutions := t.tally.solutions + 1, solveCalls := t.tally.solveCalls + 1 } := by
  simp [tally, taken, refused]

theorem tally_concat_refused (t : Transcript) (solution : Solution) :
    tally (t ++ [(solution, .refused)]) =
      { t.tally with rejected := t.tally.rejected + 1, solveCalls := t.tally.solveCalls + 1 } := by
  simp [tally, taken, refused]

/-- What an enumeration has counted when it is over. -/
def final (t : Transcript) (early : Bool) : Tally :=
  { t.tally with
    solveCalls := t.length + if early then 0 else 1
    stoppedEarly := early }

theorem final_concat (t : Transcript) (solution : Solution) (goOn : Bool) :
    final (t ++ [(solution, .taken goOn)]) true =
      { t.tally with
        solutions := t.tally.solutions + 1
        solveCalls := t.tally.solveCalls + 1
        stoppedEarly := true } := by
  simp [final, tally, taken, refused]

/-- Every solution that was shown was taken or refused. -/
theorem length_eq (t : Transcript) : t.length = t.taken.length + t.refused.length := by
  induction t with
  | nil => rfl
  | cons entry rest ih =>
    obtain ⟨solution, _ | goOn⟩ := entry
    · simp only [taken, refused, List.filterMap_cons, List.length_cons] at ih ⊢
      omega
    · simp only [taken, refused, List.filterMap_cons, List.length_cons] at ih ⊢
      omega

end Transcript

/-! ## Sessions -/

/-- The worlds differ at most in the events. -/
def World.Noted (w w' : World κ σ) : Prop := ∃ events, w' = { w with events }

theorem World.Noted.record (w : World κ σ) (event : World κ σ → Event) : w.Noted (w.record event) := by
  unfold World.record
  split
  · exact ⟨_, rfl⟩
  · exact ⟨w.events, rfl⟩

/-- Where events are not recorded, there is nothing to note. -/
theorem World.record_of_untraced {event : World κ σ → Event} (untraced : w.tracing = false) :
    w.record event = w := by
  rw [World.record, untraced]
  rfl

theorem World.Noted.untouched (h : w.Noted w') : Untouched w w' := by
  obtain ⟨events, rfl⟩ := h
  exact ⟨rfl, rfl⟩

section Sessions

variable (call limit root settings client)

/-- An enumeration that began in the world `w` is under way: the client has been shown the solutions of
the transcript, and gathered `a`. -/
inductive Session (start : α) (w : World κ σ) : Transcript → α → World κ σ → Prop
  | start : Session start w [] start w
  | refused {t : Transcript} {a : α} {v v₁ v₂ : World κ σ} (under : Session start w t a v)
      (room : settings.isReached t.tally = false) (ran : root.solve call limit v = .ok true v₁)
      (judged : client.accepts (Solution.capture v₁ root.scope) v₁ = .ok false v₂) :
    Session start w (t ++ [(Solution.capture v₁ root.scope, .refused)]) a v₂
  | taken {t : Transcript} {a b : α} {v v₁ v₂ v₃ v₄ : World κ σ} (under : Session start w t a v)
      (room : settings.isReached t.tally = false) (ran : root.solve call limit v = .ok true v₁)
      (judged : client.accepts (Solution.capture v₁ root.scope) v₁ = .ok true v₂)
      (noted : v₂.Noted v₃)
      (visited : client.visit a (Solution.capture v₁ root.scope) v₃ = .ok (b, true) v₄) :
    Session start w (t ++ [(Solution.capture v₁ root.scope, .taken true)]) b v₄

/-- An enumeration that began in the world `w` is over.  The flag tells whether it stopped early. -/
inductive Closes (start : α) (w : World κ σ) : Transcript → α → Bool → World κ σ → Prop
  | full {t : Transcript} {a : α} {v : World κ σ}
      (under : Session call limit root settings client start w t a v)
      (full : settings.isReached t.tally = true) : Closes start w t a true v
  | exhausted {t : Transcript} {a : α} {v v₁ : World κ σ}
      (under : Session call limit root settings client start w t a v)
      (room : settings.isReached t.tally = false) (ran : root.solve call limit v = .ok false v₁) :
    Closes start w t a false v₁
  | stopped {t : Transcript} {a b : α} {v v₁ v₂ v₃ v₄ : World κ σ}
      (under : Session call limit root settings client start w t a v)
      (room : settings.isReached t.tally = false) (ran : root.solve call limit v = .ok true v₁)
      (judged : client.accepts (Solution.capture v₁ root.scope) v₁ = .ok true v₂)
      (noted : v₂.Noted v₃)
      (visited : client.visit a (Solution.capture v₁ root.scope) v₃ = .ok (b, false) v₄) :
    Closes start w (t ++ [(Solution.capture v₁ root.scope, .taken false)]) b true v₄

end Sessions

/-- The room that the settings leave, in terms of what was taken. -/
theorem Settings.isReached_eq_true {t : Transcript} : settings.isReached t.tally = true ↔
    ∃ m, settings.maxSolutions = some m ∧ m ≤ t.taken.length := by
  rw [Settings.isReached, Option.any_eq_true]
  exact exists_congr fun m => and_congr_right fun _ => decide_eq_true_iff

theorem Transcript.Open.of_room {t : Transcript} (calm : ∀ solution, (solution, .taken false) ∉ t)
    (room : settings.isReached t.tally = false) : t.Open settings := by
  refine ⟨calm, fun m asked => ?_⟩
  rw [Bool.eq_false_iff, Ne, Settings.isReached_eq_true] at room
  exact Nat.lt_of_not_le fun full => room ⟨m, asked, full⟩

/-- What comes before the last entry is open if all of it is. -/
theorem Transcript.Open.of_prefix_concat {before t : Transcript} {entry : Solution × Verdict}
    (upTo : ∀ before : Transcript, before <+: t → before ≠ t → before.Open settings)
    (whole : t.Open settings) (initial : before <+: t ++ [entry]) (proper : before ≠ t ++ [entry]) :
    before.Open settings := by
  have initial := (List.prefix_concat_iff.mp initial).resolve_left proper
  rcases Classical.em (before = t) with rfl | shorter
  · exact whole
  · exact upTo before initial shorter

namespace Session

variable {t : Transcript}

/-- A session under way has not been stopped by the client, and everything in its transcript was shown
when there was no reason to stop. -/
theorem going (h : Session call limit root settings client start w t a v) :
    (∀ solution, (solution, .taken false) ∉ t) ∧
      ∀ before : Transcript, before <+: t → before ≠ t → before.Open settings := by
  induction h with
  | start =>
    refine ⟨fun _ => List.not_mem_nil, fun before initial proper => ?_⟩
    exact absurd (List.prefix_nil.mp initial) proper
  | refused _ room _ _ ih =>
    refine ⟨fun solution found => ?_, fun before => .of_prefix_concat ih.2 (.of_room ih.1 room)⟩
    rcases List.mem_append.mp found with found | found
    · exact ih.1 solution found
    · cases List.mem_singleton.mp found
  | taken _ room _ _ _ _ ih =>
    refine ⟨fun solution found => ?_, fun before => .of_prefix_concat ih.2 (.of_room ih.1 room)⟩
    rcases List.mem_append.mp found with found | found
    · exact ih.1 solution found
    · cases List.mem_singleton.mp found

theorem isOpen (h : Session call limit root settings client start w t a v)
    (room : settings.isReached t.tally = false) : t.Open settings := .of_room h.going.1 room

end Session

namespace Closes

variable {t : Transcript} {early : Bool}

/-- Everything was shown when there was no reason to stop. -/
theorem upTo (h : Closes call limit root settings client start w t a early v) (before : Transcript)
    (initial : before <+: t) (proper : before ≠ t) : before.Open settings := by
  cases h with
  | full under | exhausted under => exact under.going.2 before initial proper
  | stopped under room => exact .of_prefix_concat under.going.2 (under.isOpen room) initial proper

/-- The enumeration stopped early just if there was a reason to. -/
theorem early_iff (h : Closes call limit root settings client start w t a early v) :
    early = true ↔ ¬ Transcript.Open settings t := by
  cases h with
  | full under full =>
    obtain ⟨m, asked, enough⟩ := Settings.isReached_eq_true.mp full
    exact iff_of_true rfl fun isOpen => Nat.not_lt_of_le enough (isOpen.2 m asked)
  | exhausted under room =>
    exact iff_of_false Bool.false_ne_true (not_not_intro (under.isOpen room))
  | stopped =>
    exact iff_of_true rfl fun isOpen => isOpen.1 _ (List.mem_append_right _ (List.mem_singleton_self _))

end Closes

/-! ## Accounts -/

/-- Whether or not it is logged, a solution that was taken is visited, and the client says what next. -/
theorem visits {solution : Solution} {event : World κ σ → Event}
    {next : α × Bool → Act κ σ (Enumeration α)} {result : Enumeration α} {logs : Bool}
    (ran : (if logs then Act.record event >>= fun _ => client.visit a solution >>= next
      else client.visit a solution >>= next) v = .ok result w') :
    ∃ v₁ b goOn v₂, v.Noted v₁ ∧ client.visit a solution v₁ = .ok (b, goOn) v₂ ∧
      next (b, goOn) v₂ = .ok result w' := by
  have seen {v₁ : World κ σ} (noted : v.Noted v₁)
      (ran : (client.visit a solution >>= next) v₁ = .ok result w') :
      ∃ v₁ b goOn v₂, v.Noted v₁ ∧ client.visit a solution v₁ = .ok (b, goOn) v₂ ∧
        next (b, goOn) v₂ = .ok result w' := by
    obtain ⟨⟨b, goOn⟩, v₂, visited, ran⟩ := bind_ok ran
    exact ⟨v₁, b, goOn, v₂, noted, visited, ran⟩
  split at ran
  · exact seen (.record v _) ran
  · exact seen ⟨v.events, rfl⟩ ran

/-- The rest of an enumeration that is not interrupted closes its session. -/
theorem Session.closes {t : Transcript} {result : Enumeration α}
    (under : Session call limit root settings client start w t a v)
    (ran : drive call limit settings client root root.scope fuel a t.tally v = .ok result w')
    (normal : result.interrupt = none) :
    ∃ t', Closes call limit root settings client start w t' result.found result.tally.stoppedEarly w' ∧
      result.tally = t'.final result.tally.stoppedEarly := by
  induction fuel generalizing t a v with
  | zero =>
    cases ran
    cases normal
  | succ fuel ih =>
    rw [drive] at ran
    cases room : settings.isReached t.tally with
    | true =>
      rw [if_pos room] at ran
      cases ran
      exact ⟨t, .full under room, rfl⟩
    | false =>
      rw [if_neg (by rw [room]; exact Bool.false_ne_true)] at ran
      obtain ⟨answer, v₁, attempted, ran⟩ := bind_ok ran
      rw [Act.attempt] at attempted
      cases solved : root.solve call limit v with
      | error why v₂ =>
        rw [solved] at attempted
        cases attempted
        cases ran
        cases normal
      | ok holds v₂ =>
        rw [solved] at attempted
        cases attempted
        cases holds with
        | false =>
          cases ran
          exact ⟨t, .exhausted under room solved, rfl⟩
        | true =>
          dsimp only at ran
          rw [bind_apply, get_apply] at ran
          obtain ⟨accepted, v₃, judged, ran⟩ := bind_ok ran
          cases accepted with
          | false =>
            refine ih (.refused under room solved judged) ?_
            rw [Transcript.tally_concat_refused]
            exact ran
          | true =>
            rw [if_pos rfl] at ran
            obtain ⟨v₄, b, goOn, v₅, noted, visited, ran⟩ := visits ran
            cases goOn with
            | true =>
              refine ih (.taken under room solved judged noted visited) ?_
              rw [Transcript.tally_concat]
              exact ran
            | false =>
              cases ran
              exact ⟨_, .stopped under room solved judged noted visited,
                (Transcript.final_concat t _ false).symm⟩

/-! ## Enumerations -/

/-- The account of an enumeration that ran from one world to another: what it was shown to its client, and
that it counted just that. -/
structure Account (call : Caller κ σ) (limit : Nat) (root : Relation κ) (settings : Settings)
    (client : Client κ σ α) (start : α) (w : World κ σ) (result : Enumeration α) (w' : World κ σ)
    (t : Transcript) : Prop where
  closes : Closes call limit root settings client start w t result.found result.tally.stoppedEarly w'
  solutions : result.tally.solutions = t.taken.length
  rejected : result.tally.rejected = t.refused.length
  solveCalls : result.tally.solveCalls =
    result.tally.solutions + result.tally.rejected + if result.tally.stoppedEarly then 0 else 1
  /-- It stopped early just if the client or the settings gave a reason. -/
  stoppedEarly : result.tally.stoppedEarly = true ↔ ¬ t.Open settings
  /-- Nothing was shown once there was a reason to stop. -/
  upTo : ∀ before : Transcript, before <+: t → before ≠ t → before.Open settings

theorem Account.of_closes {t : Transcript} {result : Enumeration α}
    (closes : Closes call limit root settings client start w t result.found
      result.tally.stoppedEarly w') (counted : result.tally = t.final result.tally.stoppedEarly) :
    Account call limit root settings client start w result w' t where
  closes := closes
  solutions := by rw [counted]; rfl
  rejected := by rw [counted]; rfl
  solveCalls := by
    rw [counted]
    exact congrArg (· + _) t.length_eq
  stoppedEarly := closes.early_iff
  upTo := closes.upTo

/-- **Every enumeration that is not interrupted has an account.** -/
theorem Relation.enumerate_account {result : Enumeration α} (keeps : settings.resetBeforeSolve = false)
    (ran : root.enumerate call fuel settings client start w = .ok result w')
    (normal : result.interrupt = none) :
    ∃ t v, Account call fuel root settings client start w result v t ∧ v.Noted w' := by
  obtain ⟨xs, w₁, prepared, driving⟩ := bind_ok ran
  obtain ⟨rfl, rfl⟩ := prepare_ok keeps prepared
  obtain ⟨result', v, driven, finishing⟩ := bind_ok driving
  have finished : result' = result ∧ v.Noted w' := by
    split at finishing
    · cases finishing
      exact ⟨rfl, .record v _⟩
    · cases finishing
      exact ⟨rfl, _, rfl⟩
  obtain ⟨rfl, noted⟩ := finished
  obtain ⟨t, closes, counted⟩ := Session.closes (t := []) .start driven normal
  exact ⟨t, v, .of_closes closes counted, noted⟩

end RelationSearch
