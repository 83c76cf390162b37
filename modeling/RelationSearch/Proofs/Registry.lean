import RelationSearch.Proofs.Ownership

/-! # The registry of watches

The variables list the watches that were left at them, and the comparisons note the watches that they
left.  The two lists tell the same story (`WatchRegistry`): a watch is noted by one live comparison, and what
is noted is there, as the comparison left it.

A watch is known by its variable and its number.  Numbers are given out in order and not given out
twice, so that what a comparison takes away is its own, and nothing of another comparison
(`WatchRegistry.less`); a new watch has a number that nobody has noted (`WatchRegistry.leave`).
-/
namespace RelationSearch

open Act RelationSearch.Relation

variable {κ σ : Type} {call : Caller κ σ} {made held : List (Relation κ)} {r s t : Relation κ}
variable {w w' : World κ σ} {n : Nat} {x y : Var} {c : Comparison κ}

/-- How a watch is known. -/
def watchKey (entry : Var × Nat) : Nat × Nat := (entry.1.id, entry.2)

theorem listed_iff_mem_key {entries : List (Var × Nat)} {id : Nat} :
    listed entries x id = true ↔ (x.id, id) ∈ entries.map watchKey := by
  simp only [listed, List.any_eq_true, Bool.and_eq_true, beq_iff_eq, List.mem_map, watchKey,
    Prod.mk.injEq]

/-- The comparison leaves such a watch at the variable: it has the other operand, and knows its side. -/
def Relation.Leaves (s : Relation κ) (x : Var) (watch : Watch κ) : Prop :=
  ∃ n a b, s = .compare n a b watch.comparison ∧
    (if watch.onLeft then x.id = a.id ∧ watch.other = b else x.id = b.id ∧ watch.other = a)

theorem Relation.leaves_left (n : Nat) (x y : Var) (c : Comparison κ) (id : Nat) :
    (Relation.compare n x y c).Leaves x { id, other := y, comparison := c, onLeft := true } :=
  ⟨n, x, y, rfl, by simp⟩

theorem Relation.leaves_right (n : Nat) (x y : Var) (c : Comparison κ) (id : Nat) :
    (Relation.compare n x y c).Leaves y { id, other := x, comparison := c, onLeft := false } :=
  ⟨n, x, y, rfl, by simp⟩

/-- What live comparisons have noted are just the watches that there are. -/
structure WatchRegistry (made : List (Relation κ)) (w : World κ σ) : Prop where
  few : ∀ s ∈ made, (w.recorded s).length ≤ 2
  single : ∀ s ∈ made, ((w.recorded s).map watchKey).Nodup
  own : ∀ s ∈ made, ∀ t ∈ made, ∀ x id, listed (w.recorded s) x id = true →
    listed (w.recorded t) x id = true → s = t
  noted : ∀ x, ∀ watch ∈ (w.cell x).watches, ∃ s ∈ made, listed (w.recorded s) x watch.id = true
  left : ∀ s ∈ made, ∀ x id, listed (w.recorded s) x id = true →
    ∃ watch ∈ (w.cell x).watches, watch.id = id ∧ s.Leaves x watch
  ordered : ∀ x, (w.cell x).watches.Pairwise (·.id < ·.id)
  numbered : w.Numbered

/-! ## Records -/

namespace World

@[simp] theorem live_noted (w : World κ σ) (n : Nat) (p : Progress) (m : Nat) :
    (w.noted n p).live m = w.live m :=
  live_congr (owners_noted w n p m)

@[simp] theorem nodes_deferred (w : World κ σ) (x other : Var) (c : Comparison κ) (onLeft : Bool) :
    (w.deferred x other c onLeft).nodes = w.nodes := by
  unfold deferred
  split <;> rfl

@[simp] theorem live_deferred (w : World κ σ) (x other : Var) (c : Comparison κ) (onLeft : Bool)
    (m : Nat) : (w.deferred x other c onLeft).live m = w.live m :=
  live_congr (by rw [node_deferred])

theorem recorded_of_entries (same : w'.entries s = w.entries s)
    (live : w'.live s.node = w.live s.node) : w'.recorded s = w.recorded s := by
  rw [recorded, recorded, same, live]

theorem recorded_of_live (live : w.live s.node = true) : w.recorded s = w.entries s :=
  if_pos live

theorem recorded_of_fired {entries : List (Var × Nat)} (live : w.live n = true)
    (fired : (w.node n).progress = .fired entries) :
    w.recorded (.compare n x y c) = entries := by
  have recorded : w.recorded (.compare n x y c) = w.entries (.compare n x y c) :=
    recorded_of_live live
  rw [recorded, entries_of_fired fired]

theorem recorded_of_gone (gone : w.live s.node = false) : w.recorded s = [] := by
  rw [recorded, gone]
  rfl

theorem recorded_of_empty (empty : w.entries s = []) : w.recorded s = [] := by
  rw [recorded, empty, ite_self]

end World

/-- A new watch comes last, and has the largest number. -/
theorem Cell.ordered_addWatch {cell : Cell κ} (ordered : cell.watches.Pairwise (·.id < ·.id))
    (numbered : ∀ watch ∈ cell.watches, watch.id < cell.nextWatch) (other : Var) (c : Comparison κ)
    (onLeft : Bool) : (cell.addWatch other c onLeft).watches.Pairwise (·.id < ·.id) := by
  refine List.pairwise_append.mpr ⟨ordered, List.pairwise_singleton _ _, fun watch hw new hnew => ?_⟩
  rw [List.mem_singleton.mp hnew]
  exact numbered watch hw

namespace WatchRegistry

theorem number_lt (h : WatchRegistry made w) (hs : s ∈ made) {id : Nat}
    (noted : listed (w.recorded s) x id = true) : id < (w.cell x).nextWatch := by
  obtain ⟨watch, hw, rfl, -⟩ := h.left s hs x id noted
  exact h.numbered x watch hw

/-- Nobody has noted the number of the next watch. -/
theorem not_listed_next (h : WatchRegistry made w) (hs : s ∈ made) :
    ¬ listed (w.recorded s) x (w.cell x).nextWatch = true :=
  fun noted => Nat.lt_irrefl _ (h.number_lt hs noted)

/-- No watch is noted twice. -/
theorem nodup (h : WatchRegistry made w) (distinct : made.Nodup) :
    ((made.flatMap w.recorded).map watchKey).Nodup := by
  rw [List.map_flatMap, List.nodup_flatMap]
  refine ⟨h.single, distinct.imp_of_mem fun {s t} hs ht ne => ?_⟩
  rintro key hsx htx
  obtain ⟨entry, -, rfl⟩ := List.mem_map.mp hsx
  exact ne (h.own s hs t ht entry.1 entry.2 (listed_iff_mem_key.mpr hsx)
    (listed_iff_mem_key.mpr htx))

/-- The same watches, and the same notes of them. -/
theorem same (h : WatchRegistry made w) (recorded : ∀ s ∈ made, w'.recorded s = w.recorded s)
    (watches : ∀ x, (w'.cell x).watches = (w.cell x).watches)
    (next : ∀ x, (w'.cell x).nextWatch = (w.cell x).nextWatch) : WatchRegistry made w' where
  few s hs := recorded s hs ▸ h.few s hs
  single s hs := recorded s hs ▸ h.single s hs
  own s hs t ht x id := by
    rw [recorded s hs, recorded t ht]
    exact h.own s hs t ht x id
  noted x watch hw := by
    obtain ⟨s, hs, noted⟩ := h.noted x watch (watches x ▸ hw)
    exact ⟨s, hs, (recorded s hs).symm ▸ noted⟩
  left s hs x id noted := by
    obtain ⟨watch, hw, left⟩ := h.left s hs x id (recorded s hs ▸ noted)
    exact ⟨watch, (watches x).symm ▸ hw, left⟩
  ordered x := (watches x).symm ▸ h.ordered x
  numbered x watch hw := next x ▸ h.numbered x watch (watches x ▸ hw)

/-- A new relation has noted nothing. -/
theorem more (h : WatchRegistry made w) (recorded : ∀ s ∈ made, w'.recorded s = w.recorded s)
    (new : w'.recorded r = []) (cells : w'.cells = w.cells) : WatchRegistry (made ++ [r]) w' := by
  have same := h.same recorded (fun x => congrArg (Cell.watches <| Table.get · x.id) cells)
    (fun x => congrArg (Cell.nextWatch <| Table.get · x.id) cells)
  have old {s : Relation κ} (hs : s ∈ made ++ [r]) {x : Var} {id : Nat}
      (noted : listed (w'.recorded s) x id = true) : s ∈ made := by
    refine (List.mem_append.mp hs).resolve_right fun hs => ?_
    rw [List.mem_singleton.mp hs, new] at noted
    cases noted
  refine {
    few := fun s hs => ?few
    single := fun s hs => ?single
    own := fun s hs t ht x id hsx htx => same.own s (old hs hsx) t (old ht htx) x id hsx htx
    noted := fun x watch hw => ?noted
    left := fun s hs x id noted => same.left s (old hs noted) x id noted
    ordered := same.ordered
    numbered := same.numbered }
  case few =>
    rcases List.mem_append.mp hs with hs | hs
    · exact same.few s hs
    · rw [List.mem_singleton.mp hs, new]
      exact Nat.zero_le _
  case single =>
    rcases List.mem_append.mp hs with hs | hs
    · exact same.single s hs
    · rw [List.mem_singleton.mp hs, new]
      exact List.nodup_nil
  case noted =>
    obtain ⟨s, hs, noted⟩ := same.noted x watch hw
    exact ⟨s, List.mem_append_left _ hs, noted⟩

/-- **Comparisons take their own watches away**, and no others. -/
theorem less (h : WatchRegistry made w) (lost : Relation κ → Bool)
    (recorded : ∀ s ∈ made, w'.recorded s = if lost s then [] else w.recorded s)
    (cells : ∀ x, (w'.cell x).nextWatch = (w.cell x).nextWatch ∧ (w'.cell x).watches =
      (w.cell x).watches.filter fun watch =>
        !listed ((made.filter lost).flatMap w.recorded) x watch.id) : WatchRegistry made w' := by
  have kept {s : Relation κ} (hs : s ∈ made) {x : Var} {id : Nat}
      (noted : listed (w'.recorded s) x id = true) :
      lost s = false ∧ listed (w.recorded s) x id = true := by
    rw [recorded s hs] at noted
    cases out : lost s with
    | true => rw [out] at noted; cases noted
    | false => rw [out] at noted; exact ⟨rfl, noted⟩
  have mem {x : Var} {watch : Watch κ} : watch ∈ (w'.cell x).watches ↔ watch ∈ (w.cell x).watches ∧
      ∀ s ∈ made, lost s = true → ¬ listed (w.recorded s) x watch.id = true := by
    rw [(cells x).2, List.mem_filter, Bool.not_eq_true', ← Bool.not_eq_true, listed_flatMap]
    simp only [List.mem_filter, not_exists, not_and, and_imp]
  refine {
    few := fun s hs => ?few
    single := fun s hs => ?single
    own := fun s hs t ht x id hsx htx => h.own s hs t ht x id (kept hs hsx).2 (kept ht htx).2
    noted := fun x watch hw => ?noted
    left := fun s hs x id noted => ?left
    ordered := fun x => ?ordered
    numbered := fun x watch hw => ?numbered }
  case few =>
    rw [recorded s hs]
    split
    · exact Nat.zero_le _
    · exact h.few s hs
  case single =>
    rw [recorded s hs]
    split
    · exact List.nodup_nil
    · exact h.single s hs
  case noted =>
    obtain ⟨there, apart⟩ := mem.mp hw
    obtain ⟨s, hs, noted⟩ := h.noted x watch there
    refine ⟨s, hs, ?_⟩
    rw [recorded s hs, if_neg fun out => apart s hs out noted]
    exact noted
  case left =>
    obtain ⟨here, before⟩ := kept hs noted
    obtain ⟨watch, there, rfl, left⟩ := h.left s hs x id before
    refine ⟨watch, mem.mpr ⟨there, fun t ht out other => ?_⟩, rfl, left⟩
    obtain rfl := h.own s hs t ht x _ before other
    rw [here] at out
    cases out
  case ordered =>
    rw [(cells x).2]
    exact (h.ordered x).filter _
  case numbered =>
    rw [(cells x).1]
    exact h.numbered x watch (mem.mp hw).1

/-- **A comparison leaves a watch**, with a number that nobody has noted, and notes it. -/
theorem add (h : WatchRegistry made w) (hs : s ∈ made) (room : (w.recorded s).length ≤ 1)
    {other : Var} {onLeft : Bool} (fits : ∀ id, s.Leaves x { id, other, comparison := c, onLeft })
    (others : ∀ t ∈ made, t ≠ s → w'.recorded t = w.recorded t)
    (here : w'.recorded s = w.recorded s ++ [(x, (w.cell x).nextWatch)])
    (cells : ∀ z, w'.cell z =
      if x.id = z.id then (w.cell z).addWatch other c onLeft else w.cell z) :
    WatchRegistry made w' := by
  -- What is noted now was noted before, or is the new watch, which nobody had noted.
  have now {t : Relation κ} (ht : t ∈ made) {z : Var} {id : Nat} :
      listed (w'.recorded t) z id = true ↔ listed (w.recorded t) z id = true ∨
        (t = s ∧ x.id = z.id ∧ (w.cell z).nextWatch = id) := by
    by_cases ne : t = s
    · subst ne
      rw [here, listed_append, Bool.or_eq_true]
      by_cases hz : x.id = z.id
      · simp [listed, hz, cell_congr w hz]
      · simp [listed, hz]
    · rw [others t ht ne]
      exact ⟨.inl, fun noted => noted.resolve_right fun new => ne new.1⟩
  have mem {z : Var} {watch : Watch κ} : watch ∈ (w'.cell z).watches ↔ watch ∈ (w.cell z).watches ∨
      (x.id = z.id ∧ watch = { id := (w.cell z).nextWatch, other, comparison := c, onLeft }) := by
    rw [cells z]
    split <;> rename_i hz <;> simp [Cell.addWatch, hz]
  refine {
    few := fun t ht => ?few
    single := fun t ht => ?single
    own := fun t ht u hu z id htz huz => ?own
    noted := fun z watch hw => ?noted
    left := fun t ht z id noted => ?left
    ordered := fun z => ?ordered
    numbered := fun z watch hw => ?numbered }
  case few =>
    by_cases ne : t = s
    · rw [ne, here, List.length_append]
      exact Nat.succ_le_succ room
    · exact others t ht ne ▸ h.few t ht
  case single =>
    by_cases ne : t = s
    · rw [ne, here, List.map_append, List.nodup_append]
      refine ⟨h.single s hs, List.nodup_singleton _, fun old hold new hnew same => ?_⟩
      rw [List.map_singleton, List.mem_singleton] at hnew
      refine h.not_listed_next hs (listed_iff_mem_key.mpr ?_ : listed _ x _ = true)
      change watchKey (x, (w.cell x).nextWatch) ∈ _
      rwa [← hnew, ← same]
    · exact others t ht ne ▸ h.single t ht
  case own =>
    rcases (now ht).mp htz with before | ⟨rfl, -, rfl⟩
    · rcases (now hu).mp huz with before' | ⟨rfl, -, rfl⟩
      · exact h.own t ht u hu z id before before'
      · exact absurd before (h.not_listed_next ht)
    · rcases (now hu).mp huz with before' | ⟨rfl, -, -⟩
      · exact absurd before' (h.not_listed_next hu)
      · rfl
  case noted =>
    rcases mem.mp hw with old | ⟨hz, rfl⟩
    · obtain ⟨t, ht, noted⟩ := h.noted z watch old
      exact ⟨t, ht, (now ht).mpr (.inl noted)⟩
    · exact ⟨s, hs, (now hs).mpr (.inr ⟨rfl, hz, rfl⟩)⟩
  case left =>
    rcases (now ht).mp noted with before | ⟨rfl, hz, rfl⟩
    · obtain ⟨watch, there, left⟩ := h.left t ht z id before
      exact ⟨watch, mem.mpr (.inl there), left⟩
    · refine ⟨_, mem.mpr (.inr ⟨hz, rfl⟩), rfl, ?_⟩
      obtain ⟨n, a, b, made, side⟩ := fits (w.cell z).nextWatch
      exact ⟨n, a, b, made, hz ▸ side⟩
  case ordered =>
    rw [cells z]
    split
    · exact Cell.ordered_addWatch (h.ordered z) (h.numbered z) other c onLeft
    · exact h.ordered z
  case numbered =>
    rw [cells z] at hw ⊢
    by_cases hz : x.id = z.id
    · rw [if_pos hz] at hw ⊢
      exact Cell.numbered_addWatch (h.numbered z) other c onLeft watch hw
    · rw [if_neg hz] at hw ⊢
      exact h.numbered z watch hw

/-! ## The steps of a comparison -/

section Comparisons

variable (h : WatchRegistry made w) (hs : s ∈ made) (alive : w.live s.node = true)
variable (live : ∀ n, w'.live n = w.live n)
variable (others : ∀ t ∈ made, t ≠ s → w'.entries t = w.entries t)
include h hs alive live others

/-- A comparison takes its watches away. -/
theorem drop (here : w'.entries s = [])
    (cells : ∀ x, w'.cell x = (w.dropAll (w.entries s)).cell x) :
    WatchRegistry made w' := by
  classical
  refine h.less (fun t => t = s) (fun t ht => ?_) fun x => ?_
  · by_cases ne : t = s
    · rw [if_pos (decide_eq_true ne), ne, World.recorded_of_empty here]
    · rw [if_neg (by simpa using ne)]
      exact World.recorded_of_entries (others t ht ne) (live _)
  · have own (id : Nat) : listed ((made.filter fun t => t = s).flatMap w.recorded) x id =
        listed (w.entries s) x id := by
      rw [Bool.eq_iff_iff, listed_flatMap, ← World.recorded_of_live alive]
      simp only [List.mem_filter, decide_eq_true_eq]
      exact ⟨fun ⟨t, ⟨_, same⟩, noted⟩ => same ▸ noted, fun noted => ⟨s, ⟨hs, rfl⟩, noted⟩⟩
    rw [cells x, World.cell_dropAll]
    simp only [own, and_self]

/-- A comparison sees to one of its operands. -/
theorem leave (room : (w.entries s).length ≤ 1) {other : Var} {onLeft : Bool}
    (fits : ∀ id, s.Leaves x { id, other, comparison := c, onLeft })
    (here : w'.entries s = w.entries s ++ w.noteOf x)
    (cells : ∀ z, w'.cell z = (w.deferred x other c onLeft).cell z) : WatchRegistry made w' := by
  have recorded : ∀ t ∈ made, t ≠ s → w'.recorded t = w.recorded t := fun t ht ne =>
    World.recorded_of_entries (others t ht ne) (live _)
  have old := World.recorded_of_live alive
  have new := World.recorded_of_live ((live _).trans alive)
  cases free : w.value x with
  | some v =>
    have nothing : w.noteOf x = [] := by rw [World.noteOf, free]
    have same (z : Var) : w'.cell z = w.cell z := by rw [cells, World.deferred, free]
    refine h.same (fun t ht => ?_) (fun z => by rw [same]) fun z => by rw [same]
    by_cases ne : t = s
    · rw [ne, new, here, nothing, List.append_nil, old]
    · exact recorded t ht ne
  | none =>
    refine h.add hs (old ▸ room) fits recorded ?_ fun z => ?_
    · rw [new, here, old, World.noteOf, free]
    · rw [cells, World.cell_deferred]
      simp only [free, and_true]

end Comparisons

end WatchRegistry

/-- What a node notes is no business of the other relations. -/
theorem Inventory.entries_of_ne {u v : World κ σ} (h : Inventory made held w) (hs : s ∈ made)
    (same : ∀ m, s.node ≠ m → (v.node m).progress = (u.node m).progress) :
    ∀ t ∈ made, t ≠ s → v.entries t = u.entries t :=
  fun _ ht ne => World.entries_congr (same _ fun e => ne (h.unique ht hs e.symm))

/-- A comparison that has noted nothing may note that. -/
theorem Inventory.entries_blank (h : Inventory made held w) (hs : Relation.compare n x y c ∈ made)
    (unfired : ∀ entries, (w.node n).progress ≠ .fired entries) :
    ∀ t ∈ made, (w.noted n (.fired [])).entries t = w.entries t := by
  intro t ht
  by_cases ne : t = .compare n x y c
  · rw [ne, World.entries_of_unfired unfired, World.entries_of_fired (World.progress_noted ..)]
  · refine h.entries_of_ne hs (fun m other => ?_) t ht ne
    rw [World.node_noted_of_ne w n _ other]

/-- **A comparison has its turn**, and leaves watches at its unbound operands. -/
theorem WatchRegistry.watching (h : WatchRegistry made w) (inv : Inventory made held w)
    (hs : Relation.compare n x y c ∈ made) (alive : w.live n = true)
    (unfired : ∀ entries, (w.node n).progress ≠ .fired entries) :
    WatchRegistry made (w.watching n x y c) := by
  have noted (w : World κ σ) (es : List (Var × Nat)) :
      (w.noted n (.fired es)).entries (.compare n x y c) = es :=
    World.entries_of_fired (World.progress_noted ..)
  have others {u v : World κ σ} (same : ∀ m, n ≠ m → (v.node m).progress = (u.node m).progress) :
      ∀ t ∈ made, t ≠ .compare n x y c → v.entries t = u.entries t :=
    inv.entries_of_ne hs same
  have short (w : World κ σ) (z : Var) : (w.noteOf z).length ≤ 1 := by
    unfold World.noteOf
    split <;> simp
  generalize hv : w.noted n (.fired []) = v
  have start : WatchRegistry made v := by
    subst hv
    exact h.same (fun t ht => World.recorded_of_entries (inv.entries_blank hs unfired t ht)
      (World.live_noted ..)) (fun _ => rfl) fun _ => rfl
  have aliveV : v.live n = true := by rw [← hv, World.live_noted, alive]
  have noneV : v.entries (.compare n x y c) = [] := by rw [← hv, noted]
  -- In between, the left operand is seen to, and the right one not yet.
  generalize hu : (v.deferred x y c true).noted n (.fired (v.noteOf x)) = u
  have noteU : u.entries (.compare n x y c) = v.noteOf x := by rw [← hu, noted]
  have liveU (m : Nat) : u.live m = v.live m := by
    rw [← hu, World.live_noted, World.live_deferred]
  have between : WatchRegistry made u := by
    refine start.leave hs aliveV liveU (others fun m other => ?_)
      (noneV ▸ Nat.zero_le _) (leaves_left n x y c) (by rw [noteU, noneV]; rfl)
      fun _ => by rw [← hu]; rfl
    rw [← hu, World.node_noted_of_ne _ _ _ other, World.node_deferred]
  have last : w.watching n x y c = ((v.deferred x y c true).deferred y x c false).noted n
      (.fired (v.noteOf x ++ (v.deferred x y c true).noteOf y)) := by
    rw [← hv]
    rfl
  refine between.leave hs (liveU n ▸ aliveV) (fun m => ?_) (others fun m other => ?_)
    (noteU ▸ short v x) (leaves_right n x y c) ?_ fun z => ?_
  · rw [last, World.live_noted, World.live_deferred, World.live_deferred, liveU]
  · rw [last, World.node_noted_of_ne _ _ _ other, World.node_deferred, World.node_deferred, ← hu,
      World.node_noted_of_ne _ _ _ other, World.node_deferred]
  · rw [last, noted, noteU, ← hu]
    rfl
  · rw [last, ← hu, World.cell_noted, World.noted_deferred, World.cell_noted]

/-- What undoing a comparison does: its watches go. -/
theorem retract_compare (n : Nat) (x y : Var) (c : Comparison κ) (w : World κ σ) :
    retract (.compare n x y c) w = .ok ⟨⟩ (w.dropAll (w.entries (.compare n x y c))) := by
  rw [retract, bind_apply, progress_apply]
  cases progress : (w.node n).progress with
  | fired entries =>
    rw [World.entries_of_fired progress]
    exact dropWatches_apply entries w
  | _ =>
    rw [World.entries_of_unfired (by simp [progress])]
    rfl

/-- The reset of a comparison that nobody is driving. -/
theorem Relation.reset_compare (idle : (w.node n).busy = false) :
    (Relation.compare n x y c).reset w = .ok ⟨⟩
      (((w.setBusy n true).dropAll (w.entries (.compare n x y c))).rewound (.compare n x y c)) := by
  have same : (w.setBusy n true).entries (.compare n x y c) = w.entries (.compare n x y c) :=
    World.entries_congr (World.progress_setBusy ..)
  have run : rewinding (.compare n x y c) (retract (.compare n x y c)) w = _ :=
    rewinding_of_idle idle
  rw [retract_compare, Relation.node, same] at run
  exact run

/-- The exhausted solve of a comparison that nobody is driving. -/
theorem Relation.solve_compare_of_fired {fuel : Nat} {entries : List (Var × Nat)}
    (idle : (w.node n).busy = false) (fired : (w.node n).progress = .fired entries) :
    (Relation.compare n x y c).solve call fuel w = .ok false
      ((((w.setBusy n true).dropAll entries).noted n (.fired [])).concluded (.compare n x y c)
        false) := by
  have same : ((w.setBusy n true).node n).progress = .fired entries :=
    (World.progress_setBusy ..).trans fired
  have run : answering (.compare n x y c) (advanceCompare call n x y c) w = _ :=
    answering_of_idle idle
  rw [Relation.node, advanceCompare_of_fired same] at run
  exact run

section Stripped

variable (idle : (w.node n).busy = false) (alive : w.live n = true)
include idle alive

/-- A reset takes the comparison's own watches away. -/
theorem Relation.reset_compare_strips : ∃ w', (Relation.compare n x y c).reset w = .ok ⟨⟩ w' ∧
    Stripped (w.recorded (.compare n x y c)) w w' := by
  have recorded : w.recorded (.compare n x y c) = w.entries (.compare n x y c) :=
    World.recorded_of_live alive
  rw [recorded]
  have dropped := World.cell_dropAll (w.setBusy n true) (w.entries (.compare n x y c))
  exact ⟨_, reset_compare idle, fun z => (World.cell_rewound ..).trans (dropped z)⟩

/-- So does a solve that finds it exhausted. -/
theorem Relation.solve_compare_strips {fuel : Nat} {entries : List (Var × Nat)}
    (fired : (w.node n).progress = .fired entries) :
    ∃ w', (Relation.compare n x y c).solve call fuel w = .ok false w' ∧
      Stripped (w.recorded (.compare n x y c)) w w' := by
  rw [World.recorded_of_fired alive fired]
  have dropped := World.cell_dropAll (w.setBusy n true) entries
  exact ⟨_, solve_compare_of_fired idle fired, fun z => (World.cell_concluded ..).trans (dropped z)⟩

end Stripped

end RelationSearch
