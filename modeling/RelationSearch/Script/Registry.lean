/-!
# Registries

What the names of a script stand for. A name that is registered again stands for the new entry.
-/
namespace RelationSearch.Script

/-- Entries under names, the latest first, no name twice. -/
structure Registry (α : Type) where
  entries : List (String × α) := []

namespace Registry

variable {α : Type}

instance : Inhabited (Registry α) := ⟨{}⟩

/-- The entry of a name. -/
def find? (r : Registry α) (name : String) : Option α := r.entries.lookup name

/-- The registry without a name. -/
def erase (r : Registry α) (name : String) : Registry α :=
  ⟨r.entries.filter fun entry => entry.1 != name⟩

/-- The registry with an entry under a name. -/
def insert (r : Registry α) (name : String) (a : α) : Registry α :=
  ⟨(name, a) :: (r.erase name).entries⟩

theorem find?_insert (r : Registry α) (name other : String) (a : α) :
    (r.insert name a).find? other = if other = name then some a else r.find? other := by
  simp only [insert, find?, List.lookup_cons]
  split
  · simp_all
  · rename_i h
    have ne : other ≠ name := by simpa using h
    rw [if_neg ne]
    unfold erase
    induction r.entries with
    | nil => rfl
    | cons entry rest ih =>
      obtain ⟨key, held⟩ := entry
      by_cases same : key = name
      · subst same
        simpa [List.lookup_cons, beq_eq_false_iff_ne.2 ne] using ih
      · simp only [List.filter_cons, bne_iff_ne, ne_eq, same, not_false_eq_true, if_true,
          List.lookup_cons]
        split
        · rfl
        · exact ih

end Registry
end RelationSearch.Script
