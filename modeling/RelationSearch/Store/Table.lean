/-!
# Tables

A table gives every number an entry. Entries are added at the end. A number without an entry of its
own reads as the default one, and writing it fills the gap with defaults, so that `get_set` holds
without a condition on the number.
-/
namespace RelationSearch

/-- A table of entries, numbered from zero. -/
structure Table (α : Type) where
  entries : Array α

namespace Table

variable {α : Type}

/-- The table without entries. -/
def empty : Table α := ⟨#[]⟩

instance : Inhabited (Table α) := ⟨empty⟩

/-- The number that the next added entry gets. -/
def size (t : Table α) : Nat := t.entries.size

/-- Adds an entry under the next number. -/
def push (t : Table α) (a : α) : Table α := ⟨t.entries.push a⟩

variable [Inhabited α]

/-- The entry of a number. -/
def get (t : Table α) (i : Nat) : α := t.entries[i]?.getD default

/-- Replaces the entry of a number. -/
def set (t : Table α) (i : Nat) (a : α) : Table α :=
  if i < t.entries.size then ⟨t.entries.setIfInBounds i a⟩
  else ⟨(t.entries ++ Array.replicate (i - t.entries.size) default).push a⟩

/-- Changes the entry of a number. -/
def modify (t : Table α) (i : Nat) (f : α → α) : Table α :=
  t.set i (f (t.get i))

@[simp] theorem get_empty (i : Nat) : (empty : Table α).get i = default := by
  simp [empty, get]

theorem get_of_size_le (t : Table α) {i : Nat} (h : t.size ≤ i) : t.get i = default := by
  simp only [size] at h
  simp [get, h]

omit [Inhabited α] in
@[simp] theorem size_push (t : Table α) (a : α) : (t.push a).size = t.size + 1 := by
  simp [size, push]

theorem get_push (t : Table α) (a : α) (i : Nat) :
    (t.push a).get i = if i = t.size then a else t.get i := by
  simp only [get, push, size, Array.getElem?_push]
  split <;> simp_all

theorem get_set (t : Table α) (i j : Nat) (a : α) :
    (t.set i a).get j = if i = j then a else t.get j := by
  unfold set get
  split
  · rename_i h
    simp only [Array.getElem?_setIfInBounds]
    split <;> simp_all
  · rename_i h
    simp only [Array.getElem?_push, Array.getElem?_append, Array.getElem?_replicate,
      Array.size_append, Array.size_replicate]
    grind

theorem get_modify (t : Table α) (i j : Nat) (f : α → α) :
    (t.modify i f).get j = if i = j then f (t.get j) else t.get j := by
  unfold modify
  rw [get_set]
  split <;> simp_all

@[simp] theorem get_modify_self (t : Table α) (i : Nat) (f : α → α) :
    (t.modify i f).get i = f (t.get i) := by
  simp [get_modify]

theorem get_modify_of_ne (t : Table α) {i j : Nat} (f : α → α) (h : i ≠ j) :
    (t.modify i f).get j = t.get j := by
  simp [get_modify, h]

/-- Changing an entry that the table has adds none. -/
theorem size_modify_of_lt (t : Table α) {i : Nat} (f : α → α) (h : i < t.size) :
    (t.modify i f).size = t.size := by
  simp only [size] at *
  simp [modify, set, h]

end Table
end RelationSearch
