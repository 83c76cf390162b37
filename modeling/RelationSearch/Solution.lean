import RelationSearch.Store.World

/-!
# Solutions

A snapshot of the values of some variables. A solution lists the variables that were bound, each once,
by variable number; later searching does not change it.
-/
namespace RelationSearch

/-- The value that a variable had. -/
structure Binding where
  var : Var
  value : Value
  deriving Inhabited

/-- A binding as `name=image`. -/
def Binding.image (b : Binding) : String := b.var.name ++ "=" ++ b.value.image

/-- The bindings of a solution come in the order of the variables' numbers, no number twice. -/
structure Solution where
  bindings : List Binding
  increasing : bindings.Pairwise fun a b => a.var.id < b.var.id

namespace Solution

variable {κ σ : Type}

/-- Puts a binding in its place among bindings in order. It replaces one of the same variable. -/
def insertBinding (b : Binding) : List Binding → List Binding
  | [] => [b]
  | a :: rest =>
    if b.var.id < a.var.id then b :: a :: rest
    else if b.var.id = a.var.id then b :: rest
    else a :: insertBinding b rest

theorem mem_insertBinding {a b : Binding} {bs : List Binding} (h : a ∈ insertBinding b bs) :
    a = b ∨ a ∈ bs := by
  induction bs with
  | nil => simpa [insertBinding] using h
  | cons c rest ih =>
    simp only [insertBinding] at h
    split at h
    · simpa using h
    · split at h <;> grind

theorem increasing_insertBinding (b : Binding) {bs : List Binding}
    (h : bs.Pairwise fun a b => a.var.id < b.var.id) :
    (insertBinding b bs).Pairwise fun a b => a.var.id < b.var.id := by
  induction bs with
  | nil => simp [insertBinding]
  | cons c rest ih =>
    rw [List.pairwise_cons] at h
    simp only [insertBinding]
    split
    · grind [List.pairwise_cons]
    · split
      · grind [List.pairwise_cons]
      · refine List.pairwise_cons.2 ⟨fun a ha => ?_, ih h.2⟩
        rcases mem_insertBinding ha with rfl | ha
        · omega
        · exact h.1 a ha

/-- The solution that binds nothing. -/
def empty : Solution := ⟨[], .nil⟩

instance : Inhabited Solution := ⟨empty⟩

/-- A solution with one more binding. -/
def insert (s : Solution) (b : Binding) : Solution :=
  ⟨insertBinding b s.bindings, increasing_insertBinding b s.increasing⟩

/-- A snapshot of those of some variables that are bound. -/
def capture (w : World κ σ) (xs : List Var) : Solution :=
  xs.foldl (fun s x => match w.value x with
    | some value => s.insert { var := x, value }
    | none => s) empty

/-- The number of bindings. -/
def size (s : Solution) : Nat := s.bindings.length

/-- Whether nothing was bound. -/
def isEmpty (s : Solution) : Bool := s.bindings.isEmpty

/-- The value a variable had. -/
def get? (s : Solution) (x : Var) : Option Value :=
  (s.bindings.find? fun b => b.var.id == x.id).map Binding.value

/-- The first binding of a variable with the given name. -/
def find? (s : Solution) (name : String) : Option Binding :=
  s.bindings.find? fun b => b.var.name == name

/-- The text `{X=1, Y=2}`. -/
def image (s : Solution) : String :=
  "\x7b" ++ String.intercalate ", " (s.bindings.map Binding.image) ++ "\x7d"

/-- Puts the image of a name in its place among names in order. It replaces the image of the same
name. -/
def insertImage (name image : String) : List (String × String) → List (String × String)
  | [] => [(name, image)]
  | (other, shown) :: rest =>
    if name < other then (name, image) :: (other, shown) :: rest
    else if name = other then (name, image) :: rest
    else (other, shown) :: insertImage name image rest

/-- The images by name, in the order of the names. Of variables with one name the last one counts. -/
def images (s : Solution) : List (String × String) :=
  s.bindings.foldl (fun shown b => insertImage b.var.name b.value.image shown) []

end Solution
end RelationSearch
