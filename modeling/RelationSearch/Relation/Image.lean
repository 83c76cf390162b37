import RelationSearch.Store.World

/-!
# Images of relations

The text that shows a relation. A leaf shows its label inside its parentheses, any other relation in
front. A relation that is being solved hides its parts.
-/
namespace RelationSearch

variable {κ σ : Type}

/-- A kind with its details in parentheses, and the label after them. -/
def leafImage (kind details : String) : Option String → String
  | some label => kind ++ "(" ++ details ++ ": " ++ label ++ ")"
  | none => kind ++ "(" ++ details ++ ")"

/-- A text with the label in front. -/
def labelledImage (body : String) : Option String → String
  | some label => label ++ ": " ++ body
  | none => body

/-- What a leaf shows between its parentheses. -/
def Relation.details : Relation κ → String
  | .domain _ x values => x.name ++ ", " ++ (Value.list values).image
  | .convert _ x y _ => x.name ++ " -> " ++ y.name
  | .compare _ x y _ => x.name ++ " ~ " ++ y.name
  | .predicate _ xs _ => String.intercalate ", " (xs.map Var.name)
  | _ => ""

/-- A leaf's image without its label, as error messages show it. -/
def Relation.bareImage (r : Relation κ) : String :=
  leafImage r.kind r.details none

/-- The image of a relation. -/
def World.image (w : World κ σ) : Relation κ → String
  | .and n l r =>
    shown n (labelledImage ("(" ++ w.image l ++ " and " ++ w.image r ++ ")"))
  | .or n l r =>
    shown n (labelledImage ("(" ++ w.image l ++ " or " ++ w.image r ++ ")"))
  | .always n => shown n (labelledImage "True")
  | .never n => shown n (labelledImage "False")
  | leaf => shown leaf.node (leafImage leaf.kind leaf.details)
where
  /-- The image of a node, unless it is busy, from what it shows under its label. -/
  shown (n : Nat) (body : Option String → String) : String :=
    let node := w.node n
    if node.busy then "<" ++ node.label.getD "relation" ++ " being solved>" else body node.label

end RelationSearch
