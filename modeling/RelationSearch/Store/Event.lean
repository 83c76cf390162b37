/-!
# Events

What a search reports while it is traced. An event carries the images of the things it is about, taken
when it happened.
-/
namespace RelationSearch

/-- Something that happened during a traced search. -/
inductive Event
  /-- A call of `solve` came back with an answer. -/
  | solved (relation : String) (answer : Bool)
  /-- A call of `reset` came back. -/
  | rewound (relation : String)
  /-- An owner gives its relation up; so many others remain. -/
  | released (relation : String) (remaining : Nat)
  /-- A watch of the variable refused the value. -/
  | rejected (variableName : String) (value : String)
  /-- A search for one solution found it. -/
  | firstSolution (solution : String)
  /-- A search for one solution found none. -/
  | noSolution (relation : String)
  /-- An enumeration accepted its `index`-th solution. -/
  | solution (index : Nat) (solution : String)
  /-- An enumeration is over. -/
  | finished (solutions rejected : Nat) (stoppedEarly : Bool)
  deriving Repr, DecidableEq, Inhabited

namespace Event

/-- The line that reports an event: its level, a message, and its fields. -/
def line : Event → String
  | .solved relation answer => s!"TRACE solve relation={relation} solved={answer}"
  | .rewound relation => s!"TRACE reset relation={relation}"
  | .released relation remaining =>
    s!"TRACE cleanup relation={relation} remaining_owners={remaining}"
  | .rejected variableName value =>
    s!"TRACE binding rejected by watch variable={variableName} value={value}"
  | .firstSolution found => s!"DEBUG first solution solution={found}"
  | .noSolution relation => s!"DEBUG no solution relation={relation}"
  | .solution index found => s!"DEBUG solution index={index} solution={found}"
  | .finished count refused stoppedEarly =>
    s!"DEBUG enumeration finished solutions={count} rejected={refused} " ++
      s!"stopped_early={stoppedEarly}"

end Event
end RelationSearch
