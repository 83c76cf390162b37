import RelationSearch.Text.Quoted
import RelationSearch.Text.Sequence

/-!
# Display columns

How many terminal columns a line takes. The visible characters of a terminal colour sequence,
`ESC [ … m`, take none. They are counted one by one, while the line has the columns of its characters
in a row: where these are fewer than what is hidden, the line cannot be measured. A line of printable
ASCII can be, and has a column for each character.
-/
namespace RelationSearch.Text

/-- Where a scan for colour sequences stands. -/
inductive EscapeScan
  /-- Outside every sequence. -/
  | outside
  /-- Just after the escape character. -/
  | escaped
  /-- Inside the brackets of a sequence. -/
  | inside

/-- The number of visible characters that belong to colour sequences. -/
def hiddenColumns : EscapeScan → List Char → Nat
  | _, [] => 0
  | .outside, c :: rest => hiddenColumns (if c = '\x1b' then .escaped else .outside) rest
  | .escaped, c :: rest =>
    if c = '[' then 1 + hiddenColumns .inside rest else hiddenColumns .outside rest
  | .inside, c :: rest =>
    (if charColumns c = 0 then 0 else 1) +
      hiddenColumns (if c = 'm' then .outside else .inside) rest

/-- A line of text with the columns that it takes. -/
structure Line where
  text : String := ""
  columns : Nat := 0
  deriving Repr, DecidableEq, Inhabited

/-- A line whose colour sequences hide more columns than it has. -/
structure Overhidden where
  text : String
  width : Nat
  hidden : Nat
  deriving Repr, DecidableEq, Inhabited

/-- The explanation of a line that cannot be measured. -/
def Overhidden.message (fault : Overhidden) : String :=
  "internal error: width " ++ toString fault.width ++ " less than hidden " ++
    toString fault.hidden ++ " on string " ++ quoted fault.text

/-- A line measured. -/
def Line.measure (text : String) : Except Overhidden Line :=
  let width := rowColumns text.toList
  let hidden := hiddenColumns .outside text.toList
  if hidden ≤ width then .ok { text, columns := width - hidden } else .error { text, width, hidden }

/-- Nothing is hidden where no sequence begins. -/
theorem hiddenColumns_of_no_escape {chars : List Char} (plain : '\x1b' ∉ chars) :
    hiddenColumns .outside chars = 0 := by
  induction chars with
  | nil => rfl
  | cons c rest ih =>
    rw [List.mem_cons, not_or] at plain
    simp [hiddenColumns, Ne.symm plain.1, ih plain.2]

/-- A line of printable ASCII has as many columns as characters. -/
theorem Line.measure_of_ascii {text : String}
    (ascii : ∀ c ∈ text.toList, 0x20 ≤ c.toNat ∧ c.toNat < 0x7f) :
    Line.measure text = .ok { text, columns := text.length } := by
  have plain : '\x1b' ∉ text.toList := fun h => absurd (ascii _ h).1 (by decide)
  have basic : ∀ c ∈ text.toList, c.toNat ≤ 0xa0 := fun c hc =>
    Nat.le_trans (Nat.le_of_lt (ascii c hc).2) (by decide)
  simp [Line.measure, rowColumns_of_basic basic, hiddenColumns_of_no_escape plain,
    String.length_toList]

/-- A line followed by as many blanks as bring it to a width. -/
def Line.padRight (width : Nat) (line : Line) : String :=
  line.text ++ String.ofList (List.replicate (width - line.columns) ' ')

/-- The lines of a text: each ends at a line feed, a carriage return just before it is dropped,
and nothing after the last line feed is no line. -/
def lines (text : String) : List String :=
  let pieces := text.splitOn "\n"
  let ended := pieces.dropLast.map fun piece =>
    if piece.endsWith "\r" then (piece.dropEnd 1).toString else piece
  match pieces.getLast? with
  | none => ended
  | some last => if last.isEmpty then ended else ended ++ [last]

end RelationSearch.Text
