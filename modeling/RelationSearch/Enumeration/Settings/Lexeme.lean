import RelationSearch.Enumeration.Settings

/-!
# Lexemes of a settings text

Readers for the parts of JSON that have no parts of their own: blanks, words, strings and numbers. A
reader takes the characters that are left and gives what it read with the characters after it.

Strings come in two kinds. A *paired* one must spell a text: an escaped surrogate needs its partner. A
string that is only skipped may hold any four hexadecimal digits.

A text that ends inside a lexeme is unfinished, with one exception: a number that is only skipped and
breaks off is malformed.
-/
namespace RelationSearch.SettingsText

/-- A reader of the characters that are left. -/
abbrev Reader (α : Type) := StateT (List Char) (Except SettingsFault) α

/-- Whether a character may stand between lexemes. -/
def isBlank (c : Char) : Bool := c = ' ' || c = '\n' || c = '\t' || c = '\r'

/-- The next character, which stays unread. -/
def peek : Reader (Option Char) := do return (← get).head?

/-- Reads one character, if there is one. -/
def advance : Reader Unit := modify List.tail

/-- Skips blanks. Answers the next character, which stays unread. -/
def nextLexeme : Reader (Option Char) := do
  modify (List.dropWhile isBlank)
  peek

/-- Reads the given characters. -/
def expect : List Char → Reader Unit
  | [] => return ()
  | c :: rest => do
    match ← peek with
    | none => throw .unfinished
    | some d =>
      if d = c then
        advance
        expect rest
      else throw .malformed

/-! ## Strings -/

/-- The value of a hexadecimal digit. -/
def hexDigit? (c : Char) : Option Nat :=
  if c.isDigit then some (c.toNat - '0'.toNat)
  else if 'a' ≤ c && c ≤ 'f' then some (c.toNat - 'a'.toNat + 10)
  else if 'A' ≤ c && c ≤ 'F' then some (c.toNat - 'A'.toNat + 10)
  else none

/-- The number that hexadecimal digits spell. -/
def hexNumber? (digits : List Char) : Option Nat :=
  digits.foldlM (fun total c => (hexDigit? c).map (16 * total + ·)) 0

/-- Reads the four digits of a code escape. With fewer than four bytes left the text has ended. -/
def hexCode : Reader Nat := do
  let cs ← get
  if cs.foldl (fun bytes c => bytes + c.utf8Size) 0 < 4 then throw .unfinished
  match hexNumber? (cs.take 4) with
  | some code =>
    set (cs.drop 4)
    return code
  | none => throw .malformed

/-- Whether a code is the first half of a surrogate pair. -/
def isHighSurrogate (code : Nat) : Bool := 0xd800 ≤ code && code ≤ 0xdbff

/-- Whether a code is the second half of a surrogate pair. -/
def isLowSurrogate (code : Nat) : Bool := 0xdc00 ≤ code && code ≤ 0xdfff

/-- Reads a code escape after its letter. -/
def codeEscape (paired : Bool) : Reader Char := do
  let code ← hexCode
  if !paired then return Char.ofNat code
  else if isLowSurrogate code then throw .malformed
  else if isHighSurrogate code then
    expect ['\\', 'u']
    let partner ← hexCode
    if isLowSurrogate partner then
      return Char.ofNat (0x10000 + (code - 0xd800) * 0x400 + (partner - 0xdc00))
    else throw .malformed
  else return Char.ofNat code

/-- Reads an escape after its backslash. -/
def escape (paired : Bool) : Reader Char := do
  let some c ← peek | throw .unfinished
  advance
  match c with
  | '"' | '\\' | '/' => return c
  | 'b' => return '\x08'
  | 'f' => return '\x0c'
  | 'n' => return '\n'
  | 'r' => return '\r'
  | 't' => return '\t'
  | 'u' => codeEscape paired
  | _ => throw .malformed

/-- Reads a string after its opening quote. The fuel bounds the number of characters. -/
def stringBody (paired : Bool) : Nat → Reader (List Char)
  | 0 => throw .unfinished
  | fuel + 1 => do
    let some c ← peek | throw .unfinished
    if c.toNat < 0x20 then throw .malformed
    advance
    match c with
    | '"' => return []
    | '\\' =>
      let c ← escape paired
      return c :: (← stringBody paired fuel)
    | _ => return c :: (← stringBody paired fuel)

/-- Reads a string after its opening quote. -/
def string (paired : Bool) : Reader String := do
  return String.ofList (← stringBody paired ((← get).length + 1))

/-! ## Numbers -/

/-- A number that was read, as far as settings care. -/
inductive Number
  /-- A row of digits alone, within 64 bits. -/
  | natural (n : Nat)
  /-- Any other number. -/
  | other

/-- Reads digits. -/
def digits : Reader (List Char) := do
  let cs ← get
  set (cs.dropWhile Char.isDigit)
  return cs.takeWhile Char.isDigit

/-- The number that decimal digits spell. -/
def decimalNumber (ds : List Char) : Nat :=
  ds.foldl (fun total c => 10 * total + (c.toNat - '0'.toNat)) 0

/-- Reads at least one digit. `ending` is what the end of the text means here. -/
def someDigits (ending : SettingsFault) : Reader (List Char) := do
  let ds ← digits
  match ds, ← peek with
  | [], none => throw ending
  | [], some _ => throw .malformed
  | _, _ => return ds

/-- Reads the digits before the point. A zero stands alone. -/
def wholePart (ending : SettingsFault) : Reader (List Char) := do
  let ds ← someDigits ending
  match ds with
  | '0' :: _ :: _ => throw .malformed
  | _ => return ds

/-- Reads the fraction of a number, if it has one. -/
def fractionPart (ending : SettingsFault) : Reader (Option (List Char)) := do
  match ← peek with
  | some '.' =>
    advance
    return some (← someDigits ending)
  | _ => return none

/-- Reads the exponent of a number, if it has one. -/
def exponentPart (ending : SettingsFault) : Reader (Option Int) := do
  match ← peek with
  | some 'e' | some 'E' =>
    advance
    let sign ← peek
    if sign = some '+' || sign = some '-' then advance
    let size := decimalNumber (← someDigits ending)
    return some (if sign = some '-' then -(size : Int) else size)
  | _ => return none

/-- The nearest number whose first 53 bits are its only nonzero ones. Of two, the one that is even in
those bits. -/
def nearestDouble (n : Nat) : Nat :=
  let unit := Nat.pow 2 (n.log2 - 52)
  let whole := n / unit
  let half := 2 * (n % unit)
  if unit < half || (unit = half && whole % 2 = 1) then (whole + 1) * unit else whole * unit

/-- Whether `significand * 10 ^ exponent` is beyond every double, computed with doubles: both factors
are rounded before they are multiplied. A power of ten beyond every double is too large for any
significand but zero, and a significand of at most 64 bits only shrinks by a negative exponent. -/
def isBeyondDouble (significand : Nat) (exponent : Int) : Bool :=
  significand != 0 && (308 < exponent ||
    (0 ≤ exponent &&
      Nat.pow 2 1024 - Nat.pow 2 970 ≤
        nearestDouble significand * nearestDouble (Nat.pow 10 exponent.toNat)))

/-- The longest row of leading digits that spells a number within 64 bits, and how many digits are
left over. -/
def leadingDigits (ds : List Char) : Nat × Nat :=
  ds.foldl (fun (n, rest) c =>
    let more := 10 * n + (c.toNat - '0'.toNat)
    if rest = 0 && more < 0x10000000000000000 then (more, 0) else (n, rest + 1)) (0, 0)

/-- Reads a number without its sign. -/
def unsigned (negative : Bool) : Reader Number := do
  let whole ← wholePart .unfinished
  let fraction ← fractionPart .unfinished
  let exponent ← exponentPart .unfinished
  match leadingDigits whole, fraction, exponent, negative with
  | (n, 0), none, none, false => return .natural n
  | _, _, _, _ =>
    let fraction := fraction.getD []
    let (significand, rest) := leadingDigits (whole ++ fraction)
    if isBeyondDouble significand (exponent.getD 0 + rest - fraction.length) then throw .malformed
    else return .other

/-- Reads a number. -/
def number : Reader Number := do
  if (← peek) = some '-' then
    advance
    unsigned true
  else unsigned false

/-- Skips a number. -/
def skipNumber : Reader Unit := do
  if (← peek) = some '-' then advance
  let _ ← wholePart .malformed
  let _ ← fractionPart .malformed
  let _ ← exponentPart .malformed

end RelationSearch.SettingsText
