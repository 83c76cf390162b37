import RelationSearch.Text.Emoji
import RelationSearch.Text.Width

/-!
# Columns of characters in a row

Some characters in a row take other columns than they do one by one:

* an emoji takes two columns with all that belongs to it: selectors, a skin tone, tags, and other emoji
  that are joined to it; a selector for text makes an emoji narrow;
* some letters are written as one: lam and alef, and letters joined in Hebrew, Buginese, Tifinagh, Lisu
  and Old Turkic; a Khmer consonant under another takes no column;
* a control takes one column, like a character that is shown.

All of these are decided from the end of the text: what a character adds depends on what comes after
it, and a `Lead` says as much of that as matters. `rowColumns_of_basic` says that none of it concerns
a text of the first code points, controls included: it has a column for each character.
-/
namespace RelationSearch.Text

/-- A letter that may be written as one with what is in front of it. -/
inductive Ligature
  /-- An Arabic alef. -/
  | alef
  /-- A Hebrew lamed. -/
  | lamed
  /-- A Buginese ya. -/
  | ya
  /-- A Buginese vowel sign i, joined to a ya. -/
  | vowelYa
  /-- A Tifinagh consonant. -/
  | consonant
  /-- A Tifinagh consonant joiner and a consonant. -/
  | joinedConsonant
  /-- A Lisu tone letter. -/
  | tone
  /-- An Old Turkic letter i. -/
  | orkhonI
  /-- A Khmer letter that may stand under another. -/
  | subjoined
  deriving Repr, DecidableEq, Inhabited

/-- What the rest of a text begins with, as far as that changes the columns of what is in front. -/
inductive Lead
  /-- Nothing of interest. -/
  | plain
  /-- An emoji in colour with all that belongs to it. -/
  | emoji
  /-- A skin tone. -/
  | tone
  /-- So many regional indicators. -/
  | indicators (count : Nat)
  /-- A joiner and an emoji that waits for another one in front. -/
  | joined
  /-- The same with a keycap in front. -/
  | joinedKeycap
  /-- The same with so many regional indicators in front. -/
  | joinedIndicators (count : Nat)
  /-- The same with the end of a tag in front: so many letters, and so many digits in front of them. -/
  | joinedTag (letters digits : Nat)
  /-- A letter of a ligature. `hasJoiner` tells whether a joiner is in front of it. -/
  | ligature (letter : Ligature) (hasJoiner : Bool)
  deriving Repr, DecidableEq, Inhabited

/-- The styles that a variation selector asks for. -/
inductive EmojiStyle
  | text
  | colour
  deriving Repr, DecidableEq, Inhabited

/-- What the rest of a text begins with, and a selector in front of that. -/
structure Ahead where
  lead : Lead := .plain
  selector : Option EmojiStyle := none
  deriving Repr, DecidableEq, Inhabited

/-- Whether joiners and ignorable marks may stand between a letter and the rest of its ligature. -/
def Ligature.isSpaced : Ligature → Bool
  | .alef => false
  | _ => true

/-- What stays of the lead when a selector comes in front of it. -/
def Lead.selected (lead : Lead) (style : EmojiStyle) : Lead :=
  match lead, style with
  | .ligature letter hasJoiner, _ => .ligature letter hasJoiner
  | .joined, .colour => .joined
  | .joinedKeycap, .colour => .joinedKeycap
  | _, _ => .plain

/-- What stays of the lead when a selector in front of it selects nothing. -/
def Lead.unselected : Lead → Lead
  | .ligature letter hasJoiner => .ligature letter hasJoiner
  | _ => .plain

/-- Ignorable marks, which do not part the letters of a ligature. -/
def isIgnorableMark (c : Char) : Bool :=
  Ranges.contains #[(0x34f, 0x34f), (0x17b4, 0x17b5), (0x180b, 0x180d), (0x180f, 0x180f),
    (0x200d, 0x200d), (0xfe00, 0xfe0f), (0xe0100, 0xe01ef)] c

/-- Code points of no column that part a lam from an alef. -/
def joiningBarriers : Ranges := #[
  (0x605, 0x605), (0x890, 0x891), (0x8e2, 0x8e2), (0x9be, 0x9be), (0x9d7, 0x9d7), (0xb3e, 0xb3e),
  (0xb57, 0xb57), (0xbbe, 0xbbe), (0xbd7, 0xbd7), (0xcc0, 0xcc0), (0xcc2, 0xcc2), (0xcc7, 0xcc8),
  (0xcca, 0xccb), (0xcd5, 0xcd6), (0xd3e, 0xd3e), (0xd4e, 0xd4e), (0xd57, 0xd57), (0xdcf, 0xdcf),
  (0xddf, 0xddf), (0x1160, 0x11ff), (0x180e, 0x180e), (0x1b35, 0x1b35), (0x1b3b, 0x1b3b),
  (0x1b3d, 0x1b3d), (0x1b43, 0x1b43), (0x200c, 0x200d), (0x2065, 0x2069), (0x302e, 0x302f),
  (0x3164, 0x3164), (0xa8fa, 0xa8fa), (0xd7b0, 0xd7c6), (0xd7cb, 0xd7fb), (0xff9e, 0xffa0),
  (0xfff0, 0xfff8), (0x111c2, 0x111c3), (0x1133e, 0x1133e), (0x11357, 0x11357), (0x114b0, 0x114b0),
  (0x114bd, 0x114bd), (0x115af, 0x115af), (0x11930, 0x11930), (0x1193f, 0x1193f),
  (0x11941, 0x11941), (0x11a3a, 0x11a3a), (0x11a84, 0x11a89), (0x11d46, 0x11d46),
  (0x11f02, 0x11f02), (0x1d165, 0x1d165), (0x1d16e, 0x1d172), (0xe0000, 0xe0000),
  (0xe0002, 0xe001f), (0xe0080, 0xe00ff), (0xe01f0, 0xe0fff)]

/-- Marks that do not part a lam from an alef. -/
def isJoiningTransparent (c : Char) : Bool := charColumns c = 0 && !joiningBarriers.contains c

/-- The forms of the letter alef. -/
def isAlef (c : Char) : Bool :=
  Ranges.contains #[(0x622, 0x623), (0x625, 0x625), (0x627, 0x627), (0x671, 0x673), (0x675, 0x675),
    (0x773, 0x774), (0x870, 0x882)] c

/-- The forms of the letter lam. -/
def isLam (c : Char) : Bool :=
  Ranges.contains #[(0x644, 0x644), (0x6b5, 0x6b8), (0x76a, 0x76a), (0x8a6, 0x8a6),
    (0x8c7, 0x8c7)] c

/-- Tifinagh consonants. -/
def isTifinaghConsonant (c : Char) : Bool :=
  Ranges.contains #[(0x2d31, 0x2d65), (0x2d6f, 0x2d6f)] c

/-- Khmer letters that may stand under another. -/
def isSubjoinable (c : Char) : Bool :=
  Ranges.contains #[(0x1780, 0x1782), (0x1784, 0x1787), (0x1789, 0x178c), (0x178e, 0x1793),
    (0x1795, 0x1798), (0x179b, 0x179d), (0x17a0, 0x17a0), (0x17a2, 0x17a2), (0x17a7, 0x17a7),
    (0x17ab, 0x17ac), (0x17af, 0x17af)] c

/-- The letter that a character brings into a ligature. -/
def ligature? (c : Char) : Option Ligature :=
  if isAlef c then some .alef
  else if c.toNat = 0x5dc then some .lamed
  else if c.toNat = 0x1a10 then some .ya
  else if isTifinaghConsonant c then some .consonant
  else if c.toNat = 0xa4fc || c.toNat = 0xa4fd then some .tone
  else if c.toNat = 0x10c03 then some .orkhonI
  else if isSubjoinable c then some .subjoined
  else none

/-- What a character is when nothing after it matters. -/
def Lead.ofChar (c : Char) : Lead :=
  if isIndicator c then .indicators 1
  else if isTone c then .tone
  else if colourEmoji.contains c then .emoji
  else match ligature? c with
    | some letter => .ligature letter false
    | none => .plain

/-- The zero width joiner. -/
def joiner : Char := '\u200d'

/-- A character in front of a ligature's letter: the columns it adds and the new lead, if the two go
together. -/
def Ligature.inFront? (c : Char) (letter : Ligature) (hasJoiner : Bool) : Option (Int × Lead) :=
  match letter with
  | .alef =>
    if isLam c then some (0, .plain)
    else if isJoiningTransparent c then some (0, .ligature .alef hasJoiner)
    else none
  | .lamed => if hasJoiner && c.toNat = 0x5d0 then some (0, .plain) else none
  | .ya => if hasJoiner && c.toNat = 0x1a17 then some (0, .ligature .vowelYa false) else none
  | .vowelYa => if c.toNat = 0x1a15 then some (0, .plain) else none
  | .consonant =>
    if c.toNat = 0x2d7f then some (1, .ligature .joinedConsonant false)
    else if hasJoiner && isTifinaghConsonant c then some (0, .plain)
    else none
  | .joinedConsonant => if isTifinaghConsonant c then some (-1, .plain) else none
  | .tone => if 0xa4f8 ≤ c.toNat && c.toNat ≤ 0xa4fb then some (0, .plain) else none
  | .orkhonI => if hasJoiner && c.toNat = 0x10c32 then some (0, .plain) else none
  | .subjoined => if c.toNat = 0x17d2 then some (-1, .plain) else none

/-- A character in front of a joiner and an emoji: the columns it adds and the new lead, if it may
begin the emoji that is joined. -/
def joinedInFront? (c : Char) : Option (Int × Lead) :=
  if c.toNat = 0x20e3 then some (0, .joinedKeycap)
  else if isIndicator c then some (1, .joinedIndicators 1)
  else if isTone c then some (0, .tone)
  else if c.toNat = 0xe007f then some (0, .joinedTag 0 0)
  else if colourEmoji.contains c then some (0, .emoji)
  else none

/-- A character in front of a tag. A tag has three to six letters, or three digits before at most four
letters, and a flag in front. -/
def tagInFront? (c : Char) (letters digits : Nat) : Option (Int × Lead) :=
  if isTagLetter c && digits = 0 && letters < 6 then some (0, .joinedTag (letters + 1) 0)
  else if isTagDigit c && digits < 3 && (digits ≠ 0 || letters ≤ 4) then
    some (0, .joinedTag letters (digits + 1))
  else if c.toNat = 0x1f3f4 && (if digits = 0 then 3 ≤ letters else digits = 3) then some (0, .emoji)
  else none

/-- A character in front of a lead: the columns it adds and the new lead, if the two go together. -/
def Lead.inFront? (c : Char) : Lead → Option (Int × Lead)
  | .plain => none
  | .emoji => if c = joiner then some (0, .joined) else none
  | .tone =>
    if toneBases.contains c then some (0, .emoji)
    else if c = joiner then some (0, .joined)
    else none
  | .indicators count =>
    if isIndicator c then some (1, .indicators (count + 1))
    else if c = joiner && 1 < count then some (0, .joined)
    else none
  | .joined => joinedInFront? c
  | .joinedKeycap => none
  | .joinedIndicators count =>
    if isIndicator c then some (if count % 2 = 1 then -1 else 3, .joinedIndicators (count + 1))
    else if c = joiner && 1 < count then some (0, .joined)
    else none
  | .joinedTag letters digits => tagInFront? c letters digits
  | .ligature letter hasJoiner =>
    if letter.isSpaced && c = joiner then some (0, .ligature letter true)
    else if letter.isSpaced && isIgnorableMark c then some (0, .ligature letter hasJoiner)
    else letter.inFront? c hasJoiner

/-- A character in front of a lead, with no selector between them. -/
def columnsAtLead (c : Char) (lead : Lead) : Int × Ahead :=
  if c.toNat ≤ 0xa0 then (1, {})
  else if c.toNat = 0xfe0f then (0, { lead := lead.selected .colour, selector := some .colour })
  else if c.toNat = 0xfe0e then (0, { lead := lead.selected .text, selector := some .text })
  else
    match lead.inFront? c with
    | some (count, lead) => (count, { lead })
    | none => (charColumns c, { lead := .ofChar c })

/-- The columns that a character adds in front of a text, and what the text then begins with. -/
def columnsInFront (c : Char) (ahead : Ahead) : Int × Ahead :=
  match ahead.selector with
  | none => columnsAtLead c ahead.lead
  | some .colour =>
    if takesColour c then
      (if ahead.lead = .joined || ahead.lead = .joinedKeycap then 0 else 2, { lead := .emoji })
    else columnsAtLead c ahead.lead.unselected
  | some .text =>
    if takesText c then (1, {}) else columnsAtLead c ahead.lead.unselected

/-- The columns of some characters in a row, and what the row begins with. -/
def scanRow (chars : List Char) : Int × Ahead :=
  chars.foldr (fun c (total, ahead) =>
    let (count, ahead) := columnsInFront c ahead
    (total + count, ahead)) (0, {})

/-- The columns of some characters in a row. -/
def rowColumns (chars : List Char) : Nat := (scanRow chars).1.toNat

/-- A character of the first two blocks takes one column, and nothing in front of it depends on it. -/
theorem columnsInFront_of_basic {c : Char} (basic : c.toNat ≤ 0xa0) :
    columnsInFront c {} = (1, {}) := by
  simp [columnsInFront, columnsAtLead, basic]

/-- Characters of the first two blocks take one column each. -/
theorem scanRow_of_basic {chars : List Char} (basic : ∀ c ∈ chars, c.toNat ≤ 0xa0) :
    scanRow chars = ((chars.length : Int), {}) := by
  induction chars with
  | nil => rfl
  | cons c rest ih =>
    have rest_basic : ∀ d ∈ rest, d.toNat ≤ 0xa0 := fun d hd => basic d (List.mem_cons_of_mem _ hd)
    have tail := ih rest_basic
    simp only [scanRow] at tail
    simp [scanRow, tail, columnsInFront_of_basic (basic c List.mem_cons_self)]

/-- A row of basic characters has as many columns as characters. -/
theorem rowColumns_of_basic {chars : List Char} (basic : ∀ c ∈ chars, c.toNat ≤ 0xa0) :
    rowColumns chars = chars.length := by
  simp [rowColumns, scanRow_of_basic basic]

end RelationSearch.Text
