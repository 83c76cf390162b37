/-!
# The pseudorandom stream of a seed

A 64-bit seed is stretched to a 256-bit key, and the stream of that key is read as 32-bit words. The
stream is ChaCha with eight rounds, a 64-bit block counter from zero and a zero stream number: word
`i` is word `i % 16` of block `i / 16`.
-/
namespace RelationSearch.Keystream

/-- A word turned left. -/
def rotateLeft (x : UInt32) (k : UInt32) : UInt32 :=
  (x <<< k) ||| (x >>> (32 - k))

/-- A word turned right; turning by zero leaves it. -/
def rotateRight (x : UInt32) (k : UInt32) : UInt32 :=
  if k = 0 then x else rotateLeft x (32 - k)

/-! ## From the seed to the key -/

/-- One step of the generator that stretches seeds: a linear congruence modulo 2^64. -/
def nextState (state : UInt64) : UInt64 :=
  state * 6364136223846793005 + 11634580027462260723

/-- The word that a state of that generator gives: some of its high bits, turned by the topmost. -/
def stateWord (state : UInt64) : UInt32 :=
  rotateRight (((state >>> 18) ^^^ state) >>> 27).toUInt32 (state >>> 59).toUInt32

/-- The first words that follow a state. -/
def stretch (state : UInt64) : Nat → List UInt32
  | 0 => []
  | count + 1 =>
    let state := nextState state
    stateWord state :: stretch state count

/-- The key of a seed. -/
def keyOfSeed (seed : UInt64) : List UInt32 := stretch seed 8

@[simp] theorem length_stretch (state : UInt64) (count : Nat) :
    (stretch state count).length = count := by
  induction count generalizing state with
  | zero => rfl
  | succ count ih => simp [stretch, ih]

/-! ## From the key to the stream -/

/-- A block: sixteen words, seen as a square of four rows. -/
abbrev Block := Vector UInt32 16

/-- Replaces a word of a block. -/
def put (s : Block) (i : Fin 16) (x : UInt32) : Block := s.set i.val x i.isLt

/-- Stirs four words of a block. -/
def quarterRound (s : Block) (a b c d : Fin 16) : Block :=
  let s := put s a (s[a] + s[b])
  let s := put s d (rotateLeft (s[d] ^^^ s[a]) 16)
  let s := put s c (s[c] + s[d])
  let s := put s b (rotateLeft (s[b] ^^^ s[c]) 12)
  let s := put s a (s[a] + s[b])
  let s := put s d (rotateLeft (s[d] ^^^ s[a]) 8)
  let s := put s c (s[c] + s[d])
  put s b (rotateLeft (s[b] ^^^ s[c]) 7)

/-- Stirs the columns of a block, then its diagonals. -/
def doubleRound (s : Block) : Block :=
  let s := quarterRound s 0 4 8 12
  let s := quarterRound s 1 5 9 13
  let s := quarterRound s 2 6 10 14
  let s := quarterRound s 3 7 11 15
  let s := quarterRound s 0 5 10 15
  let s := quarterRound s 1 6 11 12
  let s := quarterRound s 2 7 8 13
  quarterRound s 3 4 9 14

/-- The first row of every block. -/
def constants : List UInt32 := [0x61707865, 0x3320646e, 0x79622d32, 0x6b206574]

/-- The last row of a block: the two halves of the counter, low one first, and the stream number. -/
def position (counter : UInt64) : List UInt32 :=
  [counter.toUInt32, (counter >>> 32).toUInt32, 0, 0]

/-- The block before stirring: the constants, the key, and the position in the stream. -/
def initialBlock (key : List UInt32) (counter : UInt64) : Block :=
  let words := constants ++ key ++ position counter
  Vector.ofFn fun i : Fin 16 => words.getD i.val 0

/-- A block of the stream: eight rounds, added to the block before stirring. -/
def block (key : List UInt32) (counter : UInt64) : Block :=
  let start := initialBlock key counter
  let stirred := doubleRound (doubleRound (doubleRound (doubleRound start)))
  Vector.ofFn fun i : Fin 16 => start[i] + stirred[i]

/-- A word of the stream. -/
def word (key : List UInt32) (i : Nat) : UInt32 :=
  (block key (UInt64.ofNat (i / 16)))[(Fin.ofNat 16 i)]

end RelationSearch.Keystream
