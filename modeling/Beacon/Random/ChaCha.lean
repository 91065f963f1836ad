/-!
# The ChaCha stream of words

ChaCha with twelve rounds as a source of random words: the words of block 0, block 1, and so on,
each block a function of a 256-bit key and its 64-bit number. A generator is a key and a position
in this stream, so equal generators give equal words for ever.
-/

namespace Beacon.Random

/-- The sixteen words that a block works on. -/
abbrev Block := Vector UInt32 16

/-- A key of 256 bits. -/
abbrev Key := Vector UInt32 8

/-- A word turned left by some bits. -/
def rotateLeft (x : UInt32) (bits : UInt32) : UInt32 := (x <<< bits) ||| (x >>> (32 - bits))

/-- A word turned right by some bits. -/
def rotateRight (x : UInt32) (bits : UInt32) : UInt32 := (x >>> bits) ||| (x <<< (32 - bits))

/-- One quarter of a round, on the words at four places. -/
def quarterRound (a b c d : Fin 16) (s : Block) : Block :=
  let s := s.set a (s[a] + s[b])
  let s := s.set d (rotateLeft (s[d] ^^^ s[a]) 16)
  let s := s.set c (s[c] + s[d])
  let s := s.set b (rotateLeft (s[b] ^^^ s[c]) 12)
  let s := s.set a (s[a] + s[b])
  let s := s.set d (rotateLeft (s[d] ^^^ s[a]) 8)
  let s := s.set c (s[c] + s[d])
  s.set b (rotateLeft (s[b] ^^^ s[c]) 7)

/-- A round on the columns, then a round on the diagonals. -/
def doubleRound (s : Block) : Block :=
  let s := quarterRound 0 4 8 12 s
  let s := quarterRound 1 5 9 13 s
  let s := quarterRound 2 6 10 14 s
  let s := quarterRound 3 7 11 15 s
  let s := quarterRound 0 5 10 15 s
  let s := quarterRound 1 6 11 12 s
  let s := quarterRound 2 7 8 13 s
  quarterRound 3 4 9 14 s

/-- The block that the rounds start from: four constants, the key, the number of the block in two
words, and two zeros. -/
def initialBlock (key : Key) (number : UInt64) : Block :=
  (#v[0x61707865, 0x3320646e, 0x79622d32, 0x6b206574] : Vector UInt32 4) ++ key ++
    (#v[number.toUInt32, (number >>> 32).toUInt32, 0, 0] : Vector UInt32 4)

/-- A block of the stream: twelve rounds, then the block that they started from added. -/
def streamBlock (key : Key) (number : UInt64) : Block :=
  let start := initialBlock key number
  let mixed := Nat.repeat doubleRound 6 start
  mixed.zipWith (· + ·) start

/-- The word at a position of the stream. -/
def streamWord (key : Key) (position : Nat) : UInt32 :=
  (streamBlock key (UInt64.ofNat (position / 16))).get (Fin.ofNat 16 position)

/-- A source of random words: a key, and how many words have been taken. -/
structure Generator where
  key : Key
  position : Nat
  deriving DecidableEq, Repr

namespace Generator

/-- The next word. -/
def word (g : Generator) : UInt32 × Generator :=
  (streamWord g.key g.position, { g with position := g.position + 1 })

/-- The next two words as one of 64 bits, the low one first. -/
def wide (g : Generator) : UInt64 × Generator :=
  let (low, g) := g.word
  let (high, g) := g.word
  (high.toUInt64 <<< 32 ||| low.toUInt64, g)

/-- One step of the sequence that spreads a seed over a key. -/
def spread (state : UInt64) : UInt64 := state * 6364136223846793005 + 11634580027462260723

/-- The key word of a state of that sequence. -/
def keyWord (state : UInt64) : UInt32 :=
  rotateRight (((state >>> 18) ^^^ state) >>> 27).toUInt32 (state >>> 59).toUInt32

/-- The key of a seed: the words of the eight states after it. -/
def seedKey (seed : UInt64) : Key :=
  Vector.ofFn fun i => keyWord (Nat.repeat spread (i.val + 1) seed)

/-- A generator at the start of the stream of a seed. -/
def ofSeed (seed : UInt64) : Generator := ⟨seedKey seed, 0⟩

end Generator

end Beacon.Random
