import ScenarioLint.Text

/-!
The BLAKE3 digest of a list of bytes.

The bytes are cut into chunks of 1024 and those into blocks of 64.  Each chunk is compressed block
by block into a chaining value, and the chaining values are combined in a binary tree whose left
half is always a full one.
-/

namespace ScenarioLint.Digest

/-- Eight words that sum up what has been compressed. -/
abbrev Chain := Vector UInt32 8

abbrev Block := Vector UInt32 16

def initial : Chain :=
  #v[0x6A09E667, 0xBB67AE85, 0x3C6EF372, 0xA54FF53A, 0x510E527F, 0x9B05688C, 0x1F83D9AB, 0x5BE0CD19]

def chunkStart : UInt32 := 1

def chunkEnd : UInt32 := 2

/-- The flag of a block that combines two chaining values. -/
def parent : UInt32 := 4

/-- The flag of the block that gives the digest. -/
def root : UInt32 := 8

def rotate (w count : UInt32) : UInt32 :=
  (w >>> count) ||| (w <<< (32 - count))

/-- Mixes two words of a block into four words of the state. -/
def mix (s : Block) (a b c d : Fin 16) (x y : UInt32) : Block :=
  let s := s.set a (s[a] + s[b] + x)
  let s := s.set d (rotate (s[d] ^^^ s[a]) 16)
  let s := s.set c (s[c] + s[d])
  let s := s.set b (rotate (s[b] ^^^ s[c]) 12)
  let s := s.set a (s[a] + s[b] + y)
  let s := s.set d (rotate (s[d] ^^^ s[a]) 8)
  let s := s.set c (s[c] + s[d])
  s.set b (rotate (s[b] ^^^ s[c]) 7)

/-- Mixes a whole block into the state, first down the columns and then along the diagonals. -/
def mixRound (s m : Block) : Block :=
  let s := mix s 0 4 8 12 m[0] m[1]
  let s := mix s 1 5 9 13 m[2] m[3]
  let s := mix s 2 6 10 14 m[4] m[5]
  let s := mix s 3 7 11 15 m[6] m[7]
  let s := mix s 0 5 10 15 m[8] m[9]
  let s := mix s 1 6 11 12 m[10] m[11]
  let s := mix s 2 7 8 13 m[12] m[13]
  mix s 3 4 9 14 m[14] m[15]

/-- The order in which the next round takes the words of a block. -/
def permute (m : Block) : Block :=
  #v[m[2], m[6], m[3], m[10], m[7], m[0], m[4], m[13], m[1], m[11], m[12], m[5], m[9], m[14], m[15],
    m[8]]

/-- A number of rounds, each with the words in the order after the last one. -/
def rounds : Nat → Block → Block → Block
  | 0, s, _ => s
  | n + 1, s, m => rounds n (mixRound s m) (permute m)

/-- Compresses a block of `size` bytes into a chaining value. -/
def compress (chain : Chain) (m : Block) (counter : UInt64) (size flags : UInt32) : Chain :=
  let low := counter.toUInt32
  let high := (counter >>> 32).toUInt32
  let s : Block := #v[
    chain[0], chain[1], chain[2], chain[3], chain[4], chain[5], chain[6], chain[7],
    initial[0], initial[1], initial[2], initial[3], low, high, size, flags]
  let s := rounds 7 s m
  .ofFn fun i : Fin 8 => s[i.val] ^^^ s[i.val + 8]

/-- The words of at most 64 bytes, the low byte of each word first and zeros at the end. -/
def blockOf (bytes : List UInt8) : Block :=
  let padded := bytes.toArray
  let byte (i : Nat) : UInt32 := (padded[i]?.getD 0).toUInt32
  .ofFn fun i : Fin 16 =>
    byte (4 * i) ||| (byte (4 * i + 1) <<< 8) ||| (byte (4 * i + 2) <<< 16) |||
      (byte (4 * i + 3) <<< 24)

/-- Compresses the blocks of a chunk from a block on.  `more` are the flags of the block that ends
    the chunk. -/
def chunkFrom (counter : UInt64) (more : UInt32) : Nat → Chain → UInt32 → List UInt8 → Chain
  | 0, chain, _, _ => chain
  | fuel + 1, chain, flags, bytes =>
    let rest := bytes.drop 64
    let m := blockOf (bytes.take 64)
    if rest.isEmpty then
      compress chain m counter (UInt32.ofNat bytes.length) (flags ||| chunkEnd ||| more)
    else chunkFrom counter more fuel (compress chain m counter 64 flags) 0 rest

def chunk (counter : UInt64) (more : UInt32) (bytes : List UInt8) : Chain :=
  chunkFrom counter more 16 initial chunkStart bytes

def combine (more : UInt32) (left right : Chain) : Chain :=
  compress initial (left ++ right) 0 64 (parent ||| more)

/-- The number of chunks in the left half of a tree: the greatest power of two below the number of
    its chunks. -/
def leftHalf (chunks : Nat) : Nat :=
  Nat.pow 2 (Nat.log2 (chunks - 1))

/-- The chaining value of bytes whose first chunk has the given number. -/
def tree : Nat → UInt64 → UInt32 → List UInt8 → Chain
  | 0, counter, more, bytes => chunk counter more bytes
  | fuel + 1, counter, more, bytes =>
    let chunks := (bytes.length + 1023) / 1024
    if chunks ≤ 1 then chunk counter more bytes
    else
      let half := leftHalf chunks
      combine more (tree fuel counter 0 (bytes.take (1024 * half)))
        (tree fuel (counter + UInt64.ofNat half) 0 (bytes.drop (1024 * half)))

def wordBytes (w : UInt32) : List UInt8 :=
  [w.toUInt8, (w >>> 8).toUInt8, (w >>> 16).toUInt8, (w >>> 24).toUInt8]

/-- The digest of 32 bytes. -/
def ofBytes (bytes : List UInt8) : List UInt8 :=
  (tree (Nat.log2 bytes.length + 1) 0 root bytes).toList.flatMap wordBytes

def hex (bytes : List UInt8) : Text :=
  bytes.flatMap fun b => [Nat.digitChar (b.toNat / 16), Nat.digitChar (b.toNat % 16)]

end ScenarioLint.Digest
