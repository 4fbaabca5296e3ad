import LineTally.Text.Utf8

/-!
# BLAKE3

The 256-bit BLAKE3 digest of a byte string, unkeyed.

The input is cut into chunks of 1024 bytes and a chunk into blocks of 64. The blocks of a chunk
are compressed one after the other into a chaining value of eight words, with flags on the first
and the last. The chunks are the leaves of a binary tree whose left subtrees are full: such a tree
is what joining neighbours gives, level by level, when a node left over at the end of a level moves
up unchanged (`joinPairs`). A `Node` is therefore kept as the arguments of its last compression: it
is finished as a chaining value below the root and with the root flag at the root.
-/

set_option autoImplicit false

namespace LineTally.Blake3

/-- Eight words: a chaining value or a digest. -/
abbrev Words8 := Vector UInt32 8

/-- Sixteen words: a message block or the state of a compression. -/
abbrev Words16 := Vector UInt32 16

/-! ## Compression -/

def initial : Words8 :=
  #v[0x6A09E667, 0xBB67AE85, 0x3C6EF372, 0xA54FF53A, 0x510E527F, 0x9B05688C, 0x1F83D9AB, 0x5BE0CD19]

/-- A word turned right by `n` bits, for `0 < n < 32`. -/
def rotateRight (w n : UInt32) : UInt32 := (w >>> n) ||| (w <<< (32 - n))

/-- Mixes two message words into the words of the state at `a`, `b`, `c` and `d`. -/
def mix (s : Words16) (a b c d : Fin 16) (x y : UInt32) : Words16 :=
  let a₁ := s[a] + s[b] + x
  let d₁ := rotateRight (s[d] ^^^ a₁) 16
  let c₁ := s[c] + d₁
  let b₁ := rotateRight (s[b] ^^^ c₁) 12
  let a₂ := a₁ + b₁ + y
  let d₂ := rotateRight (d₁ ^^^ a₂) 8
  let c₂ := c₁ + d₂
  let b₂ := rotateRight (b₁ ^^^ c₂) 7
  (((s.set a a₂).set b b₂).set c c₂).set d d₂

/-- One round: the four columns of the state, then its four diagonals. -/
def round (s m : Words16) : Words16 :=
  let s := mix s 0 4 8 12 m[0] m[1]
  let s := mix s 1 5 9 13 m[2] m[3]
  let s := mix s 2 6 10 14 m[4] m[5]
  let s := mix s 3 7 11 15 m[6] m[7]
  let s := mix s 0 5 10 15 m[8] m[9]
  let s := mix s 1 6 11 12 m[10] m[11]
  let s := mix s 2 7 8 13 m[12] m[13]
  mix s 3 4 9 14 m[14] m[15]

def permute (m : Words16) : Words16 :=
  #v[m[2], m[6], m[3], m[10], m[7], m[0], m[4], m[13],
     m[1], m[11], m[12], m[5], m[9], m[14], m[15], m[8]]

/-- So many rounds, the message permuted from each to the next. -/
def rounds : Nat → Words16 → Words16 → Words16
  | 0, s, _ => s
  | n + 1, s, m => rounds n (round s m) (permute m)

structure Node where
  chaining : Words8
  block : Words16
  counter : Nat
  length : Nat
  flags : UInt32

def chunkStart : UInt32 := 1

def chunkEnd : UInt32 := 2

def parentFlag : UInt32 := 4

def rootFlag : UInt32 := 8

/-- The compression of a node with some flags added. -/
def Node.compress (n : Node) (flags : UInt32) : Words8 :=
  let h := n.chaining
  let s : Words16 :=
    #v[h[0], h[1], h[2], h[3], h[4], h[5], h[6], h[7],
       initial[0], initial[1], initial[2], initial[3],
       UInt32.ofNat n.counter, UInt32.ofNat (n.counter / 0x100000000),
       UInt32.ofNat n.length, n.flags ||| flags]
  let t := rounds 7 s n.block
  #v[t[0] ^^^ t[8], t[1] ^^^ t[9], t[2] ^^^ t[10], t[3] ^^^ t[11],
     t[4] ^^^ t[12], t[5] ^^^ t[13], t[6] ^^^ t[14], t[7] ^^^ t[15]]

/-- What a node below the root passes to its parent. -/
def Node.output (n : Node) : Words8 := n.compress 0

/-! ## Chunks -/

/-- The machine that cuts its input into pieces of `n` letters; its state is the piece that has
begun, last letter first, and how many letters it has. -/
def cutter (α : Type) (n : Nat) : Transducer (List α × Nat) α (List α) where
  start := ([], 0)
  step s x :=
    if s.2 + 1 < n then ((x :: s.1, s.2 + 1), []) else (([], 0), [(x :: s.1).reverse])
  finish s := if s.1.isEmpty then [] else [s.1.reverse]

/-- A list cut into pieces of `n` letters, the last one shorter when it does not come out even. -/
def piecesOf {α : Type} (n : Nat) (xs : List α) : List (List α) :=
  (cutter α n).run xs

/-- The word whose bytes are given, least significant first; missing bytes are zero. -/
def wordOfBytes (bytes : Bytes) : UInt32 :=
  bytes.foldr (fun b w => w <<< 8 ||| b.toUInt32) 0

/-- A block of at most 64 bytes as words, filled up with zeros. -/
def blockOfBytes (bytes : Bytes) : Words16 :=
  let words := ((piecesOf 4 bytes).map wordOfBytes).toArray
  Vector.ofFn fun i => words.getD i 0

/-- Compresses the blocks of a chunk one after the other, leaving the last one as the chunk's node. -/
def absorb (counter : Nat) : Words8 → UInt32 → Bytes → List Bytes → Node
  | h, start, block, [] => ⟨h, blockOfBytes block, counter, block.length, start ||| chunkEnd⟩
  | h, start, block, next :: rest =>
    absorb counter (Node.output ⟨h, blockOfBytes block, counter, block.length, start⟩) 0 next rest

/-- The node of the chunk with the given number. The empty input is one chunk with an empty
block. -/
def chunk (counter : Nat) (bytes : Bytes) : Node :=
  match piecesOf 64 bytes with
  | [] => absorb counter initial chunkStart [] []
  | block :: rest => absorb counter initial chunkStart block rest

/-! ## The tree -/

def parent (left right : Node) : Node :=
  ⟨initial, left.output ++ right.output, 0, 64, parentFlag⟩

/-- One level up: neighbours are joined, and a node left over moves up as it is. -/
def joinPairs : List Node → List Node
  | left :: right :: rest => parent left right :: joinPairs rest
  | nodes => nodes

/-- The root of the tree over some nodes, after at most so many levels. -/
def rootWithin : Nat → Node → List Node → Node
  | _, first, [] => first
  | 0, first, _ => first
  | levels + 1, first, second :: rest =>
    match joinPairs (first :: second :: rest) with
    | [] => first
    | first :: rest => rootWithin levels first rest

/-- The root of the tree over `first` and the nodes after it. Every level is shorter than the one
below it, so there are no more levels than nodes. -/
def root (first : Node) (rest : List Node) : Node :=
  rootWithin rest.length first rest

def leaves (bytes : Bytes) : List Node :=
  (piecesOf 1024 bytes).zipIdx.map fun (piece, i) => chunk i piece

def rootOf (bytes : Bytes) : Node :=
  match leaves bytes with
  | [] => chunk 0 []
  | first :: rest => root first rest

def bytesOfWord (w : UInt32) : Bytes :=
  [w.toUInt8, (w >>> 8).toUInt8, (w >>> 16).toUInt8, (w >>> 24).toUInt8]

def digest (bytes : Bytes) : Bytes :=
  ((rootOf bytes).compress rootFlag).toList.flatMap bytesOfWord

end LineTally.Blake3
