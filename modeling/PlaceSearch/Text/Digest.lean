import PlaceSearch.Decimal.Binary

/-!
# A digest of 256 bits

The hash function BLAKE3 of a text's UTF-8 bytes.  The bytes are cut into chunks of 1024 and
these into blocks of 64; each chunk chains its blocks, and the chunks are the leaves of a
binary tree whose left subtrees are complete.
-/

namespace PlaceSearch.Text

namespace Digest

/-- A list of 32-bit words. -/
abbrev Words := Array UInt32

/-- The initial chaining value. -/
def start : Words :=
  #[0x6A09E667, 0xBB67AE85, 0x3C6EF372, 0xA54FF53A, 0x510E527F, 0x9B05688C, 0x1F83D9AB,
    0x5BE0CD19]

/-- The order in which a round takes the words of the block of the round before. -/
def permutation : List Nat :=
  [2, 6, 3, 10, 7, 0, 4, 13, 1, 11, 12, 5, 9, 14, 15, 8]

/-- A word turned right by some bits. -/
def rotate (x count : UInt32) : UInt32 :=
  (x >>> count) ||| (x <<< (32 - count))

/-- The mixing of four words of a state with two words of a block. -/
def mix (v : Words) (a b c d : Nat) (x y : UInt32) : Words :=
  let get (i : Nat) : UInt32 := v.getD i 0
  let va := get a + get b + x
  let vd := rotate (get d ^^^ va) 16
  let vc := get c + vd
  let vb := rotate (get b ^^^ vc) 12
  let va := va + vb + y
  let vd := rotate (vd ^^^ va) 8
  let vc := vc + vd
  let vb := rotate (vb ^^^ vc) 7
  (((v.setIfInBounds a va).setIfInBounds b vb).setIfInBounds c vc).setIfInBounds d vd

/-- The four words that each of the eight mixings of a round takes: columns, then
diagonals. -/
def places : List (Nat × Nat × Nat × Nat) :=
  [(0, 4, 8, 12), (1, 5, 9, 13), (2, 6, 10, 14), (3, 7, 11, 15),
    (0, 5, 10, 15), (1, 6, 11, 12), (2, 7, 8, 13), (3, 4, 9, 14)]

/-- One round. -/
def round (v block : Words) : Words :=
  places.zipIdx.foldl (fun v ((a, b, c, d), i) =>
    mix v a b c d (block.getD (2 * i) 0) (block.getD (2 * i + 1) 0)) v

/-- Some rounds; the words of the block change places between two of them. -/
def rounds : Nat → Words → Words → Words
  | 0, v, _ => v
  | k + 1, v, block =>
    rounds k (round v block) ((permutation.map fun i => block.getD i 0).toArray)

/-- A compression that is still to be made: a chaining value, a block of sixteen words, a
counter, the number of bytes in the block, and flags. -/
structure Node where
  chain : Words
  block : Words
  counter : Nat
  size : Nat
  flags : UInt32

/-- The flags of the first and the last block of a chunk, of a parent and of the root. -/
def chunkStart : UInt32 := 1
@[inherit_doc chunkStart] def chunkEnd : UInt32 := 2
@[inherit_doc chunkStart] def parentFlag : UInt32 := 4
@[inherit_doc chunkStart] def rootFlag : UInt32 := 8

/-- The compression of one block: seven rounds, then the two halves of the state are added
without carry. -/
def compress (n : Node) : Words :=
  let v := n.chain ++ start.take 4 ++
    #[n.counter.toUInt32, (n.counter / twoPow 32).toUInt32, n.size.toUInt32, n.flags]
  let v := rounds 7 v n.block
  ((List.range 8).map fun i => v.getD i 0 ^^^ v.getD (i + 8) 0).toArray

/-- The word of four bytes, the least significant first. -/
def word (bytes : List UInt8) : UInt32 :=
  bytes.reverse.foldl (fun w b => w * 256 + b.toUInt32) 0

/-- The words of a block of bytes, filled up with zeros. -/
def words (bytes : List UInt8) : Words :=
  ((List.range 16).map fun i => word ((bytes.drop (4 * i)).take 4)).toArray

/-- The bytes in pieces of `size`; no bytes are one empty piece.  `fuel` bounds the number
of pieces. -/
def pieces (size : Nat) : Nat → List UInt8 → List (List UInt8)
  | 0, bytes => [bytes]
  | fuel + 1, bytes =>
    if bytes.length ≤ size then [bytes]
    else bytes.take size :: pieces size fuel (bytes.drop size)

/-- The last compression of a chunk whose blocks are given, after a chaining value. -/
def chunkFrom (counter : Nat) (flags : UInt32) (chain : Words) : List (List UInt8) → Node
  | [] => ⟨chain, words [], counter, 0, flags ||| chunkEnd⟩
  | [last] => ⟨chain, words last, counter, last.length, flags ||| chunkEnd⟩
  | block :: rest =>
    chunkFrom counter 0 (compress ⟨chain, words block, counter, block.length, flags⟩) rest

/-- The last compression of a chunk. -/
def chunk (bytes : List UInt8) (counter : Nat) : Node :=
  chunkFrom counter chunkStart start (pieces 64 16 bytes)

/-- The parent of two subtrees. -/
def parent (left right : Node) : Node :=
  ⟨start, compress left ++ compress right, 0, 64, parentFlag⟩

/-- The largest power of two below `n`, from `k` on. -/
def leftSize (n : Nat) : Nat → Nat → Nat
  | 0, k => k
  | fuel + 1, k => if 2 * k < n then leftSize n fuel (2 * k) else k

/-- The tree over some chunks; `fuel` bounds its height. -/
def tree : Nat → List Node → Node
  | 0, nodes => nodes.headD (chunk [] 0)
  | fuel + 1, nodes =>
    match nodes with
    | [] => chunk [] 0
    | [n] => n
    | nodes =>
      let k := leftSize nodes.length nodes.length 1
      parent (tree fuel (nodes.take k)) (tree fuel (nodes.drop k))

/-- The digest of some bytes, as eight words. -/
def root (bytes : List UInt8) : Words :=
  let chunks := (pieces 1024 bytes.length bytes).zipIdx.map fun (c, i) => chunk c i
  let n := tree chunks.length chunks
  compress { n with flags := n.flags ||| rootFlag }

def hexDigit (n : Nat) : Char :=
  if n < 10 then Char.ofNat ('0'.toNat + n) else Char.ofNat ('a'.toNat + (n - 10))

/-- The eight hexadecimal digits of a word, the least significant byte first. -/
def hexWord (w : UInt32) : List Char :=
  let w := w.toNat
  [0, 1, 2, 3].flatMap fun i =>
    let b := w / twoPow (8 * i) % 256
    [hexDigit (b / 16), hexDigit (b % 16)]

def hex (ws : Words) : List Char :=
  (List.range 8).flatMap fun i => hexWord (ws.getD i 0)

theorem length_hexWord (w : UInt32) : (hexWord w).length = 8 := rfl

/-- A digest has 64 hexadecimal digits. -/
theorem length_hex (ws : Words) : (hex ws).length = 64 := rfl

end Digest

def digest (s : String) : String :=
  String.ofList (Digest.hex (Digest.root s.toUTF8.toList))

end PlaceSearch.Text
