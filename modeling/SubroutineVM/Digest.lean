import SubroutineVM.Hex

/-!
The BLAKE3 digest of bytes, 256 bits without a key. The bytes are cut into chunks of 1024 bytes
and the chunks into blocks of 64; a binary tree joins the chunks, and its root is compressed
with a flag of its own.
-/
namespace SubroutineVM.Digest

abbrev Chaining := Vector UInt32 8

abbrev Words := Vector UInt32 16

def initial : Chaining :=
  #v[0x6a09e667, 0xbb67ae85, 0x3c6ef372, 0xa54ff53a, 0x510e527f, 0x9b05688c, 0x1f83d9ab, 0x5be0cd19]

def order : Vector (Fin 16) 16 := #v[2, 6, 3, 10, 7, 0, 4, 13, 1, 11, 12, 5, 9, 14, 15, 8]

def permute (message : Words) : Words := Vector.ofFn fun i => message[order[i]]

def rotateRight (x n : UInt32) : UInt32 := x >>> n ||| x <<< (32 - n)

def quarter (v : Words) (a b c d : Fin 16) (x y : UInt32) : Words :=
  let va := v[a] + v[b] + x
  let vd := rotateRight (v[d] ^^^ va) 16
  let vc := v[c] + vd
  let vb := rotateRight (v[b] ^^^ vc) 12
  let va := va + vb + y
  let vd := rotateRight (vd ^^^ va) 8
  let vc := vc + vd
  let vb := rotateRight (vb ^^^ vc) 7
  (((v.set a va).set b vb).set c vc).set d vd

def round (v m : Words) : Words :=
  let v := quarter v 0 4 8 12 m[0] m[1]
  let v := quarter v 1 5 9 13 m[2] m[3]
  let v := quarter v 2 6 10 14 m[4] m[5]
  let v := quarter v 3 7 11 15 m[6] m[7]
  let v := quarter v 0 5 10 15 m[8] m[9]
  let v := quarter v 1 6 11 12 m[10] m[11]
  let v := quarter v 2 7 8 13 m[12] m[13]
  quarter v 3 4 9 14 m[14] m[15]

def rounds : Nat → Words → Words → Words
  | 0, v, _ => v
  | n + 1, v, message => rounds n (round v message) (permute message)

namespace Flag

def chunkStart : UInt32 := 1
def chunkEnd : UInt32 := 2
def parent : UInt32 := 4
def root : UInt32 := 8

end Flag

/-- A compression that has not been made yet, since the root makes it with one flag more. -/
structure Node where
  chaining : Chaining
  message : Words
  counter : Nat
  length : Nat
  flags : UInt32

namespace Node

def compress (node : Node) (more : UInt32) : Chaining :=
  let h := node.chaining
  let start : Words :=
    #v[h[0], h[1], h[2], h[3], h[4], h[5], h[6], h[7],
      initial[0], initial[1], initial[2], initial[3],
      UInt32.ofNat node.counter, UInt32.ofNat (node.counter >>> 32),
      UInt32.ofNat node.length, node.flags ||| more]
  let v := rounds 7 start node.message
  Vector.ofFn fun i : Fin 8 => v[i.val] ^^^ v[i.val + 8]

def value (node : Node) : Chaining := node.compress 0

end Node

def wordAt (bytes : Array UInt8) (i : Nat) : UInt32 :=
  let byte (k : Nat) : UInt32 := (bytes[4 * i + k]?.getD 0).toUInt32
  byte 0 ||| byte 1 <<< 8 ||| byte 2 <<< 16 ||| byte 3 <<< 24

def blockWords (block : List UInt8) : Words :=
  let bytes := block.toArray
  Vector.ofFn fun i => wordAt bytes i

def chunk (counter : Nat) (chaining : Chaining) (flags : UInt32) (bytes : List UInt8) : Node :=
  if bytes.length ≤ 64 then
    ⟨chaining, blockWords bytes, counter, bytes.length, flags ||| Flag.chunkEnd⟩
  else
    let first : Node := ⟨chaining, blockWords (bytes.take 64), counter, 64, flags⟩
    chunk counter first.value 0 (bytes.drop 64)
termination_by bytes.length
decreasing_by
  simp only [List.length_drop]
  omega

/-- The left part of a tree has a power of two of whole chunks and leaves something over. -/
def leftChunks (length : Nat) : Nat := 1 <<< ((length - 1) / 1024).log2

theorem leftChunks_lt {length : Nat} (h : 1024 < length) : 1024 * leftChunks length < length := by
  have whole : (length - 1) / 1024 ≠ 0 := by omega
  have below := Nat.log2_self_le whole
  rw [leftChunks, Nat.one_shiftLeft]
  omega

theorem leftChunks_pos (length : Nat) : 0 < leftChunks length := by
  rw [leftChunks, Nat.one_shiftLeft]
  exact Nat.two_pow_pos _

def parent (left right : Chaining) : Node := ⟨initial, left ++ right, 0, 64, Flag.parent⟩

def tree (counter : Nat) (bytes : List UInt8) : Node :=
  if small : bytes.length ≤ 1024 then chunk counter initial Flag.chunkStart bytes
  else
    let left := leftChunks bytes.length
    parent (tree counter (bytes.take (1024 * left))).value
      (tree (counter + left) (bytes.drop (1024 * left))).value
termination_by bytes.length
decreasing_by
  · have : 1024 * leftChunks bytes.length < bytes.length := leftChunks_lt (by omega)
    simp only [List.length_take]
    omega
  · have := leftChunks_pos bytes.length
    simp only [List.length_drop]
    omega

def wordBytes (w : UInt32) : List UInt8 :=
  [w.toUInt8, (w >>> 8).toUInt8, (w >>> 16).toUInt8, (w >>> 24).toUInt8]

def ofBytes (bytes : List UInt8) : List UInt8 :=
  ((tree 0 bytes).compress Flag.root).toList.flatMap wordBytes

def text (bytes : List UInt8) : String := Hex.encode (ofBytes bytes)

end SubroutineVM.Digest
