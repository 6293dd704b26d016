/-! # BLAKE2b

The digest of RFC 7693 without a key, with 1 to 64 bytes of output. Words are little-endian.
-/

namespace JobTrail.Blake2b

/-- The fractional parts of the square roots of the first eight primes. -/
def initial : Array UInt64 := #[
    0x6a09e667f3bcc908, 0xbb67ae8584caa73b, 0x3c6ef372fe94f82b,
    0xa54ff53a5f1d36f1, 0x510e527fade682d1, 0x9b05688c2b3e6c1f,
    0x1f83d9abfb41bd6b, 0x5be0cd19137e2179]

def orders : Array (Array Nat) := #[
  #[0, 1, 2, 3, 4, 5, 6, 7, 8, 9, 10, 11, 12, 13, 14, 15],
  #[14, 10, 4, 8, 9, 15, 13, 6, 1, 12, 0, 2, 11, 7, 5, 3],
  #[11, 8, 12, 0, 5, 2, 15, 13, 10, 14, 3, 6, 7, 1, 9, 4],
  #[7, 9, 3, 1, 13, 12, 11, 14, 2, 6, 5, 10, 4, 0, 15, 8],
  #[9, 0, 5, 7, 2, 4, 10, 15, 14, 1, 11, 12, 6, 8, 3, 13],
  #[2, 12, 6, 10, 0, 11, 8, 3, 4, 13, 7, 5, 15, 14, 1, 9],
  #[12, 5, 1, 15, 14, 13, 4, 10, 0, 7, 6, 3, 9, 2, 8, 11],
  #[13, 11, 7, 14, 12, 1, 3, 9, 5, 0, 15, 4, 8, 6, 2, 10],
  #[6, 15, 14, 9, 11, 3, 0, 8, 12, 2, 13, 7, 1, 4, 10, 5],
  #[10, 2, 8, 4, 7, 6, 1, 5, 15, 11, 9, 14, 3, 12, 13, 0]]

def rotate (x : UInt64) (n : UInt64) : UInt64 := (x >>> n) ||| (x <<< (64 - n))

def word (bytes : List UInt8) : UInt64 :=
  bytes.foldr (fun b w => (w <<< 8) ||| b.toUInt64) 0

/-- The first `count` words of a list of bytes; missing bytes are zero. -/
def words : Nat → List UInt8 → List UInt64
  | 0, _ => []
  | count + 1, bytes => word (bytes.take 8) :: words count (bytes.drop 8)

def wordBytes (x : UInt64) : List UInt8 :=
  ([0, 8, 16, 24, 32, 40, 48, 56] : List UInt64).map fun shift => (x >>> shift).toUInt8

def mix (v : Array UInt64) (a b c d : Nat) (x y : UInt64) : Array UInt64 :=
  let va := v.getD a 0 + v.getD b 0 + x
  let vd := rotate (v.getD d 0 ^^^ va) 32
  let vc := v.getD c 0 + vd
  let vb := rotate (v.getD b 0 ^^^ vc) 24
  let va := va + vb + y
  let vd := rotate (vd ^^^ va) 16
  let vc := vc + vd
  let vb := rotate (vb ^^^ vc) 63
  (((v.setIfInBounds a va).setIfInBounds b vb).setIfInBounds c vc).setIfInBounds d vd

def lanes : List (Nat × Nat × Nat × Nat) :=
  [(0, 4, 8, 12), (1, 5, 9, 13), (2, 6, 10, 14), (3, 7, 11, 15),
    (0, 5, 10, 15), (1, 6, 11, 12), (2, 7, 8, 13), (3, 4, 9, 14)]

def round (m : Array UInt64) (v : Array UInt64) (order : Array Nat) : Array UInt64 :=
  lanes.zipIdx.foldl (fun v ((a, b, c, d), i) =>
    mix v a b c d (m.getD (order.getD (2 * i) 0) 0) (m.getD (order.getD (2 * i + 1) 0) 0)) v

/-- Feeds one block; `count` is the number of message bytes up to its end. -/
def compress (h : Array UInt64) (block : List UInt8) (count : Nat) (final : Bool) : Array UInt64 :=
  let m := (words 16 block).toArray
  let v := h ++ initial
  let v := v.modify 12 (· ^^^ UInt64.ofNat count)
  let v := if final then v.modify 14 (~~~·) else v
  let v := (List.range 12).foldl (fun v i => round m v (orders.getD (i % 10) #[])) v
  h.mapIdx fun i x => x ^^^ v.getD i 0 ^^^ v.getD (i + 8) 0

/-- Feeds the message in blocks of 128 bytes; the last block is marked, also when it is empty. -/
def absorb : Nat → Array UInt64 → List UInt8 → Nat → Array UInt64
  | 0, h, rest, count => compress h rest (count + rest.length) true
  | blocks + 1, h, rest, count =>
    absorb blocks (compress h (rest.take 128) (count + 128) false) (rest.drop 128) (count + 128)

def digest (size : Nat) (message : List UInt8) : List UInt8 :=
  let h := initial.modify 0 (· ^^^ 0x01010000 ^^^ UInt64.ofNat size)
  ((absorb ((message.length - 1) / 128) h message 0).toList.flatMap wordBytes).take size

end JobTrail.Blake2b
