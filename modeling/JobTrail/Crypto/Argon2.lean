import JobTrail.Crypto.Blake2b

/-! # Argon2

The memory-hard password hash of RFC 9106, in its three kinds and both versions, without a secret
key. The memory is one array of 64-bit words, 128 of them a block.
-/

namespace JobTrail.Argon2

/-- How reference blocks are chosen: by the data, independently of it, or first the one and then
the other. -/
inductive Kind where
  | d
  | i
  | id
deriving DecidableEq, Repr

def Kind.code : Kind → Nat
  | d => 0
  | i => 1
  | id => 2

structure Params where
  kind : Kind
  /-- 16 overwrites blocks in later passes, 19 combines them. -/
  version : Nat
  memoryKiB : Nat
  passes : Nat
  lanes : Nat
  size : Nat
  /-- Data that the hash depends on besides the password and the salt. -/
  associated : List UInt8
deriving DecidableEq, Repr

def blockWords : Nat := 128

/-! ## Mixing blocks -/

@[inline] def rotate (x : UInt64) (n : UInt64) : UInt64 := (x >>> n) ||| (x <<< (64 - n))

/-- The sum of two words and twice the product of their low halves. -/
@[inline] def blend (x y : UInt64) : UInt64 :=
  x + y + 2 * ((x &&& 0xFFFFFFFF) * (y &&& 0xFFFFFFFF))

@[inline] def mix (a b c d : UInt64) (next : UInt64 → UInt64 → UInt64 → UInt64 → α) : α :=
  let a := blend a b
  let d := rotate (d ^^^ a) 32
  let c := blend c d
  let b := rotate (b ^^^ c) 24
  let a := blend a b
  let d := rotate (d ^^^ a) 16
  let c := blend c d
  let b := rotate (b ^^^ c) 63
  next a b c d

/-- Permutes sixteen words of a block: eight pairs, the pairs `step` apart from `start` on. -/
def permute (w : Array UInt64) (start step : Nat) : Array UInt64 :=
  let at' (i : Nat) : Nat := start + step * (i / 2) + i % 2
  mix (w.getD (at' 0) 0) (w.getD (at' 4) 0) (w.getD (at' 8) 0) (w.getD (at' 12) 0)
    fun v0 v4 v8 v12 =>
  mix (w.getD (at' 1) 0) (w.getD (at' 5) 0) (w.getD (at' 9) 0) (w.getD (at' 13) 0)
    fun v1 v5 v9 v13 =>
  mix (w.getD (at' 2) 0) (w.getD (at' 6) 0) (w.getD (at' 10) 0) (w.getD (at' 14) 0)
    fun v2 v6 v10 v14 =>
  mix (w.getD (at' 3) 0) (w.getD (at' 7) 0) (w.getD (at' 11) 0) (w.getD (at' 15) 0)
    fun v3 v7 v11 v15 =>
  mix v0 v5 v10 v15 fun v0 v5 v10 v15 =>
  mix v1 v6 v11 v12 fun v1 v6 v11 v12 =>
  mix v2 v7 v8 v13 fun v2 v7 v8 v13 =>
  mix v3 v4 v9 v14 fun v3 v4 v9 v14 =>
  let w := ((w.setIfInBounds (at' 0) v0).setIfInBounds (at' 1) v1).setIfInBounds (at' 2) v2
  let w := ((w.setIfInBounds (at' 3) v3).setIfInBounds (at' 4) v4).setIfInBounds (at' 5) v5
  let w := ((w.setIfInBounds (at' 6) v6).setIfInBounds (at' 7) v7).setIfInBounds (at' 8) v8
  let w := ((w.setIfInBounds (at' 9) v9).setIfInBounds (at' 10) v10).setIfInBounds (at' 11) v11
  let w := ((w.setIfInBounds (at' 12) v12).setIfInBounds (at' 13) v13).setIfInBounds (at' 14) v14
  w.setIfInBounds (at' 15) v15

/-- Rows of sixteen words first, then columns of eight pairs. -/
def permuteAll (w : Array UInt64) : Array UInt64 :=
  let w := Nat.fold 8 (fun i _ w => permute w (16 * i) 2) w
  Nat.fold 8 (fun i _ w => permute w (2 * i) 16) w

/-- Fills the block at `target` from the ones at `x` and `y`; `combine` keeps the old content in. -/
def fillBlock (memory : Array UInt64) (x y target : Nat) (combine : Bool) : Array UInt64 :=
  let r := Nat.fold blockWords (fun i _ (r : Array UInt64) =>
    r.push (memory.getD (x * blockWords + i) 0 ^^^ memory.getD (y * blockWords + i) 0))
    (Array.emptyWithCapacity blockWords)
  let z := permuteAll (Nat.fold blockWords (fun i _ (z : Array UInt64) => z.push (r.getD i 0))
    (Array.emptyWithCapacity blockWords))
  Nat.fold blockWords (fun i _ (memory : Array UInt64) =>
    let place := target * blockWords + i
    let fresh := r.getD i 0 ^^^ z.getD i 0
    memory.setIfInBounds place (if combine then memory.getD place 0 ^^^ fresh else fresh)) memory

/-! ## Addresses -/

def slices : Nat := 4

structure Layout where
  params : Params
  /-- Blocks of one slice of a lane. -/
  segment : Nat
deriving DecidableEq, Repr

def Layout.ofParams (p : Params) : Layout := ⟨p, p.memoryKiB / (slices * p.lanes)⟩

def Layout.laneLength (l : Layout) : Nat := slices * l.segment

def Layout.blockCount (l : Layout) : Nat := l.params.lanes * l.laneLength

structure Position where
  pass : Nat
  slice : Nat
  lane : Nat
  index : Nat

def independent (p : Params) (pos : Position) : Bool :=
  match p.kind with
  | .d => false
  | .i => true
  | .id => pos.pass = 0 && pos.slice < 2

def addressBlock (l : Layout) (pos : Position) (counter : Nat) : Array UInt64 :=
  let input := ([pos.pass, pos.lane, pos.slice, l.blockCount, l.params.passes, l.params.kind.code,
    counter].map UInt64.ofNat).toArray
  let zero := Array.replicate blockWords (0 : UInt64)
  let scratch := zero ++ (input ++ Array.replicate (blockWords - input.size) 0) ++ zero
  let scratch := fillBlock scratch 0 1 2 false
  (fillBlock scratch 0 2 1 false).extract blockWords (2 * blockWords)

def reference (l : Layout) (pos : Position) (word : UInt64) : Nat :=
  let first := pos.pass = 0
  let lane := if first ∧ pos.slice = 0 then pos.lane
    else (word >>> 32).toNat % l.params.lanes
  let same := lane = pos.lane
  let done := if first then pos.slice * l.segment else l.laneLength - l.segment
  let area := if same then done + pos.index - 1 else if pos.index = 0 then done - 1 else done
  let low := (word &&& 0xFFFFFFFF).toNat
  let relative := area - 1 - area * (low * low / 0x100000000) / 0x100000000
  let start := if first ∨ pos.slice = slices - 1 then 0 else (pos.slice + 1) * l.segment
  lane * l.laneLength + (start + relative) % l.laneLength

def step (l : Layout) (addresses : Array UInt64) (memory : Array UInt64) (pos : Position) :
    Array UInt64 :=
  let column := pos.slice * l.segment + pos.index
  let base := pos.lane * l.laneLength
  let previous := base + (column + l.laneLength - 1) % l.laneLength
  let word := if independent l.params pos then addresses.getD (pos.index % blockWords) 0
    else memory.getD (previous * blockWords) 0
  let combine := pos.pass ≠ 0 ∧ l.params.version = 19
  fillBlock memory previous (reference l pos word) (base + column) combine

/-- Computes the blocks of a segment in order; the first two blocks of a lane are given. -/
def fillSegment (l : Layout) (memory : Array UInt64) (pass slice lane : Nat) : Array UInt64 :=
  let skip := if pass = 0 ∧ slice = 0 then 2 else 0
  let run := Nat.fold l.segment (fun index _ (state : Array UInt64 × Array UInt64) =>
    let (memory, addresses) := state
    let pos : Position := ⟨pass, slice, lane, index⟩
    let renew := independent l.params pos ∧ (index % blockWords = 0)
    let addresses := if renew then addressBlock l pos (index / blockWords + 1) else addresses
    if index < skip then (memory, addresses) else (step l addresses memory pos, addresses))
    (memory, #[])
  run.1

def fillMemory (l : Layout) (memory : Array UInt64) : Array UInt64 :=
  Nat.fold l.params.passes (fun pass _ memory =>
    Nat.fold slices (fun slice _ memory =>
      Nat.fold l.params.lanes (fun lane _ memory => fillSegment l memory pass slice lane) memory)
      memory) memory

/-! ## The hash -/

def le32 (n : Nat) : List UInt8 := [0, 1, 2, 3].map fun i => UInt8.ofNat (n / Nat.pow 256 i % 256)

/-- Output longer than 64 bytes chains digests and takes 32 bytes of each but the last. -/
def expandFrom : Nat → Nat → List UInt8 → List UInt8
  | 0, rest, v => Blake2b.digest rest v
  | count + 1, rest, v =>
    let next := Blake2b.digest 64 v
    next.take 32 ++ expandFrom count rest next

def longDigest (size : Nat) (message : List UInt8) : List UInt8 :=
  let input := le32 size ++ message
  if size ≤ 64 then Blake2b.digest size input
  else
    let whole := (size + 31) / 32 - 2
    expandFrom whole (size - 32 * whole) input

def seed (p : Params) (password salt : List UInt8) : List UInt8 :=
  Blake2b.digest 64 (le32 p.lanes ++ le32 p.size ++ le32 p.memoryKiB ++ le32 p.passes
    ++ le32 p.version ++ le32 p.kind.code ++ le32 password.length ++ password
    ++ le32 salt.length ++ salt ++ le32 0 ++ le32 p.associated.length ++ p.associated)

def initialMemory (l : Layout) (h : List UInt8) : Array UInt64 :=
  let zero := Array.replicate (l.blockCount * blockWords) (0 : UInt64)
  Nat.fold l.params.lanes (fun lane _ memory =>
    Nat.fold 2 (fun column _ memory =>
      let words := Blake2b.words blockWords (longDigest 1024 (h ++ le32 column ++ le32 lane))
      let base := (lane * l.laneLength + column) * blockWords
      words.zipIdx.foldl (fun memory (x, i) => memory.setIfInBounds (base + i) x) memory) memory)
    zero

def lastColumn (l : Layout) (memory : Array UInt64) : List UInt64 :=
  (List.range blockWords).map fun i =>
    (List.range l.params.lanes).foldl (fun x lane =>
      x ^^^ memory.getD (((lane + 1) * l.laneLength - 1) * blockWords + i) 0) 0

def hash (p : Params) (password salt : List UInt8) : List UInt8 :=
  let l := Layout.ofParams p
  let memory := fillMemory l (initialMemory l (seed p password salt))
  longDigest p.size ((lastColumn l memory).flatMap Blake2b.wordBytes)

end JobTrail.Argon2
