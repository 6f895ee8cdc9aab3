/-
**The I/O buffer** (`pkg/buffer/iobuffer.go`).

`IoBuffer` is `ioBuffer`: a slice `buf`, the read offset `off` and the mark `offMark`. The unread
bytes are `buf[off:]`. Every operation runs in `BufM`: it changes the buffer and may panic, and a
panic leaves the buffer as it was at that moment.

Memory comes from the byte pool through `Pool`, which hands out a slice of the requested length
with arbitrary contents and possibly more capacity. Lengths of slices in memory are far below
`2 ^ 63`, so sums of lengths and offsets are exact; the one place where a caller's size enters a
sum is `Cut` and `Drain`, and there the addition wraps (`int64`).

Readers and writers handed to `ReadFrom` and `WriteTo` are scripts of the answers they will give.
-/

import Strike.Go.Slice

namespace Strike

/-- `MinRead`: the free space `ReadFrom` wants before each read. -/
def minRead : Nat := 1 <<< 9

/-- `ResetOffMark`: no mark is set. -/
def resetOffMark : Int := -1

/-- `DefaultSize`. -/
def defaultSize : Nat := 1 <<< 4

/-- `ErrInvalidWriteCount`. -/
def errInvalidWriteCount : GoError := .new "io buffer: invalid write count"

/-- The byte pool as the buffer sees it: `GetBytes(n)` has length `n`. -/
structure Pool where
  getBytes : Nat → Slice
  getBytes_len : ∀ n, (getBytes n).len = n

/-- A pool that allocates zeroed slices of exactly the requested size. -/
def Pool.fresh : Pool := ⟨fun n => .ofBytes (List.replicate n 0), fun _ => List.length_replicate⟩

/-- `ioBuffer`. The field `b`, the pooled slice behind `buf`, is only there to be given back: what
remains of it is whether there is one. -/
structure IoBuffer where
  buf : Slice
  off : Int
  offMark : Int
  count : Int
  eof : Bool
  pooled : Bool
  deriving DecidableEq, Repr

/-- Operations on one buffer. -/
abbrev BufM := EStateM Panic IoBuffer

/-- A computation that does not touch the buffer. -/
def BufM.lift {α : Type} : Except Panic α → BufM α
  | .ok value => pure value
  | .error cause => throw cause

/-! ### Readers and writers -/

/-- An `io.Reader`: the data and the error of each answer still to come. A read that has less room
than the answer takes part of it, and a reader with no answers left is at its end. -/
abbrev Reader := List (Bytes × Option GoError)

/-- `r.Read(p)` for a `p` of length `room`. -/
def Reader.read (r : Reader) (room : Nat) : Bytes × Option GoError × Reader :=
  match r with
  | [] => ([], some .eof, [])
  | (data, err) :: rest =>
    if data.length ≤ room then (data, err, rest)
    else (data.take room, none, (data.drop room, err) :: rest)

/-- How many reads can still make progress. -/
def Reader.weight (r : Reader) : Nat := (r.map fun answer => answer.1.length + 1).sum

/-- An `io.Writer`: how many bytes each call reports as written, and its error. -/
abbrev Writer := List (Nat × Option GoError)

namespace IoBuffer

/-! ### Observations -/

/-- `Len`. -/
def len (b : IoBuffer) : Int := b.buf.len - b.off

/-- `Cap`. -/
def cap (b : IoBuffer) : Nat := b.buf.cap

/-- `b.buf[low:high]`. -/
def slice (b : IoBuffer) (low high : Int) : Except Panic Bytes :=
  if 0 ≤ low ∧ low ≤ high ∧ high ≤ b.buf.cap then
    .ok ((b.buf.array.take high.toNat).drop low.toNat)
  else .error sliceBounds

/-- `Bytes`: `b.buf[b.off:]`. -/
def bytes (b : IoBuffer) : Except Panic Bytes := b.slice b.off b.buf.len

/-- `Peek`. -/
def peek (b : IoBuffer) (n : Nat) : Except Panic (Option Bytes) :=
  if b.len < n then .ok none else (b.slice b.off (b.off + n)).map some

/-! ### Marks and resets -/

/-- `Mark`. -/
def mark (b : IoBuffer) : IoBuffer := { b with offMark := b.off }

/-- `Restore`. -/
def restore (b : IoBuffer) : IoBuffer :=
  if b.offMark ≠ resetOffMark then { b with off := b.offMark, offMark := resetOffMark } else b

/-- `Reset`. -/
def reset (b : IoBuffer) : IoBuffer :=
  { b with buf := b.buf.truncate, off := 0, offMark := resetOffMark, eof := false }

/-! ### Reading -/

/-- `Read(p)` for a `p` of length `n`: the bytes copied into `p`, and the error. -/
def read (n : Nat) : BufM (Bytes × Option GoError) := do
  let b ← get
  if b.off ≥ b.buf.len then
    set b.reset
    if n = 0 then return ([], none)
    return ([], some .eof)
  let data ← BufM.lift b.bytes
  let copied := data.take n
  set { b with off := b.off + copied.length }
  return (copied, none)

/-- `ReadByte`. -/
def readByte : BufM (UInt8 × Option GoError) := do
  let b ← get
  if b.off ≥ b.buf.len then
    set b.reset
    return (0, some .eof)
  match ← BufM.lift b.bytes with
  | [] => throw sliceBounds
  | value :: _ =>
    set { b with off := b.off + 1 }
    return (value, none)

/-- `Cut`. The result is a buffer over its own copy of the bytes. -/
def cut (offset : Nat) : BufM (Option IoBuffer) := do
  let b ← get
  let stop := int64 (b.off + offset)
  if stop > b.buf.len then return none
  -- Only a sum that wrapped can be below `off`; then `make([]byte, offset)` panics.
  if stop < b.off then throw makeSliceLen
  let data ← BufM.lift (b.slice b.off stop)
  set { b with off := stop, offMark := resetOffMark }
  return some ⟨.ofBytes data, 0, 0, 0, false, false⟩

/-- `Drain`. -/
def drain (offset : Nat) (b : IoBuffer) : IoBuffer :=
  if int64 (b.off + offset) > b.buf.len then b
  else { b with off := int64 (b.off + offset), offMark := resetOffMark }

/-- `WriteTo`: what the writer took, the count and the error. -/
def writeTo : Writer → BufM (Bytes × Nat × Option GoError)
  | [] => return ([], 0, none)
  | (m, err) :: rest => do
    let b ← get
    if b.off < b.buf.len then
      let data ← BufM.lift b.bytes
      if m > data.length then throw (.error errInvalidWriteCount)
      set { b with off := b.off + m }
      if err.isSome then return (data.take m, m, err)
      if m = 0 ∨ m = data.length then return (data.take m, m, none)
      let (taken, n, err) ← writeTo rest
      return (data.take m ++ taken, m + n, err)
    else return ([], 0, none)

/-! ### Writing -/

/-- `copy(expand)`: the unread bytes move to the front, of a larger slice when `expand > 0`. -/
def copy (pool : Pool) (expand : Nat) : BufM Unit := do
  let b ← get
  let newBuf := if expand > 0 then pool.getBytes (2 * b.buf.cap + expand) else b.buf
  let data ← BufM.lift b.bytes
  let newBuf ← BufM.lift (newBuf.copyAt 0 data)
  let newBuf ← BufM.lift (newBuf.upTo data.length)
  set { b with buf := newBuf, off := 0, pooled := b.pooled || expand > 0 }

/-- `tryGrowByReslice`. -/
def tryGrowByReslice (n : Nat) : BufM (Nat × Bool) := do
  let b ← get
  let l := b.buf.len
  if l + n ≤ b.buf.cap then
    let grown ← BufM.lift (b.buf.upTo (l + n))
    set { b with buf := grown }
    return (l, true)
  return (0, false)

/-- The part of `grow` that moves the `m` unread bytes, by sliding them down when that leaves half
the capacity free and into a larger slice otherwise, and reslices over `n` more. -/
def growByCopy (pool : Pool) (m n : Nat) : BufM Nat := do
  let b ← get
  copy pool (if m + n ≤ b.buf.cap / 2 then 0 else n)
  let b ← get
  let grown ← BufM.lift (b.buf.upTo (m + n))
  set { b with off := 0, buf := grown }
  return m

/-- `if b.off >= len(b.buf) { b.Reset() }`, and `grow`'s variant of it. -/
def resetIf (drained : IoBuffer → Bool) : BufM Unit := modify fun b => if drained b then b.reset else b

/-- `grow`: room for `n` more bytes, and the index to write them at. -/
def grow (pool : Pool) (n : Nat) : BufM Nat := do
  let b ← get
  let m := b.len.toNat
  resetIf fun b => b.len = 0 && b.off ≠ 0
  let (i, ok) ← tryGrowByReslice n
  if ok then return i
  growByCopy pool m n

/-- The first lines of `Write` and `WriteByte`: the index of `n` reserved bytes. -/
def reserve (pool : Pool) (n : Nat) : BufM Nat := do
  let (m, ok) ← tryGrowByReslice n
  if ok then return m
  grow pool n

/-- `copy(b.buf[m:], p)`. -/
def store (m : Nat) (p : Bytes) : BufM Unit := do
  let b ← get
  let written ← BufM.lift (b.buf.copyAt m p)
  set { b with buf := written }

/-- `Write`. -/
def write (pool : Pool) (p : Bytes) : BufM Nat := do
  let m ← reserve pool p.length
  store m p
  return p.length

/-- `WriteByte`. -/
def writeByte (pool : Pool) (p : UInt8) : BufM Unit := do
  let m ← reserve pool 1
  store m [p]

/-- Writing behind `len` and reslicing over what was written. -/
def extend (data : Bytes) : BufM Unit := do
  let b ← get
  let grown ← BufM.lift (b.buf.upTo (b.buf.len + data.length))
  let written ← BufM.lift (grown.copyAt b.buf.len data)
  set { b with buf := written }

/-- Making room behind `len` for `n` more bytes, as `Append` and `ReadFrom` do it. -/
def makeRoom (pool : Pool) (n : Nat) : BufM Unit := do
  let b ← get
  let free := b.buf.cap - b.buf.len
  if free < n then copy pool (if b.off + free < n then n else 0)

/-- `Append`. -/
def append (pool : Pool) (data : Bytes) : BufM Unit := do
  resetIf fun b => b.off ≥ b.buf.len
  makeRoom pool data.length
  extend data

/-- `AppendByte`. -/
def appendByte (pool : Pool) (data : UInt8) : BufM Unit := append pool [data]

/-- The loop of `ReadFrom`. Each round that goes on has read at least one byte, so the reader's
weight is enough fuel. -/
def readFromLoop (pool : Pool) : Nat → Reader → Nat → BufM (Nat × Option GoError)
  | 0, _, n => return (n, none)
  | fuel + 1, r, n => do
    makeRoom pool minRead
    let b ← get
    let (data, e, r) := r.read (b.buf.cap - b.buf.len)
    extend data
    if e = some .eof then return (n + data.length, none)
    if data.length = 0 then return (n + data.length, none)
    if e.isSome then return (n + data.length, e)
    readFromLoop pool fuel r (n + data.length)

/-- `ReadFrom`. -/
def readFrom (pool : Pool) (r : Reader) : BufM (Nat × Option GoError) := do
  resetIf fun b => b.off ≥ b.buf.len
  readFromLoop pool (r.weight + 1) r 0

/-! ### Constructors -/

/-- `NewIoBuffer`. -/
def new (pool : Pool) (capacity : Int) : IoBuffer :=
  let capacity := if capacity ≤ 0 then defaultSize else capacity.toNat
  ⟨(pool.getBytes capacity).truncate, 0, resetOffMark, 1, false, true⟩

/-- `NewIoBufferBytes` for a slice that is not nil. -/
def newBytes (data : Bytes) : IoBuffer := ⟨.ofBytes data, 0, resetOffMark, 1, false, false⟩

end IoBuffer

end Strike
