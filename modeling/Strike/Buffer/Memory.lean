/-
**I/O buffers in memory** (`iobuffer.go`, `iobufferpool.go`, `bytebufferpool.go`).

`IoBuffer` has its bytes as a value. Here they are in arrays that all buffers and the pool of byte slices share:
a slice is the number of an array and a length, `buf` and `b` of an `ioBuffer` lead to the same array, and what
the pool hands out again still has the bytes of its last owner. `Memory` also holds the pool of buffers.

A call runs in `MemM`: it changes the memory and may panic. What the two `sync.Pool`s return is in `choices`. A
run ends where memory does: a slice that is too large to be made has no successor.

What happened to each buffer is written to a log, which the code does not look at: the methods that were called,
with what they returned. `body` is the same method of `IoBuffer`.
-/

import Strike.Buffer.BytePool
import Strike.Buffer.Counting
import Strike.Buffer.ReadOnce
import Strike.Lib.System

namespace Strike.Shared

open ByteBuffer

/-- A `[]byte` that starts at the first byte of its array; `nil` has none. -/
structure Header where
  array : Option Nat := none
  len : Nat := 0
  deriving Repr, DecidableEq

/-- `ioBuffer`. -/
structure Object where
  buf : Header := {}
  off : Int := 0
  offMark : Int := 0
  count : Int := 0
  eof : Bool := false
  b : Option Nat := none
  deriving Repr, DecidableEq

/-- The methods of an `IoBuffer`. `fill` is the part of `Alloc` behind its `Free`. -/
inductive Op where
  | write (p : Bytes)
  | writeByte (p : UInt8)
  | append (data : Bytes)
  | appendByte (data : UInt8)
  | readFrom (reader : Reader)
  | readOnce (last : GoError) (conn : Bool) (answers : Answers GoError)
  | read (n : Nat)
  | readByte
  | peek (n : Nat)
  | cut (offset : Nat)
  | drain (offset : Nat)
  | writeTo (w : Writer)
  | reset
  | mark
  | restore
  | setEOF (eof : Bool)
  | count (n : Int)
  | free
  | fill (size : Int)

/-- What a method returns. -/
inductive Out where
  | plain (out : BufOut)
  | total (count : Int)
  | piece (b : Option IoBuffer)

/-- What happens to a buffer. A method is written down with the offset it found. -/
inductive Event where
  | made (b : IoBuffer)
  | did (off : Int) (op : Op) (out : Out)

/-- All memory. A pointer to a pooled slice has the number of its array. -/
structure Memory where
  bytes : ByteBufferPool := newByteBufferPool
  buffers : List Object := []
  ibPool : List Nat := []
  choices : List (Option Nat) := []
  log : List (Nat × Event) := []

namespace Memory

variable (m : Memory)

/-- The bytes of an array. -/
def array : Option Nat → Bytes
  | none => []
  | some c => (m.bytes.slices[c]?.map Slice.array).getD []

/-- The array has new bytes. -/
def setArray (c : Option Nat) (array : Bytes) : Memory :=
  { m with bytes := { m.bytes with slices := match c with
    | none => m.bytes.slices
    | some c => m.bytes.slices.modify c fun s => ⟨array, min s.len array.length, Nat.min_le_right _ _⟩ } }

/-- The pool of byte slices has changed. -/
def withBytes (bytes : ByteBufferPool) (choices : List (Option Nat)) : Memory := { m with bytes, choices }

/-- The object has new fields. -/
def setObject (r : Nat) (o : Object) : Memory := { m with buffers := m.buffers.set r o }

/-- `*p`. -/
def pointee (p : Nat) : Header := ⟨some p, (m.bytes.slices[p]?.map Slice.len).getD 0⟩

/-- `b.buf[low:high]`. -/
def slice (h : Header) (low high : Int) : Except Panic Bytes :=
  if 0 ≤ low ∧ low ≤ high ∧ high ≤ (m.array h.array).length then
    .ok (((m.array h.array).take high.toNat).drop low.toNat)
  else .error sliceBounds

/-- A slice as a value. -/
def sliceValue (h : Header) : Slice := ⟨m.array h.array, min h.len (m.array h.array).length, Nat.min_le_right _ _⟩

/-- A buffer as a value. -/
def value (o : Object) : IoBuffer := ⟨m.sliceValue o.buf, o.off, o.offMark, o.count, o.eof, o.b.isSome⟩

/-- The buffer with a number. -/
def view (r : Nat) : Option IoBuffer := m.buffers[r]?.map m.value

/-- `s[:n]`. -/
def upTo (h : Header) (n : Nat) : Except Panic Header :=
  if n ≤ (m.array h.array).length then .ok { h with len := n } else .error sliceBounds

/-- Something is written down. -/
def note (r : Nat) (event : Event) : Memory := { m with log := m.log ++ [(r, event)] }

end Memory

/-- What a call returns, with the memory behind it. -/
abbrev Result (α : Type) := EStateM.Result Panic Memory α

/-- Calls that work on the memory. -/
def MemM (α : Type) := Memory → Option (Result α)

namespace MemM

variable {α β : Type}

/-- One call behind the other, unless it panics. -/
protected def bind (first : MemM α) (next : α → MemM β) : MemM β := fun m =>
  match first m with
  | none => none
  | some (.ok value m') => next value m'
  | some (.error cause m') => some (.error cause m')

instance : Monad MemM where
  pure value := fun m => some (.ok value m)
  bind := MemM.bind

/-- A panic. -/
def panic (cause : Panic) : MemM α := fun m => some (.error cause m)

/-- The memory is only looked at. -/
def look (f : Memory → Except Panic α) : MemM α := fun m =>
  match f m with
  | .ok value => some (.ok value m)
  | .error cause => some (.error cause m)

/-- The memory changes. -/
def change (f : Memory → Memory) : MemM Unit := fun m => some (.ok () (f m))

/-- The object behind a pointer to an `ioBuffer`. -/
def load (r : Nat) : MemM Object := fun m => m.buffers[r]?.map (.ok · m)

/-- Its fields are written. -/
def store (r : Nat) (o : Object) : MemM Unit := change (·.setObject r o)

/-- `copy(s[index:], data)`. -/
def copyAt (h : Header) (index : Nat) (data : Bytes) : MemM Unit := fun m =>
  if index ≤ h.len then
    some (.ok () (m.setArray h.array (splice (m.array h.array) index (data.take (h.len - index)))))
  else some (.error sliceBounds m)

/-- `GetBytes`. -/
def getBytes (size : Int) : MemM Nat := fun m =>
  match m.bytes.take size m.choices.head?.join with
  | some (.ok (p, bytes)) => some (.ok p (m.withBytes bytes m.choices.tail))
  | _ => none

/-- `PutBytes`. -/
def putBytes (p : Option Nat) : MemM Unit := fun m =>
  match m.bytes.give p with
  | some (.ok bytes) => some (.ok () (m.withBytes bytes m.choices))
  | _ => none

end MemM

open MemM

namespace Object

/-- `Reset`. -/
def reset (o : Object) : Object :=
  { o with buf := { o.buf with len := 0 }, off := 0, offMark := resetOffMark, eof := false }

/-- `Len`. -/
def len (o : Object) : Int := o.buf.len - o.off

/-- `Restore`. -/
def restore (o : Object) : Object :=
  if o.offMark ≠ resetOffMark then { o with off := o.offMark, offMark := resetOffMark } else o

/-- `Drain`. -/
def drain (offset : Nat) (o : Object) : Object :=
  if int64 (o.off + offset) > o.buf.len then o
  else { o with off := int64 (o.off + offset), offMark := resetOffMark }

end Object

section Methods

variable (r : Nat)

/-! ### Reading -/

/-- `b.buf[low:high]`. -/
def sliceOf (b : Object) (low high : Int) : MemM Bytes := look fun m => m.slice b.buf low high

/-- `Bytes`. -/
def bytesOf (b : Object) : MemM Bytes := sliceOf b b.off b.buf.len

/-- `cap(b.buf)`. -/
def capOf (b : Object) : MemM Nat := look fun m => .ok (m.array b.buf.array).length

/-- A method that only sets fields. -/
def setFields (f : Object → Object) : MemM Unit := do
  let b ← load r
  store r (f b)

/-- `Read(p)`. -/
def read (n : Nat) : MemM (Bytes × Option GoError) := do
  let b ← load r
  if b.off ≥ b.buf.len then
    store r b.reset
    if n = 0 then return ([], none)
    return ([], some .eof)
  let data ← bytesOf b
  let copied := data.take n
  store r { b with off := b.off + copied.length }
  return (copied, none)

/-- `ReadByte`. -/
def readByte : MemM (UInt8 × Option GoError) := do
  let b ← load r
  if b.off ≥ b.buf.len then
    store r b.reset
    return (0, some .eof)
  match ← bytesOf b with
  | [] => panic sliceBounds
  | value :: _ =>
    store r { b with off := b.off + 1 }
    return (value, none)

/-- `Peek`. -/
def peek (n : Nat) : MemM (Option Bytes) := do
  let b ← load r
  if b.len < n then return none
  return some (← sliceOf b b.off (b.off + n))

/-- `WriteTo`. -/
def writeTo : Writer → MemM (Bytes × Nat × Option GoError)
  | [] => return ([], 0, none)
  | (n, err) :: rest => do
    let b ← load r
    if b.off < b.buf.len then
      let data ← bytesOf b
      if n > data.length then panic (.error errInvalidWriteCount)
      else
        store r { b with off := b.off + n }
        if err.isSome then return (data.take n, n, err)
        if n = 0 ∨ n = data.length then return (data.take n, n, none)
        let (taken, m, err) ← writeTo rest
        return (data.take n ++ taken, n + m, err)
    else return ([], 0, none)

/-! ### Writing -/

/-- The unread bytes move to the slice behind another pointer, and the old one goes to the pool. -/
def moveTo (b : Object) (bufp : Nat) : MemM Unit := do
  let newBuf ← look fun m => .ok (m.pointee bufp)
  let data ← bytesOf b
  copyAt newBuf 0 data
  putBytes b.b
  let newBuf ← look fun m => m.upTo newBuf data.length
  store r { b with buf := newBuf, off := 0, b := some bufp }

/-- `copy(expand)`. -/
def copy (expand : Nat) : MemM Unit := do
  let b ← load r
  if expand > 0 then
    let cap ← capOf b
    let bufp ← getBytes (2 * cap + expand : Nat)
    moveTo r b bufp
  else
    let data ← bytesOf b
    copyAt b.buf 0 data
    let newBuf ← look fun m => m.upTo b.buf data.length
    store r { b with buf := newBuf, off := 0 }

/-- `tryGrowByReslice`. -/
def tryGrowByReslice (n : Nat) : MemM (Nat × Bool) := do
  let b ← load r
  let cap ← capOf b
  let l := b.buf.len
  if l + n ≤ cap then
    let grown ← look fun m => m.upTo b.buf (l + n)
    store r { b with buf := grown }
    return (l, true)
  return (0, false)

/-- The end of `grow`. -/
def growByCopy (l n : Nat) : MemM Nat := do
  let b ← load r
  let cap ← capOf b
  copy r (if l + n ≤ cap / 2 then 0 else n)
  let b ← load r
  let grown ← look fun m => m.upTo b.buf (l + n)
  store r { b with off := 0, buf := grown }
  return l

/-- `Reset`, unless there is something to read. -/
def resetIf (drained : Object → Bool) : MemM Unit := setFields r fun b => if drained b then b.reset else b

/-- `grow`. -/
def grow (n : Nat) : MemM Nat := do
  let b ← load r
  let l := b.len.toNat
  resetIf r fun b => b.len = 0 && b.off ≠ 0
  let (i, ok) ← tryGrowByReslice r n
  if ok then return i
  growByCopy r l n

/-- The first lines of `Write` and `WriteByte`. -/
def reserve (n : Nat) : MemM Nat := do
  let (i, ok) ← tryGrowByReslice r n
  if ok then return i
  grow r n

/-- `copy(b.buf[i:], p)`. -/
def put (i : Nat) (p : Bytes) : MemM Unit := do
  let b ← load r
  copyAt b.buf i p

/-- `Write`. -/
def write (p : Bytes) : MemM Nat := do
  let i ← reserve r p.length
  put r i p
  return p.length

/-- `WriteByte`. -/
def writeByte (p : UInt8) : MemM Unit := do
  let i ← reserve r 1
  put r i [p]

/-- Writing behind `len` and reslicing over what was written. -/
def extend (data : Bytes) : MemM Unit := do
  let b ← load r
  let grown ← look fun m => m.upTo b.buf (b.buf.len + data.length)
  copyAt grown b.buf.len data
  store r { b with buf := grown }

/-- Room behind `len`, as `Append`, `ReadFrom` and `ReadOnce` make it. -/
def makeRoom (n : Nat) : MemM Unit := do
  let b ← load r
  let cap ← capOf b
  let free := cap - b.buf.len
  if free < n then copy r (if b.off + free < n then n else 0) else return ()

/-- `Append`. -/
def append (data : Bytes) : MemM Unit := do
  resetIf r fun b => b.off ≥ b.buf.len
  makeRoom r data.length
  extend r data

/-- The loop of `ReadFrom`. -/
def readFromLoop : Nat → Reader → Nat → MemM (Nat × Option GoError)
  | 0, _, n => return (n, none)
  | fuel + 1, reader, n => do
    makeRoom r minRead
    let b ← load r
    let cap ← capOf b
    let (data, e, reader) := reader.read (cap - b.buf.len)
    extend r data
    if e = some .eof then return (n + data.length, none)
    if data.length = 0 then return (n + data.length, none)
    if e.isSome then return (n + data.length, e)
    readFromLoop fuel reader (n + data.length)

/-- `ReadFrom`. -/
def readFrom (reader : Reader) : MemM (Nat × Option GoError) := do
  resetIf r fun b => b.off ≥ b.buf.len
  readFromLoop r (reader.weight + 1) reader 0

/-- Before each read of `ReadOnce` but the first there is room for `MinRead` bytes. -/
def roomBefore (first : Bool) : MemM Unit := if first = false then makeRoom r minRead else pure ()

/-- The loop of `ReadOnce`. -/
def readOnceLoop (last : GoError) : (rounds : Nat) → (first loop : Bool) → Answers GoError → Nat →
    MemM (Nat × Option GoError × Answers GoError)
  | 0, _, _, answers, n => return (n, none, answers)
  | rounds + 1, first, loop, answers, n => do
    roomBefore r first
    let b ← load r
    let cap ← capOf b
    let l := cap - b.buf.len
    let (data, e, answers) := answers.read last l
    extend r data
    let n := n + data.length
    if e.isSome then return (n, e, answers)
    if loop = true ∧ l = data.length ∧ n ≤ maxRead then readOnceLoop last rounds false loop answers n
    else return (n, none, answers)

/-- A short rest moves to the front before `ReadOnce` reads. -/
def slide : MemM Unit := do
  let b ← load r
  if b.off > 0 ∧ b.buf.len - b.off < 4 * minRead then copy r 0 else pure ()

/-- `ReadOnce`. -/
def readOnce (last : GoError) (conn : Bool) (answers : Answers GoError) :
    MemM (Nat × Option GoError × Answers GoError) := do
  resetIf r fun b => b.off ≥ b.buf.len
  slide r
  readOnceLoop r last IoBuffer.readOnceRounds true conn answers 0

/-! ### Giving memory back and taking it -/

/-- `giveSlice`. -/
def giveSlice : MemM Unit := do
  let b ← load r
  if b.b.isSome then
    putBytes b.b
    store r { b with b := none, buf := {} }
  else return ()

/-- `Free`. -/
def free : MemM Unit := do
  setFields r Object.reset
  giveSlice r

/-- The size a buffer without one is made with. -/
def sized (size : Int) : Nat := if size ≤ 0 then defaultSize else size.toNat

/-- The end of `Alloc`, behind `Free`. -/
def fill (size : Int) : MemM Unit := do
  let p ← getBytes (sized size)
  let buf ← look fun m => .ok (m.pointee p)
  let b ← load r
  store r { b with b := some p, buf := { buf with len := 0 } }

/-! ### Calls -/

/-- `Cut`. What it returns is a value until it has an array of its own. -/
def cut (offset : Nat) : MemM (Option IoBuffer) := do
  let b ← load r
  let stop := int64 (b.off + offset)
  if stop > b.buf.len then return none
  -- Only a sum that wrapped can be below `off`; then `make([]byte, offset)` panics.
  if stop < b.off then panic makeSliceLen
  else
    let data ← sliceOf b b.off stop
    store r { b with off := stop, offMark := resetOffMark }
    return some ⟨.ofBytes data, 0, 0, 0, false, false⟩

/-- A method in memory. -/
def exec : Op → MemM Out
  | .write p => do return .plain (.count (← write r p) none)
  | .writeByte p => do writeByte r p; return .plain .done
  | .append data => do append r data; return .plain .done
  | .appendByte data => do append r [data]; return .plain .done
  | .readFrom reader => do let result ← readFrom r reader; return .plain (.count result.1 result.2)
  | .readOnce last conn answers => do
    let result ← readOnce r last conn answers
    return .plain (.count result.1 result.2.1)
  | .read n => do let result ← read r n; return .plain (.data result.1 result.2)
  | .readByte => do let result ← readByte r; return .plain (.byte result.1 result.2)
  | .peek n => do return .plain (.view (← peek r n))
  | .cut offset => do return .piece (← cut r offset)
  | .drain offset => do setFields r (Object.drain offset); return .plain .done
  | .writeTo w => do let sent ← writeTo r w; return .plain (.sent sent.1 sent.2.1 sent.2.2)
  | .reset => do setFields r Object.reset; return .plain .done
  | .mark => do setFields r fun b => { b with offMark := b.off }; return .plain .done
  | .restore => do setFields r Object.restore; return .plain .done
  | .setEOF eof => do setFields r fun b => { b with eof }; return .plain .done
  | .count n => do
    setFields r fun b => { b with count := int32 (b.count + n) }
    return .total (← load r).count
  | .free => do free r; return .plain .done
  | .fill size => do fill r size; return .plain .done

/-- A method of a buffer that is there is written down with its result. -/
def record (op : Op) (p : MemM Out) : MemM Out := fun m =>
  match m.buffers[r]?, p m with
  | some b, some (.ok out m') => some (.ok out (m'.note r (.did b.off op out)))
  | some b, some (.error cause m') => some (.error cause (m'.note r (.did b.off op (.plain (.panicked cause)))))
  | _, _ => none

/-- A method is called. -/
def method (op : Op) : MemM Out := record r op (exec r op)

/-- `Alloc`. -/
def alloc (size : Int) : MemM Unit := do
  let b ← load r
  if b.buf.array.isSome then
    let _ ← method r .free
    let _ ← method r (.fill size)
  else
    let _ ← method r (.fill size)

/-- `Write` of what another slice holds while it is copied. -/
def writeFrom (source : Header) (low high : Int) : MemM Out := do
  let i ← reserve r (high - low).toNat
  let data ← look fun m => m.slice source low high
  put r i data
  return .plain (.count (high - low).toNat none)

end Methods

/-- A new array. -/
def makeBytes (s : Slice) : MemM Header := fun m =>
  some (.ok ⟨some (m.bytes.point s).1, s.len⟩ (m.withBytes (m.bytes.point s).2 m.choices))

/-- A new `ioBuffer`. -/
def newObject (o : Object) : MemM Nat := fun m =>
  some (.ok m.buffers.length ({ m with buffers := m.buffers ++ [o] }.note m.buffers.length (.made (m.value o))))

/-- A new `ioBuffer` over an array of its own. -/
def newOver (s : Slice) (offMark count : Int) : MemM Nat := do
  let buf ← makeBytes s
  newObject { buf, offMark, count }

/-- `NewIoBuffer`. -/
def newIoBuffer (capacity : Int) : MemM Nat := do
  let p ← getBytes (sized capacity)
  let buf ← look fun m => .ok (m.pointee p)
  newObject { buf := { buf with len := 0 }, offMark := resetOffMark, count := 1, b := some p }

/-- `NewIoBufferBytes`, which keeps the slice it is given, and `NewIoBufferString`. The slice is one that is not nil
and that nothing else uses: the array of the new buffer is its own. -/
def newIoBufferBytes (s : Slice) : MemM Nat := newOver s resetOffMark 1

/-- What `Cut` returned becomes a buffer. -/
def keepPiece : Out → MemM Unit
  | .piece (some piece) => do let _ ← newOver piece.buf 0 0
  | _ => return ()

/-- `Get` of the pool of buffers. -/
def fromPool : MemM (Option Nat) := fun m =>
  match takeOut m.ibPool m.choices.head?.join with
  | none => none
  | some (v, rest) => some (.ok v { m with ibPool := rest, choices := m.choices.tail })

/-- `GetIoBuffer`. -/
def getIoBuffer (size : Int) : MemM Nat := do
  match ← fromPool with
  | none => newIoBuffer size
  | some r =>
    alloc r size
    let _ ← method r (.count 1)
    return r

/-- `PutIoBuffer`. -/
def putIoBuffer (r : Nat) : MemM (Option GoError) := do
  let _ ← method r (.count (-1))
  let b ← load r
  if b.count > 0 then return none
  else if b.count < 0 then return some IoBufferPool.errDuplicate
  else
    let _ ← method r .free
    change fun m => { m with ibPool := m.ibPool ++ [r] }
    return none

/-- `Clone`. The bytes are those `Bytes` leads to, and they are read while they are copied. -/
def clone (r : Nat) : MemM Nat := do
  let b ← load r
  let c ← getIoBuffer b.len
  let b ← load r
  let p ← bytesOf b
  let _ ← record c (.write p) (writeFrom c b.buf b.off b.buf.len)
  let b ← load r
  let _ ← method c (.setEOF b.eof)
  return c

/-- A call. -/
inductive Call where
  | method (r : Nat) (op : Op)
  | alloc (r : Nat) (size : Int)
  | clone (r : Nat)
  | newIoBuffer (capacity : Int)
  | newIoBufferBytes (s : Slice)
  | getIoBuffer (size : Int)
  | putIoBuffer (r : Nat)

/-- The program of a call. A part of `Alloc` is no call, and `Clone` is for buffers that are not in the pool, which
could return the buffer itself. -/
def program : Call → MemM Unit
  | .method _ (.fill _) => fun _ => none
  | .method r op => do keepPiece (← method r op)
  | .alloc r size => alloc r size
  | .clone r => fun m => if r ∈ m.ibPool then none else (do let _ ← clone r : MemM Unit) m
  | .newIoBuffer capacity => do let _ ← newIoBuffer capacity
  | .newIoBufferBytes s => do let _ ← newIoBufferBytes s
  | .getIoBuffer size => do let _ ← getIoBuffer size
  | .putIoBuffer r => do let _ ← putIoBuffer r

/-- The memory behind a result. -/
def memoryOf {α : Type} : Result α → Memory
  | .ok _ m => m
  | .error _ m => m

/-- A call, with what the pools return. -/
abbrev Label := Call × List (Option Nat)

/-- The calls as a system. -/
def system : Lib.System Memory Label := ⟨fun m label => (program label.1 { m with choices := label.2 }).map memoryOf⟩

/-! ### Buffers as values -/

/-- A method of a value. -/
def body (pool : Pool) : Op → BufM Out
  | .write p => do return .plain (.count (← IoBuffer.write pool p) none)
  | .writeByte p => do IoBuffer.writeByte pool p; return .plain .done
  | .append data => do IoBuffer.append pool data; return .plain .done
  | .appendByte data => do IoBuffer.appendByte pool data; return .plain .done
  | .readFrom reader => do let result ← IoBuffer.readFrom pool reader; return .plain (.count result.1 result.2)
  | .readOnce last conn answers => do
    let result ← IoBuffer.readOnce pool last conn answers
    return .plain (.count result.1 result.2.1)
  | .read n => do let result ← IoBuffer.read n; return .plain (.data result.1 result.2)
  | .readByte => do let result ← IoBuffer.readByte; return .plain (.byte result.1 result.2)
  | .peek n => do return .plain (.view (← BufM.lift ((← get).peek n)))
  | .cut offset => do return .piece (← IoBuffer.cut offset)
  | .drain offset => do modify (IoBuffer.drain offset); return .plain .done
  | .writeTo w => do let sent ← IoBuffer.writeTo w; return .plain (.sent sent.1 sent.2.1 sent.2.2)
  | .reset => do modify IoBuffer.reset; return .plain .done
  | .mark => do modify IoBuffer.mark; return .plain .done
  | .restore => do modify IoBuffer.restore; return .plain .done
  | .setEOF eof => do modify fun b => { b with eof }; return .plain .done
  | .count n => do
    modify (IoBuffer.addCount · n)
    return .total (← get).count
  | .free => do modify IoBuffer.free; return .plain .done
  | .fill size => do
    modify fun b => { b with buf := (pool.getBytes (sized size)).truncate, pooled := true }
    return .plain .done

/-- Its result, and the buffer behind it. -/
def outcome (pool : Pool) (op : Op) (b : IoBuffer) : Out × IoBuffer :=
  match body pool op b with
  | .ok out b' => (out, b')
  | .error cause b' => (.plain (.panicked cause), b')

/-- The end of `Alloc` finds nothing read, or no memory. -/
def Op.Fits (b : IoBuffer) : Op → Prop
  | .fill _ => b.off = 0 ∨ b.buf.cap = 0
  | _ => True

/-- **What can happen to a single buffer**: it is made, with nothing read, or a method is called, with memory from
some pool. -/
def Moves : Option IoBuffer → Event → Option IoBuffer → Prop
  | none, .made b, some b' => b' = b ∧ b.off = 0
  | some b, .did off op out, some b' => off = b.off ∧ op.Fits b ∧ ∃ pool, outcome pool op b = (out, b')
  | _, _, _ => False

end Strike.Shared
