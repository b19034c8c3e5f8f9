import MuduoLite.Library.Window

/-!
# The byte buffer

`Buffer` is a vector of bytes with two indices.  The bytes before the read
index are consumed, those between the two indices are readable, those after the
write index are free.

Every access to the vector goes through `copyOut` or `copyIn`, which fail
(`none`) when the range is not inside the vector.  An operation that returns
`some` has therefore touched no byte outside `buffer`.
-/

namespace MuduoLite

open Window

abbrev Byte := UInt8

/-- The values of `errno` the code tells apart; `EAGAIN` is `EWOULDBLOCK`. -/
inductive Errno
  | EWOULDBLOCK
  | EPIPE
  | ECONNRESET
  | other (code : ℕ)
  deriving DecidableEq, Repr

structure Buffer where
  buffer : List Byte
  readerIndex : ℕ
  writerIndex : ℕ
  deriving DecidableEq, Repr

namespace Buffer

def kCheapPrepend : ℕ := 8

def kInitialSize : ℕ := 1024

/-- The size of the spill area `extrabuf` on the stack of `readFd`. -/
def kExtrabufSize : ℕ := 65536

/-! ## Checked access to the vector -/

/-- `std::copy` out of `[first, last)`. -/
def copyOut (buffer : List Byte) (first last : ℕ) : Option (List Byte) :=
  if first ≤ last ∧ last ≤ buffer.length then some (window buffer first last) else none

/-- `std::copy` of `data` to the range that starts at `first`. -/
def copyIn (buffer : List Byte) (first : ℕ) (data : List Byte) : Option (List Byte) :=
  if first + data.length ≤ buffer.length then some (overwrite buffer first data) else none

/-- `std::vector::resize`: new bytes are zero. -/
def resize (buffer : List Byte) (size : ℕ) : List Byte :=
  buffer.take size ++ List.replicate (size - buffer.length) 0

/-! ## Operations -/

/-- The constructor `Buffer(initalSize)`. -/
def new (initialSize : ℕ) : Buffer where
  buffer := List.replicate (kCheapPrepend + initialSize) 0
  readerIndex := kCheapPrepend
  writerIndex := kCheapPrepend

def readableBytes (b : Buffer) : ℕ := b.writerIndex - b.readerIndex

def writableBytes (b : Buffer) : ℕ := b.buffer.length - b.writerIndex

def prependableBytes (b : Buffer) : ℕ := b.readerIndex

def retrieveAll (b : Buffer) : Buffer :=
  { b with readerIndex := kCheapPrepend, writerIndex := kCheapPrepend }

def retrieve (b : Buffer) (len : ℕ) : Buffer :=
  if len < b.readableBytes then { b with readerIndex := b.readerIndex + len } else b.retrieveAll

/-- The string is copied from `[peek(), peek() + len)` before the indices move. -/
def retrieveAsString (b : Buffer) (len : ℕ) : Option (List Byte × Buffer) := do
  let result ← copyOut b.buffer b.readerIndex (b.readerIndex + len)
  return (result, b.retrieve len)

def retrieveAllAsString (b : Buffer) : Option (List Byte × Buffer) :=
  b.retrieveAsString b.readableBytes

def makeSpace (b : Buffer) (len : ℕ) : Option Buffer :=
  if b.writableBytes + b.prependableBytes < len + kCheapPrepend then
    some { b with buffer := resize b.buffer (b.writerIndex + len) }
  else do
    -- the readable bytes move to the front, the two ranges may overlap
    let readable ← copyOut b.buffer b.readerIndex b.writerIndex
    let moved ← copyIn b.buffer kCheapPrepend readable
    return {
      buffer := moved
      readerIndex := kCheapPrepend
      writerIndex := kCheapPrepend + b.readableBytes }

def ensureWritableBytes (b : Buffer) (len : ℕ) : Option Buffer :=
  if b.writableBytes < len then b.makeSpace len else some b

def append (b : Buffer) (data : List Byte) : Option Buffer := do
  let b ← b.ensureWritableBytes data.length
  let buffer ← copyIn b.buffer b.writerIndex data
  return { b with buffer := buffer, writerIndex := b.writerIndex + data.length }

/-! ## System calls -/

/-- What the kernel gives to a `readv`: the bytes it filled in, or an error. -/
inductive ReadResult
  | data (bytes : List Byte)
  | error (errno : Errno)
  deriving DecidableEq, Repr

/-- The sum of the lengths of the iovecs `readFd` passes: the spill area is
passed only when the free part of the vector is smaller than it. -/
def iovecBytes (b : Buffer) : ℕ :=
  if b.writableBytes < kExtrabufSize then b.writableBytes + kExtrabufSize else b.writableBytes

/-- `readFd` when `readv` gives `result`.  The kernel fills the free part of the
vector first and then the spill area. -/
def readFd (b : Buffer) : ReadResult → Option Buffer
  | .error _ => some b
  | .data bytes => do
      let writable := b.writableBytes
      let filled ← copyIn b.buffer b.writerIndex (bytes.take writable)
      let extrabuf := bytes.drop writable
      if bytes.length ≤ writable then
        return { b with buffer := filled, writerIndex := b.writerIndex + bytes.length }
      else if extrabuf.length ≤ kExtrabufSize then
        append { b with buffer := filled, writerIndex := filled.length } extrabuf
      else none

/-- The bytes `writeFd` passes to `::write`. -/
def writeFd (b : Buffer) : Option (List Byte) :=
  copyOut b.buffer b.readerIndex b.writerIndex

end Buffer

end MuduoLite
