import Mathlib.Algebra.GroupWithZero.Nat
import Nidas.Lib.Cursor
import Nidas.Core.Sample

/-!
# Buffered input

`IOStream` (`IOStream.cc`) holds a buffer over an `IOChannel`.  The channel is
given by what its reads return, one after the other, with the value that
`isNewInput()` has after each; when they are used up, a read throws
`EOFException`.  The buffer is kept as the bytes in front of `_tail`, which
`backup` goes back over, and the bytes between `_tail` and `_head`.
-/

namespace Nidas.Core

open Lib

/-- What one physical read of the channel returns.  The number of bytes is a
`size_t`. -/
structure ChannelRead where
  bytes : List UInt8
  newInput : Bool := false
  length_lt : bytes.length < 2 ^ 64 := by decide
  deriving DecidableEq, Repr

/-- The members of an `IOStream`, and the reads that its channel will do. -/
structure IOStream where
  reads : List ChannelRead
  used : List UInt8 := []
  bytes : List UInt8 := []
  newInput : Bool := true
  nbytesIn : ℤ := 0
  deriving DecidableEq, Repr

namespace IOStream

/-- `IOStream::available` -/
def available (io : IOStream) : ℕ := io.bytes.length

/-- A physical read into the empty buffer. -/
def load (io : IOStream) (read : ChannelRead) (rest : List ChannelRead) : IOStream where
  reads := rest
  used := []
  bytes := read.bytes
  newInput := read.newInput
  nbytesIn := if read.newInput then 0 else io.nbytesIn

/-- The buffer after a read that threw `EOFException`. -/
def atEof (io : IOStream) : IOStream :=
  { io with used := [], bytes := [], newInput := false }

/-- `IOStream::read()`: the number of bytes read, or none for `EOFException`. -/
def read (io : IOStream) : Option ℕ × IOStream :=
  -- avoid blocking on more data if there is already some in the buffer
  if io.available > 0 then (some 0, { io with newInput := false })
  else
    match io.reads with
    | [] => (none, io.atEof)
    | read :: rest => (some read.bytes.length, io.load read rest)

/-- `IOStream::readBuf` -/
def readBuf (len : ℕ) (io : IOStream) : List UInt8 × IOStream :=
  let data := io.bytes.take len
  (data,
    { io with
      used := io.used ++ data
      bytes := io.bytes.drop len
      nbytesIn := io.nbytesIn + data.length })

/-- `IOStream::backup()` -/
def backup (io : IOStream) : IOStream :=
  { io with used := [], bytes := io.used ++ io.bytes, nbytesIn := io.nbytesIn - io.used.length }

/-- What `IOStream::read(void*, size_t)` has stored, and whether it has thrown
`EOFException`. -/
structure Transfer where
  data : List UInt8
  eof : Bool
  io : IOStream
  deriving DecidableEq, Repr

/-- The loop of `IOStream::read(void*, size_t)` once the buffer is empty and `len`
bytes are still to be transferred, over the reads of the channel.  Each physical
read sets `_newInput` anew; that `_newInput` is then set from the channel if it
is false changes nothing. -/
def transferLoop : List ChannelRead → ℕ → List UInt8 → IOStream → Transfer
  | [], _, data, io => ⟨data, true, io.atEof⟩
  | read :: rest, len, data, io =>
      let io := io.load read rest
      -- end of file, or EAGAIN on a nonblocking read
      if read.bytes = [] then ⟨data, false, io⟩
      else
        let (more, io) := io.readBuf len
        if more.length < len then transferLoop rest (len - more.length) (data ++ more) io
        else ⟨data ++ more, false, io⟩

/-- `IOStream::read(void*, size_t)` -/
def transfer (len : ℕ) (io : IOStream) : Transfer :=
  let (data, io) := { io with newInput := false }.readBuf len
  if data.length < len then transferLoop io.reads (len - data.length) data io
  else ⟨data, false, io⟩

/-- All bytes that are still to come. -/
def unread (io : IOStream) : List UInt8 := Lib.unread ChannelRead.bytes io.bytes io.reads

end IOStream

end Nidas.Core
