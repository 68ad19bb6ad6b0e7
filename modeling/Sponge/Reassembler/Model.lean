import Sponge.ByteStream
import Sponge.Lib.Ranges
import Sponge.Lib.Runs

/-!
# The stream reassembler

Substrings of a stream arrive in any order. They are stored in a ring of
`capacity` cells, and every run of cells that continues the assembled part of
the stream is flushed to the output stream. The window of acceptable indices
starts at the first unassembled byte, not at the first unread one.
-/

namespace Sponge

open Lib

structure StreamReassembler where
  aux : List UInt8
  output : ByteStream
  capacity : ℕ
  startAux : ℕ
  empty : List Bool
  bytesUnass : ℕ
  endStream : ℕ
  eofSeen : Bool := false
  deriving DecidableEq

namespace StreamReassembler

/-- A reassembler with `capacity` blank cells. The end of the stream is not
known yet: `_end_stream` starts at `-1`. -/
def new (capacity : ℕ) : StreamReassembler where
  aux := List.replicate capacity 32
  output := ByteStream.new capacity
  capacity := capacity
  startAux := 0
  empty := List.replicate capacity true
  bytesUnass := 0
  endStream := 2 ^ 64 - 1

/-- Copy `size` bytes of `data` from `locData` on to the cells from `locAux`
on, wrapping around the end of the ring if they do not fit before it. -/
def copyToAux (r : StreamReassembler) (data : List UInt8)
    (locData locAux size : ℕ) : StreamReassembler :=
  if locAux + size ≤ r.capacity then
    { r with
      aux := replaceRange r.aux locAux size (substr data locData size)
      bytesUnass := r.bytesUnass + countRange r.empty locAux (locAux + size)
      empty := fillRange r.empty locAux (locAux + size) false }
  else
    let sizeLeft := locAux + size - r.capacity
    let sizeRight := r.capacity - locAux
    let aux := replaceRange r.aux locAux sizeRight (substr data locData sizeRight)
    { r with
      -- The source takes the left part from `sizeRight` on, whatever `locData`
      -- is, and bounds its length by `size` instead of `sizeLeft`.
      aux := replaceRange aux 0 sizeLeft (substr data sizeRight size)
      bytesUnass := r.bytesUnass +
        (countRange r.empty locAux r.empty.length + countRange r.empty 0 sizeLeft)
      empty := fillRange (fillRange r.empty locAux r.empty.length false) 0 sizeLeft false }

/-- Store what of `data` lies in the window. The end of the window is a sum of `size_t` in the
source, which does not wrap as long as the bytes written and the capacity stay below `2 ^ 64`. -/
def writeToAux (r : StreamReassembler) (data : List UInt8) (startData : ℕ)
    (eof : Bool) : StreamReassembler :=
  if data.length = 0 then
    if eof then { r with output := r.output.endInput } else r
  else
    let endAux := r.startAux + r.capacity
    let endData := add64 startData data.length
    if startData > endAux ∨ endData < r.startAux then r
    else
      let startCopy := max r.startAux startData
      let endCopy := min endAux endData
      let size := sub64 endCopy startCopy
      let locData := sub64 startCopy startData
      let locAux := startCopy % r.capacity
      let stored := r.copyToAux data locData locAux size
      if eof then { stored with endStream := endData } else stored

/-- The first empty cell from that of the first unassembled byte on, or the end
of the ring. -/
def itEnd (r : StreamReassembler) : ℕ :=
  findRange r.empty (r.startAux % r.capacity) r.empty.length true

/-- Write the occupied cells from the first unassembled byte up to the first
empty cell, or up to the end of the ring. -/
def flushToEnd (r : StreamReassembler) : StreamReassembler :=
  let start := r.startAux % r.capacity
  let data := substr r.aux start (r.itEnd - start)
  let numWrote := r.output.writeSize data
  { r with
    output := r.output.write data
    empty := fillRange r.empty start (start + numWrote) true
    startAux := r.startAux + numWrote
    bytesUnass := sub64 r.bytesUnass numWrote }

/-- Write the occupied cells from the start of the ring up to the first empty
cell before `itStart`. All cells before `itStart` are marked empty, also those
that were not written. -/
def flushFromStart (r : StreamReassembler) (itStart : ℕ) : StreamReassembler :=
  let itEnd := findRange r.empty 0 itStart true
  let data := substr r.aux 0 itEnd
  let numWrote := r.output.writeSize data
  { r with
    output := r.output.write data
    empty := fillRange r.empty 0 itStart true
    startAux := r.startAux + numWrote
    bytesUnass := sub64 r.bytesUnass numWrote }

def writeToBytestream (r : StreamReassembler) : StreamReassembler :=
  if r.itEnd = r.empty.length then
    r.flushToEnd.flushFromStart (r.startAux % r.capacity)
  else
    r.flushToEnd

def pushSubstring (r : StreamReassembler) (data : List UInt8) (index : ℕ)
    (eof : Bool) : StreamReassembler :=
  let r := (r.writeToAux data index eof).writeToBytestream
  let r := { r with eofSeen := if r.eofSeen then true else eof }
  if r.startAux = r.endStream then { r with output := r.output.endInput } else r

def streamOut (r : StreamReassembler) : ByteStream := r.output

def unassembledBytes (r : StreamReassembler) : ℕ := r.bytesUnass

def isEmpty (r : StreamReassembler) : Bool := r.unassembledBytes == 0

/-- The reader takes `len` bytes from the output stream. -/
def readOutput (r : StreamReassembler) (len : ℕ) : StreamReassembler :=
  { r with output := r.output.popOutput len }

end StreamReassembler

end Sponge
