import Recompile.Bytes

/-!
# Buffers

What is changed here and there, as the pages of a file are, is kept in buffers
of bytes. A buffer may be read a little past its end, where everything is
zero, and what would be written past its end is dropped. Numbers stand with
their least significant byte first.
-/

namespace Recompile

abbrev Buffer := ByteArray

namespace Buffer

def block : Buffer :=
  ⟨Array.replicate 4096 0⟩

def addBlocks (buffer : Buffer) : Nat → Buffer
  | 0 => buffer
  | count + 1 => addBlocks (buffer ++ block) count

def extend (buffer : Buffer) (size : Nat) : Buffer :=
  if size ≤ buffer.size then buffer
  else
    let missing := size - buffer.size
    let room : Buffer := ByteArray.emptyWithCapacity size ++ buffer
    room.addBlocks (missing / block.size) ++ block.extract 0 (missing % block.size)

def zeros (count : Nat) : Buffer :=
  extend .empty count

def byte (buffer : Buffer) (place : Nat) : UInt8 :=
  if h : place < buffer.size then buffer[place] else 0

def number (buffer : Buffer) (place : Nat) : Nat → Nat
  | 0 => 0
  | width + 1 => (buffer.byte place).toNat + 256 * number buffer (place + 1) width

def setByte (buffer : Buffer) (place : Nat) (value : UInt8) : Buffer :=
  if h : place < buffer.size then buffer.set place value else buffer

def setNumber (buffer : Buffer) (place : Nat) : Nat → Nat → Buffer
  | 0, _ => buffer
  | width + 1, value =>
    setNumber (buffer.setByte place (UInt8.ofNat value)) (place + 1) width (value / 256)

/-- How many zeros are read past the end of a buffer at most. -/
def margin : Nat := 2 ^ 16

def part (buffer : Buffer) (place length : Nat) : Buffer :=
  let found := buffer.extract place (place + length)
  if found.size < length then found ++ zeros (min margin (length - found.size)) else found

def write (buffer : Buffer) (place : Nat) (bytes : Buffer) : Buffer :=
  if place < buffer.size then
    bytes.copySlice 0 buffer place (min bytes.size (buffer.size - place))
  else buffer

/-- Puts pieces at their places in a buffer, which grows if it has to. -/
def overlay (buffer : Buffer) (pieces : List (Nat × Buffer)) : Buffer :=
  let size := pieces.foldl (fun size (place, piece) => max size (place + piece.size)) buffer.size
  pieces.foldl (fun buffer (place, piece) => write buffer place piece) (buffer.extend size)

def ofNumbers (size : Nat) (numbers : List (Nat × Nat)) : Buffer :=
  (numbers.foldl
    (fun (buffer, place) (width, value) => (setNumber buffer place width value, place + width))
    (zeros size, 0)).1

def ofBytes (bytes : Bytes) : Buffer :=
  ⟨bytes.toArray⟩

def toBytes (buffer : Buffer) : Bytes :=
  buffer.data.toList

end Buffer

structure Slice where
  buffer : Buffer
  start : Nat
  size : Nat

namespace Slice

def ofBuffer (buffer : Buffer) : Slice :=
  ⟨buffer, 0, buffer.size⟩

def byte (slice : Slice) (place : Nat) : UInt8 :=
  Buffer.byte slice.buffer (slice.start + place)

def number (slice : Slice) (place width : Nat) : Nat :=
  Buffer.number slice.buffer (slice.start + place) width

def contents (slice : Slice) : Buffer :=
  Buffer.part slice.buffer slice.start slice.size

end Slice
end Recompile
