import Recompile.Failure
import Recompile.State.Record

/-!
# The first pages

The first two pages describe the file as it was after two successive changes.
Each of them tells how large pages are and how far the file may grow, and has
the records of two tables that lead to all others: the table of unused pages
and the catalog, in which every other table has its record under its name.
-/

namespace Recompile
namespace State

def signature : Nat := 0xBEEFC0DE

def version : Nat := 1

def newPageSize : Nat := 4096

def sizeLimit : Nat := 256 * 1024 * 1024

def reachLimit : Nat := 93824992231424

structure Head where
  sizeLimit : Nat
  /-- The record of the table of unused pages, in which the size of pages stands too. -/
  unused : Record
  catalog : Record
  lastPage : Nat
  /-- How many changes the file has seen. -/
  change : Nat
deriving DecidableEq

def headSize : Nat := 152

/-- Where in a first page the numbers stand that every change writes anew. -/
def headPlace : Nat := 32

/-- The flags of the table of unused pages: keys are numbers, and the file is no directory. -/
def unusedFlags : Nat := 0x4008

namespace Head

def fresh : Head where
  sizeLimit := State.sizeLimit
  unused := { Record.empty with padding := newPageSize, flags := unusedFlags }
  catalog := .empty
  lastPage := 1
  change := 0

def read (file : Buffer) (place : Nat) : Head where
  sizeLimit := file.number (place + headPlace) 8
  unused := .ofSlice ⟨file, place + 40, recordSize⟩
  catalog := .ofSlice ⟨file, place + 88, recordSize⟩
  lastPage := file.number (place + 136) 8
  change := file.number (place + 144) 8

def pageSize (head : Head) : Nat :=
  head.unused.padding

def numbers (head : Head) : List (Nat × Nat) :=
  (8, head.sizeLimit) :: head.unused.numbers ++ head.catalog.numbers
    ++ [(8, head.lastPage), (8, head.change)]

def toBuffer (head : Head) : Buffer :=
  Buffer.ofNumbers (headSize - headPlace) head.numbers

def page (head : Head) (number : Nat) : Buffer :=
  Buffer.ofNumbers head.pageSize
    ([(8, number), (2, 0), (2, PageKind.file.mark), (4, 0), (4, signature), (4, version), (8, 0)]
      ++ head.numbers)

end Head

def freshFile : Buffer :=
  Head.fresh.page 0 ++ Head.fresh.page 1

/-!
# Opening a file
-/

structure Layout where
  pageSize : Nat
  sizeLimit : Nat
deriving DecidableEq

def checkHeadAt (file : Buffer) (place : Nat) : Except StateFault Unit :=
  if 2 ^ 31 ≤ place then .error (.disk .invalidArgument)
  else if file.size < place + headSize then .error .foreignFile
  else if !PageKind.file.isIn (file.number (place + 10) 2) then .error .foreignFile
  else if file.number (place + 16) 4 ≠ signature then .error .foreignFile
  else if file.number (place + 20) 4 ≠ version then .error .otherVersion
  else .ok ()

/-- The later of the first pages, which tells how large pages are and how many there are. -/
def laterHead (file : Buffer) : Head :=
  let first := Head.read file 0
  let second := Head.read file first.pageSize
  if first.change < second.change then second else first

namespace Layout

def ofFile (file : Buffer) : Except StateFault Layout := do
  checkHeadAt file 0
  checkHeadAt file (Head.read file 0).pageSize
  let head := laterHead file
  let inUse := (head.lastPage + 1) * head.pageSize % 2 ^ 64
  let limit := max State.sizeLimit inUse
  if reachLimit < limit then throw (.disk .outOfMemory)
  return ⟨head.pageSize, limit⟩

def pageLimit (layout : Layout) : Nat :=
  layout.sizeLimit / layout.pageSize

/-- The first page of the two that has the traces of this change, or of the one before it. -/
def headPlaceOf (layout : Layout) (change : Nat) : Nat :=
  change % 2 * layout.pageSize

def head (layout : Layout) (file : Buffer) (change : Nat) : Head :=
  Head.read file (layout.headPlaceOf change)

def latestChange (layout : Layout) (file : Buffer) : Nat :=
  let first := (layout.head file 0).change
  let second := (layout.head file 1).change
  if first < second then second else first

def nodeLimit (layout : Layout) : Nat :=
  (layout.pageSize - headerSize) / 2 / 2 * 2 - 2

def listLimit (layout : Layout) : Nat :=
  (layout.pageSize - headerSize) / 8 - 1

end Layout
end State
end Recompile
