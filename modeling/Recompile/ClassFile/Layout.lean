import Recompile.Surface
import Recompile.ClassFile.Pool

/-!
# The layout of a class file

After the pool come the flags and names of the class, its interfaces, fields,
methods and attributes, and then nothing more. Attributes are kept as bytes
under the index of their name.
-/

namespace Recompile
namespace ClassFile

structure Attribute where
  name : UInt16
  data : Bytes
deriving DecidableEq

structure Member where
  flags : Modifiers
  name : UInt16
  descriptor : UInt16
  attributes : List Attribute
deriving DecidableEq

structure Layout where
  version : FormatVersion
  pool : Pool
  flags : Modifiers
  thisClass : UInt16
  superClass : UInt16
  interfaces : List UInt16
  fields : List Member
  methods : List Member
  attributes : List Attribute

def magic : UInt32 := 0xCAFEBABE

def readAttribute : Decoder Attribute := do
  let name ← Decoder.u2
  let length ← Decoder.u4
  return ⟨name, ← Decoder.take length.toNat⟩

def readMember : Decoder Member := do
  let flags ← Decoder.u2
  let name ← Decoder.u2
  let descriptor ← Decoder.u2
  return ⟨⟨flags⟩, name, descriptor, ← Decoder.counted readAttribute⟩

/-- A class file and nothing after it. -/
def readLayout : Decoder Layout := do
  let found ← Decoder.u4
  if found ≠ magic then
    throw (.badMagic found)
  let minor ← Decoder.u2
  let major ← Decoder.u2
  let pool ← readPool
  let flags ← Decoder.u2
  let thisClass ← Decoder.u2
  let superClass ← Decoder.u2
  let interfaces ← Decoder.counted Decoder.u2
  let fields ← Decoder.counted readMember
  let methods ← Decoder.counted readMember
  let attributes ← Decoder.counted readAttribute
  let cursor ← get
  if cursor.rest ≠ [] then
    throw (.trailing cursor.rest.length)
  return {
    version := ⟨major, minor⟩
    pool := pool
    flags := ⟨flags⟩
    thisClass := thisClass
    superClass := superClass
    interfaces := interfaces
    fields := fields
    methods := methods
    attributes := attributes
  }

namespace Layout

def ofBytes (bytes : Bytes) : Except Fault Layout :=
  readLayout.runOn bytes

/-- The data of the first attribute of that name; one whose name cannot be read is passed over. -/
def attribute? (layout : Layout) (attributes : List Attribute) (name : String) :
    Option Bytes :=
  (attributes.find? fun candidate =>
    match layout.pool.text candidate.name with
    | .ok found => found = name
    | .error _ => false).map Attribute.data

def className (layout : Layout) : Except Fault ClassName :=
  (layout.pool.className layout.thisClass).map ClassName.ofInternal

def sourceFile (layout : Layout) : Except Fault (Option String) := do
  match layout.attribute? layout.attributes "SourceFile" with
  | none => return none
  | some data => return some (← layout.pool.text (← Decoder.u2.runOn data))

end Layout

def originOf (bytes : Bytes) : Except Fault (ClassName × Option String) := do
  let layout ← Layout.ofBytes bytes
  let name ← layout.className
  return (name, ← layout.sourceFile)

end ClassFile
end Recompile
