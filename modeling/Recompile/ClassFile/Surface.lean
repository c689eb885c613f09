import Recompile.ClassFile.Layout
import Recompile.Digest

/-!
# From a class file to its surface

The declared parts of a class are looked up in its pool. Method bodies are
not read: what they refer to is found in the pool, which names every class,
and every descriptor of a member, that the code uses.
-/

namespace Recompile
namespace ClassFile

def literalFingerprint (text : String) : UInt64 :=
  UInt64.ofNat (Bytes.toNat ((Digest.sha256 (Bytes.ofText text)).take 8))

def describe {α : Type} : Except BadDescriptor α → Except Fault α
  | .ok value => .ok value
  | .error error => .error (.descriptor error)

/-- Whether the value of the field may be copied to its uses. -/
def isSharedConstant (flags : Modifiers) : Bool :=
  flags.contains .staticFlag && flags.contains .finalFlag && !flags.isPrivate

def readField (layout : Layout) (member : Member) :
    Except Fault (FieldDecl × Option SharedConstant) := do
  let name ← layout.pool.text member.name
  let type ← describe (JavaType.ofField (← layout.pool.text member.descriptor))
  let field : FieldDecl := ⟨member.flags, name, type⟩
  if isSharedConstant member.flags then
    match layout.attribute? member.attributes "ConstantValue" with
    | none => return (field, none)
    | some data =>
      let literal ← layout.pool.literal (← Decoder.u2.runOn data)
      return (field, some ⟨name, literalFingerprint literal⟩)
  else return (field, none)

/-- The classes of an `Exceptions` attribute, each looked up as soon as it is read. -/
def readExceptions (pool : Pool) (data : Bytes) : Except Fault (List ClassName) :=
  let exception : Decoder ClassName := do
    let index ← Decoder.u2
    let name ← pool.className index
    return ClassName.ofInternal name
  (Decoder.counted exception).runOn data

def readMethod (layout : Layout) (member : Member) : Except Fault MethodDecl := do
  let name ← layout.pool.text member.name
  let descriptor ← describe (MethodType.ofText (← layout.pool.text member.descriptor))
  let exceptions ←
    match layout.attribute? member.attributes "Exceptions" with
    | none => pure []
    | some data => readExceptions layout.pool data
  return ⟨member.flags, ⟨name, descriptor.parameters, descriptor.result⟩,
    Std.ExtTreeSet.ofList exceptions⟩

def mentionedTypes (pool : Pool) : Constant → Except Fault (List JavaType)
  | .classEntry name => do
    return [← describe (JavaType.ofPoolName (← pool.text name))]
  | .nameAndType descriptor | .methodType descriptor => do
    let text ← pool.text descriptor
    if text.toList.head? = some '(' then
      return (← describe (MethodType.ofText text)).types
    else return [← describe (JavaType.ofField text)]
  | _ => return []

def poolTypes (pool : Pool) : Except Fault (List JavaType) := do
  return (← pool.entries.toList.mapM (mentionedTypes pool)).flatten

/-!
# References

Supertypes go with the flags of the class, the types of a member with those
of the member, and what the pool names besides is internal.
-/

abbrev Declaration := Modifiers × List JavaType

def fieldDeclaration (field : FieldDecl) : Declaration :=
  (field.flags, [field.type])

def methodDeclaration (method : MethodDecl) : Declaration :=
  (method.flags,
    method.signature.parameters ++ method.signature.result
      :: method.exceptions.toList.map JavaType.object)

def collect (own : ClassName) (declarations : List Declaration)
    (mentions : List JavaType) : References :=
  let declared :=
    declarations.foldl
      (fun references (owner, types) =>
        types.foldl (fun known type => known.declare owner type) references)
      References.empty
  (mentions.foldl References.mention declared).without own

def surfaceOf (bytes : Bytes) : Except Fault ClassSurface := do
  let layout ← Layout.ofBytes bytes
  let name ← layout.className
  let superClass ←
    if layout.superClass = 0 then pure none
    else do
      let superName ← layout.pool.className layout.superClass
      pure (some (ClassName.ofInternal superName))
  let interfaces ← layout.interfaces.mapM fun index => do
    return ClassName.ofInternal (← layout.pool.className index)
  let fields ← layout.fields.mapM (readField layout)
  let methods ← layout.methods.mapM (readMethod layout)
  let mentions ← poolTypes layout.pool
  let supertypes := (superClass.toList ++ interfaces).map JavaType.object
  let declarations :=
    (layout.flags, supertypes)
      :: (fields.map fun (field, _) => fieldDeclaration field)
      ++ methods.map methodDeclaration
  return {
    version := layout.version
    flags := layout.flags
    name := name
    superClass := superClass
    interfaces := interfaces
    fields := fields.map Prod.fst
    methods := methods
    constants := fields.filterMap Prod.snd
    references := collect name declarations mentions
  }

end ClassFile
end Recompile
