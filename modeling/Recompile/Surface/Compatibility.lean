import Recompile.Surface.Snapshot

/-!
# Binary compatibility

Two versions of a class are compared rule by rule. Each rule looks at one
kind of change and says how far it reaches; the level of the whole change is
the widest of them. The rules follow the chapter on binary compatibility of
the Java language specification, on the safe side where the exact rule would
need the whole program.
-/

namespace Recompile

inductive Compatibility where
  /-- Nothing that depends on the class needs to be compiled again. -/
  | compatible
  /-- The direct dependants have to be compiled again. -/
  | incompatible
  /-- Copies of a value may be anywhere, so only a full build is safe. -/
  | globallyIncompatible
deriving DecidableEq

namespace Compatibility

def rank : Compatibility → Nat
  | compatible => 0
  | incompatible => 1
  | globallyIncompatible => 2

def join (a b : Compatibility) : Compatibility :=
  if a.rank < b.rank then b else a

def widest (levels : List Compatibility) : Compatibility :=
  levels.foldl join compatible

def incompatibleIf (broken : Bool) : Compatibility :=
  if broken then incompatible else compatible

/-!
# Rules for one member

A field or method that both versions have is compared by its flags and, for
a field, by its type.
-/

abbrev FieldRule := FieldDecl → FieldDecl → Compatibility

abbrev MethodRule := MethodDecl → MethodDecl → Compatibility

def fieldRules : List FieldRule :=
  [fun old new => incompatibleIf (old.flags.narrowed new.flags),
    fun old new => incompatibleIf (old.flags.differsIn new.flags .staticFlag),
    fun old new => incompatibleIf (old.flags.gains new.flags .finalFlag),
    fun old new => incompatibleIf (old.type ≠ new.type)]

/-- A method that is static cannot be overridden, so making it final harms nobody. -/
def methodRules : List MethodRule :=
  [fun old new => incompatibleIf (old.flags.narrowed new.flags),
    fun old new => incompatibleIf (old.flags.gains new.flags .abstractFlag),
    fun old new =>
      incompatibleIf
        (old.flags.gains new.flags .finalFlag && !old.flags.contains .staticFlag),
    fun old new => incompatibleIf (old.flags.differsIn new.flags .staticFlag)]

def memberLevel {μ : Type} (rules : List (μ → μ → Compatibility)) (old : μ)
    (counterpart : Option μ) : Compatibility :=
  match counterpart with
  | none => incompatible
  | some new => widest (rules.map fun rule => rule old new)

/-!
# Rules for the class

Flags, supertypes and constants of the class itself, and its members that
are not private.
-/

abbrev ClassRule := ClassSurface → ClassSurface → Compatibility

/-- Whether `other` may call or override the method; the static initializer is out of reach. -/
def isVisibleMethod (method : MethodDecl) : Bool :=
  !method.flags.isPrivate && method.signature.name ≠ ClassSurface.staticInitializer

def fieldsLevel (old new : ClassSurface) : Compatibility :=
  widest
    ((old.fields.filter fun field => !field.flags.isPrivate).map fun field =>
      memberLevel fieldRules field (new.field? field.name))

def methodsLevel (old new : ClassSurface) : Compatibility :=
  widest
    ((old.methods.filter isVisibleMethod).map fun method =>
      memberLevel methodRules method (new.method? method.signature))

/-- A constant is copied to its uses, which no reference gives away afterwards. -/
def constantsLevel (old new : ClassSurface) : Compatibility :=
  if old.constants.any fun constant =>
      new.constant? constant.name ≠ some constant.fingerprint then
    globallyIncompatible
  else compatible

def classRules : List ClassRule :=
  [fun old new => incompatibleIf (old.flags.gains new.flags .abstractFlag),
    fun old new => incompatibleIf (old.flags.gains new.flags .finalFlag),
    fun old new => incompatibleIf (old.flags.loses new.flags .publicFlag),
    fun old new =>
      incompatibleIf (old.superClass ≠ new.superClass || old.interfaces ≠ new.interfaces),
    constantsLevel,
    fieldsLevel,
    methodsLevel]

/-!
# Shadowing

A member that is added changes how existing uses resolve when an ancestor
declares it already. Initializers are never inherited. The ancestors are
those before the change.
-/

def addedFields (old new : ClassSurface) : List FieldDecl :=
  new.fields.filter fun field => (old.field? field.name).isNone

def isInheritable (signature : Signature) : Bool :=
  signature.name ≠ ClassSurface.constructor && signature.name ≠ ClassSurface.staticInitializer

def addedMethods (old new : ClassSurface) : List Signature :=
  ((new.methods.map MethodDecl.signature).filter fun signature =>
    (old.method? signature).isNone).filter isInheritable

def shadows (before : Snapshot) (old new : ClassSurface) : Bool :=
  let fields := addedFields old new
  let methods := addedMethods old new
  if fields.isEmpty && methods.isEmpty then false
  else
    (before.ancestors old.name).any fun ancestor =>
      fields.any (fun field => ancestor.hasField field.name)
        || methods.any ancestor.hasMethod

def betweenVersions (before : Snapshot) (old new : ClassSurface) : Compatibility :=
  (widest (classRules.map fun rule => rule old new)).join
    (incompatibleIf (shadows before old new))

/--
The level of a change from one version to another, either of which may be
absent. `before` is the snapshot from before the change.
-/
def between (before : Snapshot) : Option ClassSurface → Option ClassSurface → Compatibility
  | none, _ => compatible
  | some old, none =>
    if old.constants.isEmpty then incompatible else globallyIncompatible
  | some old, some new => betweenVersions before old new

end Compatibility
end Recompile
