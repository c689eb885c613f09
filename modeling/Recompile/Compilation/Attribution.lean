import Recompile.Text.Pieces
import Recompile.ClassName

/-!
# The source of a class

A compiler names the class files that it wrote, not the sources behind them.
Which source of a batch a class comes from is told by the source file that
the class names and, between sources of one name, by the directory of its
package.
-/

namespace Recompile
namespace Attribution

def fileName (source : String) : String :=
  match Text.splitLast? '/' source.toList with
  | some (_, name) => String.ofList name
  | none => source

def directory (source : String) : String :=
  match Text.splitLast? '/' source.toList with
  | some (directory, _) => String.ofList directory
  | none => ""

/-- The file that a class which names none is taken to come from: that of its outermost class. -/
def defaultFileName (name : ClassName) : String :=
  let simple := name.simpleName.toList
  let outer :=
    match Text.splitFirst? '$' simple with
    | some (outer, _) => outer
    | none => simple
  String.ofList outer ++ ".java"

def packageDirectory (name : ClassName) : String :=
  name.package.map fun c => if c = '.' then '/' else c

def endsWith (text ending : String) : Bool :=
  (Text.before? ending.toList text.toList).isSome

def sourceOf? (sources : List String) (name : ClassName) (sourceFile : Option String) :
    Option String :=
  let file := sourceFile.getD (defaultFileName name)
  let package := packageDirectory name
  let candidates := sources.filter fun source => fileName source = file
  if candidates.length ≤ 1 then candidates.head?
  else
    match candidates.find? fun source => directory source = package with
    | some source => some source
    | none =>
      candidates.find? fun source => package ≠ "" && endsWith (directory source) package

end Attribution
end Recompile
