import Recompile.ClassFile.Fault
import Recompile.Text.Utf8

/-!
# Failures

A build stops when a class file cannot be read, when the disk or the stored
state fails, when the compiler cannot be started, or when the register of
classes has no entry that it must have. Errors that the compiler reports
about sources are results, not failures.
-/

namespace Recompile

inductive IoFault where
  | notFound
  | permissionDenied
  | alreadyExists
  | notADirectory
  | isADirectory
  | nameTooLong
  | tooManyLinks
  /-- A path holds the character that ends a name for the system. -/
  | pathWithNul
  /-- The same for the arguments of a program. -/
  | argumentWithNul
  /-- The arguments of a program are longer than the system passes on. -/
  | argumentsTooLong
  | outOfMemory
  | invalidArgument
  | fileTooLarge
  | sourceRootMissing
  | reported (text : String)
deriving DecidableEq, Inhabited

def IoFault.message : IoFault → String
  | notFound => "No such file or directory (os error 2)"
  | permissionDenied => "Permission denied (os error 13)"
  | alreadyExists => "File exists (os error 17)"
  | notADirectory => "Not a directory (os error 20)"
  | isADirectory => "Is a directory (os error 21)"
  | nameTooLong => "File name too long (os error 36)"
  | tooManyLinks => "Too many levels of symbolic links (os error 40)"
  | pathWithNul => "file name contained an unexpected NUL byte"
  | argumentWithNul => "nul byte found in provided data"
  | argumentsTooLong => "Argument list too long (os error 7)"
  | outOfMemory => "Cannot allocate memory (os error 12)"
  | invalidArgument => "Invalid argument (os error 22)"
  | fileTooLarge => "File too large (os error 27)"
  | sourceRootMissing => "source root is not a directory"
  | reported text => text

inductive StateFault where
  /-- A key is empty or longer than a table takes. -/
  | badKeySize
  /-- The state file holds something else. -/
  | foreignFile
  /-- The state file is of another version of the format. -/
  | otherVersion
  /-- The state file refers to a page that it does not have. -/
  | missingPage
  /-- A page is not of the kind that is needed where it is. -/
  | wrongPage
  /-- Pages refer to pages further than any table does. -/
  | tooDeep
  /-- What has the name of a table is something else, or is ordered in another way. -/
  | otherTable
  /-- There is nothing where something has to be. -/
  | nothingThere
  /-- The state file cannot grow any further. -/
  | full
  /-- The state file has more pages than it may have. -/
  | outgrown
  /-- An operation on pages failed before, and no other one is taken on. -/
  | spoiled
  /-- A table that was there before is gone. -/
  | lostTable
  /-- A node does not fit where it has to. -/
  | crowdedPage
  /-- Pages do not hang together as they have to. -/
  | disorder
  /-- A text of a table is not well formed. -/
  | badText (flaw : Utf8.Flaw)
  | disk (fault : IoFault)
deriving DecidableEq

def StateFault.message : StateFault → String
  | badKeySize =>
    "MDB_BAD_VALSIZE: Unsupported size of key/DB name/data, or wrong DUPFIXED size"
  | foreignFile => "MDB_INVALID: File is not an LMDB file"
  | otherVersion => "MDB_VERSION_MISMATCH: Database environment version mismatch"
  | missingPage => "MDB_PAGE_NOTFOUND: Requested page not found"
  | wrongPage => "MDB_CORRUPTED: Located page was wrong type"
  | tooDeep => "MDB_CURSOR_FULL: Internal error - cursor stack limit reached"
  | otherTable => "MDB_INCOMPATIBLE: Operation and DB incompatible, or DB flags changed"
  | nothingThere => "MDB_NOTFOUND: No matching key/data pair found"
  | full => "MDB_MAP_FULL: Environment mapsize limit reached"
  | outgrown => "MDB_MAP_RESIZED: Database contents grew beyond environment mapsize"
  | spoiled => "MDB_BAD_TXN: Transaction must abort, has a child, or is invalid"
  | lostTable =>
    "MDB_BAD_DBI: The specified DBI handle was closed/changed unexpectedly"
  | crowdedPage => "MDB_PAGE_FULL: Internal error - page has no more space"
  | disorder => "MDB_PROBLEM: Unexpected problem - txn should abort"
  | badText flaw => "error while decoding: " ++ flaw.message
  | disk fault => fault.message

inductive Failure where
  | malformedClass (path : Path) (reason : ClassFile.Fault)
  | disk (path : Path) (cause : IoFault)
  | state (cause : StateFault)
  | noCompiler (program : String) (cause : IoFault)
  | unownedClass (name : ClassName)
  | unknownSource (source : String)
deriving DecidableEq

namespace Failure

def message : Failure → String
  | malformedClass path reason =>
    "malformed class file " ++ path.text ++ ": " ++ reason.message
  | disk path cause => "I/O failure on " ++ path.text ++ ": " ++ cause.message
  | state cause => "state store failure: " ++ cause.message
  | noCompiler program cause =>
    "failed to run compiler " ++ program ++ ": " ++ cause.message
  | unownedClass name => "class " ++ name.text ++ " is not registered to any source file"
  | unknownSource source =>
    "source file " ++ source ++ " is not registered in the class map"

def chain (failure : Failure) : List String :=
  failure.message ::
    match failure with
    | disk _ cause => [cause.message]
    | state cause => [cause.message]
    | noCompiler _ cause => [cause.message]
    | _ => []

end Failure
end Recompile
