import Recompile.Build.Report
import Recompile.Json

/-!
# Writing reports

A report is written for people, a line for each source and one for the whole
build, or for programs, as JSON.
-/

namespace Recompile

def SourceStatus.lines (source : String) : SourceStatus → List String
  | ok => [source ++ ": OK"]
  | failed diagnostics => (source ++ ": Failed") :: diagnostics

def SourceStatus.json : SourceStatus → Json
  | ok => .object [("status", .text "ok")]
  | failed diagnostics =>
    .object
      [("status", .text "failed"), ("diagnostics", .array (diagnostics.map Json.text))]

def SourceSet.json (sources : SourceSet) : Json :=
  .array (sources.toList.map Json.text)

def SourceChanges.json (changes : SourceChanges) : Json :=
  .object
    [("added", SourceSet.json changes.added),
      ("changed", SourceSet.json changes.changed),
      ("removed", SourceSet.json changes.removed)]

namespace Report

def lines (report : Report) : List String :=
  (report.statuses.toList.flatMap fun (source, status) => status.lines source)
    ++ ["Compiled " ++ toString report.compiled ++ " files in: "
          ++ toString report.milliseconds ++ "ms"]

def json (report : Report) : Json :=
  .object
    [("mode", .text report.mode.word),
      ("changes", report.changes.json),
      ("units", .object (report.statuses.toList.map fun (source, status) => (source, status.json))),
      ("dependants", SourceSet.json report.dependants),
      ("success", .boolean report.success),
      ("duration_ms", .number report.milliseconds)]

end Report
end Recompile
