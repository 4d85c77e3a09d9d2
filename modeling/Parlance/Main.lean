import Parlance.CommandLine.Report

/-!
# The program

Reads the files of a request, prints its report, and ends with its code.
-/

set_option autoImplicit false

namespace Parlance.CommandLine

/-- Why a file cannot be read, in words. -/
def reasonOf : IO.Error → String
  | .noFileOrDirectory .. => "No such file or directory (os error 2)"
  | .permissionDenied .. => "Permission denied (os error 13)"
  | .inappropriateType .. => "Not a directory (os error 20)"
  | e => toString e

/-- The text of a file, or why there is none. -/
def readText (path : String) : IO (Except FileError String) := do
  try
    let bytes ← IO.FS.readBinFile path
    match String.fromUTF8? bytes with
    | some text => return .ok text
    | none => return .error (.malformed (.ofPath path) "the text is not valid UTF-8")
  catch e => return .error (.unavailable (reasonOf e))

/-- How to call the program. -/
def synopsis : String :=
  "usage: parlance [--tree FILE] [--config FILE] [--log-level LEVEL] [--permission NAME]...\n"
    ++ "         (check | usages COMMAND | dispatch COMMAND [TOKEN]...\n"
    ++ "          | suggest [--json] COMMAND [TOKEN]...)"

end Parlance.CommandLine

open Parlance Parlance.CommandLine in
/-- Answers the request that the words of the command line make. -/
def main (words : List String) : IO UInt32 := do
  match Request.ofWords? words with
  | none =>
    IO.eprintln synopsis
    return misuseCode.toUInt32
  | some request =>
    let paths := request.tree :: request.config.toList
    let texts ← paths.mapM fun path => do return (path, ← readText path)
    let missing := FileError.unavailable "No such file or directory (os error 2)"
    let report := request.report fun path => (texts.lookup path).getD (.error missing)
    for line in report.output do IO.println line
    for line in report.diagnostics do IO.eprintln line
    return report.code.toUInt32
