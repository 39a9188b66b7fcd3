import QueryTyping.CommandLine.Command
import QueryTyping.CommandLine.Session
import QueryTyping.Diagnostic.Json
import QueryTyping.Diagnostic.Text
import QueryTyping.Files.Documents
import QueryTyping.Report
import QueryTyping.Settings.Discovery
import QueryTyping.Settings.OfToml
import QueryTyping.Text.Capitals

/-!
# Running commands

A run finds its documents first and then handles them one after another.  A check reads a
document, then the settings that apply to it, and then prints the diagnostics of its report and the
types of its expressions; at the end it sums up.

Main statement: `exitCode_eq_zero_iff` says when a check succeeds.
-/

namespace QueryTyping

/-- The outcome of a run. -/
structure Finished where
  exitCode : Nat
  out : String
  err : String
  fault : Option Fault

/-- Errors and warnings that were counted. -/
structure Tally where
  files : Nat
  errors : Nat
  warnings : Nat
  deriving DecidableEq, Repr

namespace Tally

/-- Nothing was counted. -/
def zero : Tally := ⟨0, 0, 0⟩

/-- Count the diagnostics of one more file. -/
def add (t : Tally) (bag : Bag) : Tally :=
  ⟨t.files + 1, t.errors + bag.errorCount, t.warnings + bag.warningCount⟩

/-- There is something that makes a check fail. -/
def fails (t : Tally) (strict : Bool) : Bool := t.errors != 0 || (strict && t.warnings != 0)

/-- The exit code of a check. -/
def exitCode (t : Tally) (strict : Bool) : Nat := if t.fails strict then 1 else 0

/-- What was found, where there is something. -/
def found (t : Tally) (strict : Bool) : List String :=
  (if t.errors = 0 then [] else [toString t.errors ++ " error(s)"]) ++
  (if t.warnings = 0 then []
    else [toString t.warnings ++ " warning(s)" ++
      (if strict then " [treated as errors with --strict]" else "")])

/-- The start of the last line. -/
def checked (t : Tally) : String := "Checked " ++ toString t.files ++ " file(s), "

/-- The last line of a check that fails. -/
def failure (t : Tally) (strict : Bool) : String :=
  "\n" ++ t.checked ++ "found " ++ ", ".intercalate (t.found strict)

/-- The last line of a check that succeeds. -/
def success (t : Tally) : String :=
  t.checked ++
    (if t.warnings = 0 then "no errors found"
      else "no errors (" ++ toString t.warnings ++ " warning(s))")

/-- A check succeeds without errors, and if it is strict without warnings. -/
theorem exitCode_eq_zero_iff {t : Tally} {strict : Bool} :
    t.exitCode strict = 0 ↔ t.errors = 0 ∧ (strict = true → t.warnings = 0) := by
  cases strict <;> simp [exitCode, fails]

end Tally

namespace Session

/-- Read a document. -/
def readDocument (files : FileTree) (p : Path) : Session Document := do
  let text ← access (files.readText p) (.unreadable p)
  draw (Document.read text) (.notDocument p)

/-- Read settings from a file. -/
def readSettings (files : FileTree) (p : Path) : Session Settings := do
  let text ← access (files.readText p) (.unreadableSettings p)
  match Settings.read? text with
  | some settings => return settings
  | none => fail (.badSettings p)

/-- The settings for a document: those of the given file, or of the nearest one. -/
def settingsFor (files : FileTree) (given : Option String) (p : Path) : Session Settings :=
  match given with
  | some text => readSettings files (.ofText text)
  | none =>
      match files.discover p with
      | some found => readSettings files found
      | none => pure .default

/-- The documents that some paths stand for. -/
def documents (files : FileTree) : List String → Session (List Path)
  | [] => pure []
  | text :: texts => do
      let p := Path.ofText text
      let found ← access (files.documentsAt p) (.unreadable p)
      return found ++ (← documents files texts)

/-- What a line says about the expression at a place in a document. -/
def expressionLine (json : Bool) (p : Path) (index : Nat) (key : String) (fields : Json)
    (text : String) : String :=
  if json then
    let own := (key, fields)
    let common := [("expression", Json.ofNat index), ("file", Json.string p.text)]
    (Json.object (if key < "expression" then own :: common else common ++ [own])).render
  else p.text ++ "#" ++ toString index ++ ": " ++ text

/-- Print what is said about each expression of a document. -/
def printExpressions {α : Type} (line : Nat → α → String) : Nat → List α → Session Unit
  | _, [] => pure ()
  | index, a :: as => do
      print (line index a)
      printExpressions line (index + 1) as

/-- Print diagnostics, as results for machines or as messages for people. -/
def printBag (json : Bool) (source : Option String) : Bag → Session Unit
  | [] => pure ()
  | d :: bag => do
      if json then print d.toJson.render else warn (d.text source)
      printBag json source bag

/-- Check one document. -/
def checkFile (files : FileTree) (options : CheckOptions) (json : Bool) (p : Path) :
    Session Bag := do
  let document ← readDocument files p
  let settings ← settingsFor files options.settings p
  let checked ← draw (document.check settings options.context p.text) (.notDocument p)
  match checked with
  | .error problem => fail (.badDeclaration p problem)
  | .ok report => do
      printBag json document.source report.diagnostics
      if options.showTypes then
        printExpressions
          (fun index types => expressionLine json p index "type" (.string types.text) types.text)
          0 report.types
      return report.diagnostics

/-- Check documents one after another. -/
def checkFiles (files : FileTree) (options : CheckOptions) (json : Bool) :
    List Path → Tally → Session Tally
  | [], tally => pure tally
  | p :: ps, tally => do
      let bag ← checkFile files options json p
      checkFiles files options json ps (tally.add bag)

/-- Check the documents that some paths stand for; the exit code. -/
def runCheck (files : FileTree) (options : CheckOptions) (json : Bool) (paths : List String) :
    Session Nat := do
  let found ← documents files paths
  let tally ← checkFiles files options json found .zero
  if tally.fails options.strict then warn (tally.failure options.strict)
  else print tally.success
  return tally.exitCode options.strict

/-- The names that an expression reads, as a text. -/
def namesText (names : List String) : String :=
  if names.isEmpty then "(none)" else ", ".intercalate names

/-- The line about the names that an expression reads. -/
def dependenciesLine (json : Bool) (p : Path) (index : Nat) (e : Expr) : String :=
  let names := e.dependencies.toList
  expressionLine json p index "dependencies" (.array (names.map Json.string)) (namesText names)

/-- List the names that expressions read, document by document. -/
def listFiles (files : FileTree) (json : Bool) : List Path → Session Unit
  | [] => pure ()
  | p :: ps => do
      let document ← readDocument files p
      printExpressions (dependenciesLine json p) 0 document.expressions
      listFiles files json ps

/-- List the names that the expressions of some documents read. -/
def runDependencies (files : FileTree) (json : Bool) (paths : List String) : Session Nat := do
  listFiles files json (← documents files paths)
  return 0

/-- A code as it is looked up: trimmed and in capital letters. -/
def lookupForm (code : String) : String :=
  String.ofList (Text.capitals (Text.trim code.toList))

/-- Explain a code. -/
def runExplain (code : String) : Session Nat := do
  match Code.ofText? (lookupForm code) with
  | some known => do
      print (known.text ++ ": " ++ known.explanation)
      return 0
  | none => fail (.unknownCode (lookupForm code))

/-- Do what is requested; the exit code. -/
def perform (files : FileTree) (r : Request) : Session Nat :=
  match r.command with
  | .check paths options => runCheck files options r.json paths
  | .dependencies paths => runDependencies files r.json paths
  | .explain code => runExplain code

end Session

/-- The exit code of a run that ended with a fault. -/
def Fault.exitCode : Fault → Nat
  | usage .helpAsked | usage .versionAsked => 0
  | usage _ => 2
  | _ => 1

/-- Run the program with the given arguments. -/
def runProgram (files : FileTree) (words : List String) : Finished :=
  match Command.ofArguments words with
  | .error e => ⟨(Fault.usage e).exitCode, "", "", some (.usage e)⟩
  | .ok request =>
      match (Session.perform files request).run Progress.start with
      | (.ok code, p) => ⟨code, p.out, p.err, none⟩
      | (.error f, p) => ⟨f.exitCode, p.out, p.err, some f⟩

end QueryTyping
