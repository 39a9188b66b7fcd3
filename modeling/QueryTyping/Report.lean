import QueryTyping.Analysis
import QueryTyping.Diagnostic.Basic
import QueryTyping.Document
import QueryTyping.Settings.Basic

/-!
# Reports

Checking a document analyses each of its expressions on a state in which the variables of the
settings and of the document are declared, the latter hiding the former.  The report lists the
problems of all expressions, and then warns of each variable of the document that no expression
reads.

Main statement: `mem_unused` says which variables are warned of.
-/

namespace QueryTyping

/-- The outcome of checking a document. -/
structure Report where
  diagnostics : Bag
  types : List TypeSet
  dependencies : NameSet

/-- The warning about a variable that nothing reads. -/
def unusedWarning (file name : String) : Diagnostic where
  code := Code.unusedVariable.text
  severity := .warning
  message := "Variable `" ++ name ++ "` is declared but never used"
  span := .unknown
  file := some file
  notes := []

namespace Document

/-- The names that some expression reads. -/
def dependencies (d : Document) : NameSet :=
  d.expressions.foldl (fun names e => names.union e.dependencies) .empty

/-- The variables that no expression reads, in order. -/
def unused (d : Document) : List String :=
  d.declared.keys.filter fun name => !d.dependencies.contains name

/-- All variables that the expressions may use. -/
def allVariables (d : Document) (settings : Settings) : Variables :=
  settings.declared.extend d.declared

/-- The report about a document whose variables are declared in a state. -/
def reportOn (d : Document) (base : State) (ctx : Context) (file : String) : Report :=
  let analyses := d.expressions.map (base.analyze ctx)
  { diagnostics :=
      analyses.flatMap (fun a => a.problems.map (·.diagnostic (some file))) ++
        d.unused.map (unusedWarning file)
    types := analyses.map Analysis.rootTypes
    dependencies := d.dependencies }

/-- Check a document.  A context that is given goes before the one of the settings. -/
def check (d : Document) (settings : Settings) (context : Option Context) (file : String) :
    Draw (Except Problem Report) := do
  match ← State.initial.declareAll (d.allVariables settings).declarations with
  | .ok base => return .ok (d.reportOn base (context.getD settings.context) file)
  | .error p => return .error p

/-- A variable is warned of if it is declared in the document and no expression reads it. -/
theorem mem_unused {d : Document} {name : String} :
    name ∈ d.unused ↔ name ∈ d.declared.keys ∧ name ∉ d.dependencies := by
  simp [unused, NameSet.contains, NameSet.mem_def]

theorem mem_dependencies {d : Document} {name : String} :
    name ∈ d.dependencies ↔ ∃ e ∈ d.expressions, name ∈ e.dependencies := by
  have key : ∀ (es : List Expr) (names : NameSet),
      name ∈ es.foldl (fun names e => names.union e.dependencies) names ↔
        name ∈ names ∨ ∃ e ∈ es, name ∈ e.dependencies := by
    intro es
    induction es with
    | nil => simp
    | cons e es ih => intro names; rw [List.foldl_cons, ih, NameSet.mem_union]; simp [or_assoc]
  simp [dependencies, key]

end Document
end QueryTyping
