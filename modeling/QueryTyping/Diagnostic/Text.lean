import QueryTyping.Diagnostic.Basic
import QueryTyping.Text.Lines

/-!
# Diagnostics for people

A diagnostic is written with a headline, its place and, if the query text is at hand, the line in
question with carets below the spanned part.  Notes follow at the end.

Main statement: `caretCount_pos` says that there is always a caret.
-/

namespace QueryTyping

/-- What stands for the file of a diagnostic that has none. -/
def unnamedQuery : String := "<query>"

/-- A text with spaces before it up to the given length. -/
def padLeft (width : Nat) (cs : List Char) : List Char :=
  List.replicate (width - cs.length) ' ' ++ cs

namespace Span

/-- The number of carets under a line: one for each byte of the span that lies in the line, but
at least one. -/
def caretCount (s : Span) (line : List Char) : Nat :=
  max 1 (min s.length ((String.ofList line).utf8ByteSize - (s.column - 1)))

/-- The carets at the column where the span starts. -/
def carets (s : Span) (line : List Char) : List Char :=
  List.replicate (s.column - 1) ' ' ++ List.replicate (s.caretCount line) '^'

/-- A quoted line after its number. -/
def quotedLine (s : Span) (line : List Char) : List Char :=
  padLeft 3 (toString s.line).toList ++ " | ".toList ++ line

/-- The line of carets below a quoted line. -/
def caretLine (s : Span) (line : List Char) : List Char :=
  "   | ".toList ++ s.carets line

/-- The quoted line with its carets. -/
def excerpt (s : Span) (line : List Char) : List Char :=
  "   |\n".toList ++ s.quotedLine line ++ '\n' :: (s.caretLine line ++ ['\n'])

/-- The line of the query text on which a span starts. -/
def line? (s : Span) (source : String) : Option (List Char) :=
  (Text.lines source.toList)[s.line - 1]?

theorem caretCount_pos (s : Span) (line : List Char) : 0 < s.caretCount line := by
  simp only [caretCount]; omega

end Span

namespace Diagnostic

/-- The severity, the code and the message. -/
def headline (d : Diagnostic) : String :=
  d.severity.name ++ "[" ++ d.code ++ "]: " ++ d.message ++ "\n"

/-- Where it is. -/
def place (d : Diagnostic) : String :=
  "  --> " ++ d.file.getD unnamedQuery ++ ":" ++ toString d.span.line ++ ":" ++
    toString d.span.column ++ "\n"

/-- The part of the query text in question, if the text is known and has the line. -/
def excerpt (d : Diagnostic) (source : Option String) : String :=
  match source.bind d.span.line? with
  | some line => String.ofList (d.span.excerpt line)
  | none => ""

/-- The written form of a note. -/
def noteText (message : String) : String := "   = note: " ++ message ++ "\n"

/-- The written form of a diagnostic. -/
def text (d : Diagnostic) (source : Option String) : String :=
  d.headline ++ d.place ++ d.excerpt source ++ String.join (d.notes.map noteText)

end Diagnostic

/-- The written form of a bag. -/
def Bag.text (bag : Bag) (source : Option String) : String :=
  "\n".intercalate (bag.map (·.text source))

end QueryTyping
