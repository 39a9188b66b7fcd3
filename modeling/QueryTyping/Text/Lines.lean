/-!
# Lines

The lines of a text.  A line ends with a line feed, before which one carriage return is part of
the ending.  After the last line feed there is another line only if it is not empty.

Main statement: `lines_lineFeed` says what a line feed does.
-/

namespace QueryTyping.Text

/-- The line whose characters are given last first, without the carriage return at its end. -/
def endLine : List Char → List Char
  | '\r' :: cs => cs.reverse
  | cs => cs.reverse

/-- The lines of a text, after the characters of the current line, last first. -/
def linesFrom (current : List Char) : List Char → List (List Char)
  | [] => if current.isEmpty then [] else [current.reverse]
  | c :: cs => if c = '\n' then endLine current :: linesFrom [] cs else linesFrom (c :: current) cs

/-- The lines of a text. -/
def lines (cs : List Char) : List (List Char) := linesFrom [] cs

theorem linesFrom_append {current cs : List Char} (h : '\n' ∉ cs) (rest : List Char) :
    linesFrom current (cs ++ '\n' :: rest) = endLine (cs.reverse ++ current) :: lines rest := by
  induction cs generalizing current with
  | nil => simp [linesFrom, lines]
  | cons c cs ih =>
      rw [List.mem_cons, not_or] at h
      rw [List.cons_append, linesFrom, if_neg (Ne.symm h.1), ih h.2]
      simp

/-- The line before the first line feed comes first, the lines of the rest follow. -/
theorem lines_lineFeed {line : List Char} (h : '\n' ∉ line) (rest : List Char) :
    lines (line ++ '\n' :: rest) = endLine line.reverse :: lines rest := by
  have joined := @linesFrom_append [] line h rest
  simpa [lines] using joined

end QueryTyping.Text
