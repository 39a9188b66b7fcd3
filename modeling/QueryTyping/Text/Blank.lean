/-!
# Blank characters

The white space of Unicode, and trimming it from both ends of a text.

Main statements: `isBlank_of_isWhitespace` says that the ASCII white space is among the blanks, and
`length_trim_le` that trimming never makes a text longer.
-/

namespace QueryTyping.Text

/-- The characters with the Unicode property `White_Space`. -/
def isBlank (c : Char) : Bool :=
  let n := c.toNat
  (0x09 ≤ n && n ≤ 0x0d) || n == 0x20 || n == 0x85 || n == 0xa0 || n == 0x1680 ||
    (0x2000 ≤ n && n ≤ 0x200a) || n == 0x2028 || n == 0x2029 || n == 0x202f || n == 0x205f ||
    n == 0x3000

/-- A text without the blanks at its front. -/
def trimFront (cs : List Char) : List Char := cs.dropWhile isBlank

/-- A text without the blanks at its back. -/
def trimBack (cs : List Char) : List Char := (trimFront cs.reverse).reverse

/-- A text without the blanks at both ends. -/
def trim (cs : List Char) : List Char := trimBack (trimFront cs)

theorem isBlank_of_isWhitespace {c : Char} (h : c.isWhitespace = true) : isBlank c = true := by
  simp only [Char.isWhitespace, Bool.or_eq_true, decide_eq_true_eq] at h
  rcases h with ((rfl | rfl) | rfl) | rfl <;> rfl

theorem length_trimFront_le (cs : List Char) : (trimFront cs).length ≤ cs.length :=
  (List.dropWhile_sublist _).length_le

theorem length_trim_le (cs : List Char) : (trim cs).length ≤ cs.length := by
  have h := length_trimFront_le (trimFront cs).reverse
  have h' := length_trimFront_le cs
  simp only [trim, trimBack, List.length_reverse] at *
  omega

end QueryTyping.Text
