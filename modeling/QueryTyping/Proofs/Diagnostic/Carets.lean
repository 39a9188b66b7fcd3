import QueryTyping.Diagnostic.Text

/-!
# Where carets stand

A quoted line stands after a gutter, its number in at least three places with a bar behind it.  The
carets below stand after a margin, a bar of its own with as many spaces as there are columns before
the span.  Without these spaces the margin has five characters.  The gutter has six as long as the
number of the line has at most three digits, so the first caret stands one character to the left of
the column of the span.

The carets are counted in bytes, and the line goes on for as many characters as it has.  So they run
past its end only if the span is longer than the rest of the line and some characters of the line
take several bytes; the caret in front of the column leaves room for one of them.

Main statements: `Text.lineFeed_notMem_lines` says that a line is quoted on one line,
`length_gutter` and `length_margin` what stands before the quoted text and before the carets, and
`caretCount_fits_iff` when the carets end with the line at the latest.  Together they give
`carets_before_column`.
-/

namespace QueryTyping

namespace Text

theorem lineFeed_notMem_endLine {current : List Char} (h : '\n' ∉ current) :
    '\n' ∉ endLine current := by
  unfold endLine
  split
  · rw [List.mem_reverse]
    exact fun hmem => h (List.mem_cons_of_mem _ hmem)
  · rwa [List.mem_reverse]

/-- What is gathered of a line has no line feed, so no line has one. -/
theorem lineFeed_notMem_linesFrom {current cs line : List Char} (h : '\n' ∉ current)
    (hline : line ∈ linesFrom current cs) : '\n' ∉ line := by
  induction cs generalizing current with
  | nil =>
      rw [linesFrom] at hline
      split at hline
      · cases hline
      · obtain rfl := List.mem_singleton.mp hline
        rwa [List.mem_reverse]
  | cons c cs ih =>
      rw [linesFrom] at hline
      split at hline
      · rcases List.mem_cons.mp hline with rfl | hline
        · exact lineFeed_notMem_endLine h
        · exact ih List.not_mem_nil hline
      · rename_i hc
        exact ih (List.not_mem_cons_of_ne_of_not_mem (Ne.symm hc) h) hline

theorem lineFeed_notMem_lines {cs line : List Char} (h : line ∈ lines cs) : '\n' ∉ line :=
  lineFeed_notMem_linesFrom List.not_mem_nil h

end Text

namespace Span

variable {s : Span} {line : List Char}

/-- What stands before a quoted line. -/
def gutter (s : Span) : List Char := s.quotedLine []

/-- What stands before the carets. -/
def margin (s : Span) : List Char := "   | ".toList ++ List.replicate (s.column - 1) ' '

theorem quotedLine_eq (s : Span) (line : List Char) : s.quotedLine line = s.gutter ++ line := by
  rw [gutter, quotedLine, quotedLine, List.append_nil]

theorem caretLine_eq (s : Span) (line : List Char) :
    s.caretLine line = s.margin ++ List.replicate (s.caretCount line) '^' := by
  rw [caretLine, carets, margin, List.append_assoc]

/-- A number of up to three digits has three places. -/
theorem length_gutter (h : s.line < 1000) : s.gutter.length = 6 := by
  have hdigits : (toString s.line).toList.length ≤ 3 := by
    change s.line.repr.toList.length ≤ 3
    rw [Nat.toList_repr]
    exact (Nat.length_toDigits_le_iff (by decide) (by decide)).mpr h
  rw [gutter, quotedLine, padLeft]
  simp only [List.length_append, List.length_replicate, List.length_nil]
  have hbar : " | ".toList.length = 3 := rfl
  omega

theorem length_margin (s : Span) : s.margin.length = 5 + (s.column - 1) := by
  rw [margin, List.length_append, List.length_replicate]
  rfl

/-- The gutter is made of digits, spaces and the bar. -/
theorem lineFeed_notMem_gutter (s : Span) : '\n' ∉ s.gutter := by
  intro h
  have hdigits : '\n' ∉ (toString s.line).toList := by
    change '\n' ∉ s.line.repr.toList
    rw [Nat.toList_repr]
    intro hmem
    exact absurd (Nat.isDigit_of_mem_toDigits (by decide) (by decide) hmem) (by decide)
  rw [gutter, quotedLine, padLeft] at h
  simp only [List.mem_append, List.mem_replicate] at h
  rcases h with ((⟨-, h⟩ | h) | h) | h
  · exact absurd h (by decide)
  · exact hdigits h
  · exact absurd h (by decide)
  · exact List.not_mem_nil h

/-- The margin is made of spaces and the bar. -/
theorem mem_margin {c : Char} (h : c ∈ s.margin) : c = ' ' ∨ c = '|' := by
  rw [margin, List.mem_append, List.mem_replicate] at h
  rcases h with h | ⟨-, rfl⟩
  · have hbar : ∀ c ∈ "   | ".toList, c = ' ' ∨ c = '|' := by simp
    exact hbar c h
  · exact .inl rfl

/-- **How far the carets reach.**  Starting one character before the column, they end with the line
at the latest unless the span and the bytes of the line both go beyond the next character. -/
theorem caretCount_fits_iff (hcolumn : 1 ≤ s.column) (hend : s.column ≤ line.length + 1) :
    s.caretCount line = 1 ∨ 4 + s.column + s.caretCount line ≤ 6 + line.length ↔
      s.column + s.length ≤ line.length + 2 ∨
        (String.ofList line).utf8ByteSize ≤ line.length + 1 := by
  rw [caretCount]
  omega

end Span

namespace Diagnostic

/-- With the source at hand the line of the span is quoted after the place, with the carets on the
next line. -/
theorem text_eq_of_line {d : Diagnostic} {source : String} {line : List Char}
    (h : d.span.line? source = some line) :
    d.text (some source) =
      d.headline ++ d.place ++ "   |\n" ++ String.ofList (d.span.gutter ++ line) ++ "\n" ++
        String.ofList (d.span.margin ++ List.replicate (d.span.caretCount line) '^') ++ "\n" ++
        String.join (d.notes.map noteText) := by
  have hexcerpt : d.excerpt (some source) = String.ofList (d.span.excerpt line) := by
    rw [excerpt, Option.bind_some, h]
  rw [text, hexcerpt, ← Span.quotedLine_eq, ← Span.caretLine_eq, ← String.toList_inj]
  simp [Span.excerpt]

/-- **Carets stand one character before their column.**  For a line with a number below 1000, the
quoted line is one line of the text and the carets are on the next.  The first caret has an offset
in its line that is smaller by one than that of the character in the column of the span, or than the
end of the line if that is where the column is.  The carets end with the quoted line at the latest,
unless there is only one, if and only if the span has at most one byte more than the rest of the
line has characters, or the whole line has at most one byte more than it has characters. -/
theorem carets_before_column {d : Diagnostic} {source : String} {line : List Char}
    (hline : d.span.line? source = some line) (hnumber : d.span.line < 1000)
    (hcolumn : 1 ≤ d.span.column) (hend : d.span.column ≤ line.length + 1) :
    d.text (some source) =
        d.headline ++ d.place ++ "   |\n" ++ String.ofList (d.span.gutter ++ line) ++ "\n" ++
          String.ofList (d.span.margin ++ List.replicate (d.span.caretCount line) '^') ++ "\n" ++
          String.join (d.notes.map noteText) ∧
      ('\n' ∉ d.span.gutter ++ line ∧ '\n' ∉ d.span.margin ∧ '^' ∉ d.span.margin) ∧
      d.span.margin.length + 1 = d.span.gutter.length + (d.span.column - 1) ∧
      0 < d.span.caretCount line ∧
      (d.span.caretCount line = 1 ∨
          d.span.margin.length + d.span.caretCount line ≤ d.span.gutter.length + line.length ↔
        d.span.column + d.span.length ≤ line.length + 2 ∨
          (String.ofList line).utf8ByteSize ≤ line.length + 1) := by
  have hfeed : '\n' ∉ line := Text.lineFeed_notMem_lines (List.mem_of_getElem? hline)
  have hgutter : d.span.gutter.length = 6 := Span.length_gutter hnumber
  have hmargin : d.span.margin.length = 4 + d.span.column := by
    rw [Span.length_margin]
    omega
  refine ⟨text_eq_of_line hline, ⟨?_, ?_, ?_⟩, ?_, d.span.caretCount_pos line, ?_⟩
  · exact List.not_mem_append d.span.lineFeed_notMem_gutter hfeed
  · exact fun h => absurd (Span.mem_margin h) (by decide)
  · exact fun h => absurd (Span.mem_margin h) (by decide)
  · omega
  · rw [hmargin, hgutter]
    exact Span.caretCount_fits_iff hcolumn hend

/-- A span of twelve bytes at the start of a line of eight characters, two of them of two bytes.
Ten carets stand below it, from one character before the line to one character after it. -/
theorem carets_before_column_letters :
    let d : Diagnostic := ⟨"E1001", .error, "", ⟨2, 14, 2, 1⟩, none, []⟩
    d.span.line? "1\n'éé' + x" = some "'éé' + x".toList ∧ d.span.line < 1000 ∧
      1 ≤ d.span.column ∧ d.span.column ≤ "'éé' + x".toList.length + 1 ∧
      d.span.margin.length + 1 = d.span.gutter.length + (d.span.column - 1) ∧
      d.span.gutter.length + "'éé' + x".toList.length <
        d.span.margin.length + d.span.caretCount "'éé' + x".toList := by
  intro d
  have hline : d.span.line? "1\n'éé' + x" = some "'éé' + x".toList := by decide
  obtain ⟨-, -, hoffset, -, hfits⟩ :=
    carets_before_column hline (by decide) (by decide) (by decide)
  refine ⟨hline, by decide, by decide, by decide, hoffset, ?_⟩
  have hpast := mt hfits.mp (by decide)
  omega

/-- The carets of `'a'` start below the blank before it, and those of a span that ends with two
letters of two bytes each go past them. -/
theorem carets_beside_text :
    let operand : Diagnostic := ⟨"E1001", .error, "m", ⟨4, 7, 1, 5⟩, none, []⟩
    let letters : Diagnostic := ⟨"E1001", .error, "m", ⟨0, 4, 1, 1⟩, none, []⟩
    operand.text (some "NOT 'a'") =
        "error[E1001]: m\n  --> <query>:1:5\n   |\n  1 | NOT 'a'\n   |     ^^^\n" ∧
      "   |     ^^^".toList.idxOf '^' ≠ "  1 | NOT 'a'".toList.idxOf '\'' ∧
      letters.text (some "éé") =
        "error[E1001]: m\n  --> <query>:1:1\n   |\n  1 | éé\n   | ^^^^\n" ∧
      "  1 | éé".toList.length < "   | ^^^^".toList.length := by
  decide +kernel

end Diagnostic
end QueryTyping
