/-!
# TOML texts

Blanks, line endings, comments and the four kinds of quoted texts.  Every reader takes the
characters that are left and gives back what it read and the rest.

Main statements: `readQuoted_basic` and `readQuoted_literal` read a text without special
characters in either kind of quotes.
-/

namespace QueryTyping.Toml

/-- The blanks within a line. -/
def isSpace (c : Char) : Bool := c == ' ' || c == '\t'

/-- The characters that may stand in a comment or between quotes. -/
def isPlain (c : Char) : Bool := c == '\t' || (0x20 ≤ c.toNat && c != '\x7f')

/-- Skip blanks within the line. -/
def skipSpace (cs : List Char) : List Char := cs.dropWhile isSpace

/-- What is left after a line ending, if there is one. -/
def newline? : List Char → Option (List Char)
  | '\n' :: cs | '\r' :: '\n' :: cs => some cs
  | _ => none

/-- Skip a comment, if there is one. -/
def skipComment : List Char → List Char
  | '#' :: cs => cs.dropWhile isPlain
  | cs => cs

/-- The end of a line: blanks, a comment, and a line ending or the end of the text. -/
def endOfLine? (cs : List Char) : Option (List Char) :=
  match skipComment (skipSpace cs) with
  | [] => some []
  | cs => newline? cs

/-- Skip blanks, comments and line endings; at most `n` lines. -/
def skipLines : Nat → List Char → Option (List Char)
  | 0, cs => some cs
  | n + 1, cs =>
      match skipSpace cs with
      | '#' :: cs => newline? (skipComment ('#' :: cs)) >>= skipLines n
      | '\n' :: cs => newline? ('\n' :: cs) >>= skipLines n
      | '\r' :: cs => newline? ('\r' :: cs) >>= skipLines n
      | cs => some cs

/-- Skip everything between the items of an array. -/
def skipGap (cs : List Char) : Option (List Char) := skipLines (cs.length + 1) cs

/-- The value of a hexadecimal digit. -/
def hexValue? (c : Char) : Option Nat :=
  if c.isDigit then some (c.toNat - '0'.toNat)
  else if 'a' ≤ c ∧ c ≤ 'f' then some (c.toNat - 'a'.toNat + 10)
  else if 'A' ≤ c ∧ c ≤ 'F' then some (c.toNat - 'A'.toNat + 10)
  else none

/-- The character with the code that some hexadecimal digits give. -/
def charOfHex? (digits : List Char) : Option Char := do
  let values ← digits.mapM hexValue?
  let code := values.foldl (fun n d => 16 * n + d) 0
  if code.isValidChar then some (Char.ofNat code) else none

/-- The character of an escape, after the backslash. -/
def readEscape? : List Char → Option (Char × List Char)
  | 'b' :: cs => some ('\x08', cs)
  | 't' :: cs => some ('\t', cs)
  | 'n' :: cs => some ('\n', cs)
  | 'f' :: cs => some ('\x0c', cs)
  | 'r' :: cs => some ('\r', cs)
  | '"' :: cs => some ('"', cs)
  | '\\' :: cs => some ('\\', cs)
  | 'u' :: cs => if cs.length < 4 then none else do return (← charOfHex? (cs.take 4), cs.drop 4)
  | 'U' :: cs => if cs.length < 8 then none else do return (← charOfHex? (cs.take 8), cs.drop 8)
  | _ => none

/-- The rest of a text on one line, in basic or literal quotes.  Only basic ones have escapes. -/
def readLine? (quote : Char) : Nat → List Char → Option (List Char × List Char)
  | 0, _ | _, [] => none
  | n + 1, c :: cs =>
      if c = quote then some ([], cs)
      else if c = '\\' ∧ quote = '"' then do
        let (d, cs) ← readEscape? cs
        let (text, cs) ← readLine? quote n cs
        return (d :: text, cs)
      else if isPlain c then do
        let (text, cs) ← readLine? quote n cs
        return (c :: text, cs)
      else none

/-- Skip blanks and line endings; at most `n` lines. -/
def skipBlank : Nat → List Char → List Char
  | 0, cs => cs
  | n + 1, cs =>
      match newline? (skipSpace cs) with
      | some cs => skipBlank n cs
      | none => skipSpace cs

/-- Skip a line ending that is escaped, with all blanks and line endings after it. -/
def skipEscapedLine? (cs : List Char) : Option (List Char) :=
  (newline? (skipSpace cs)).map fun cs => skipBlank (cs.length + 1) cs

/-- Close a text of several lines, given the quotes at its end.  Up to two of them belong to the
text. -/
def closeBlock? (quotes : Nat) (cs : List Char) (quote : Char) : Option (List Char × List Char) :=
  if 3 ≤ quotes ∧ quotes ≤ 5 then some (List.replicate (quotes - 3) quote, cs) else none

/-- The rest of a text of several lines. -/
def readBlock? (quote : Char) : Nat → List Char → Option (List Char × List Char)
  | 0, _ | _, [] => none
  | n + 1, c :: cs =>
      if c = quote then
        let quotes := ((c :: cs).takeWhile (· == quote)).length
        if quotes < 3 then do
          let (text, cs) ← readBlock? quote n ((c :: cs).drop quotes)
          return (List.replicate quotes quote ++ text, cs)
        else closeBlock? quotes ((c :: cs).drop quotes) quote
      else if c = '\\' ∧ quote = '"' then
        match skipEscapedLine? cs with
        | some cs => readBlock? quote n cs
        | none => do
            let (d, cs) ← readEscape? cs
            let (text, cs) ← readBlock? quote n cs
            return (d :: text, cs)
      else match newline? (c :: cs) with
        | some cs => do
            let (text, cs) ← readBlock? quote n cs
            return ('\n' :: text, cs)
        | none =>
            if isPlain c then do
              let (text, cs) ← readBlock? quote n cs
              return (c :: text, cs)
            else none

/-- A text in quotes on one line. -/
def readQuoted? : List Char → Option (String × List Char)
  | '"' :: cs => (readLine? '"' (cs.length + 1) cs).map fun r => (String.ofList r.1, r.2)
  | '\'' :: cs => (readLine? '\'' (cs.length + 1) cs).map fun r => (String.ofList r.1, r.2)
  | _ => none

/-- A text of several lines in triple quotes.  A line ending right after the quotes is left out. -/
def readTriple? (quote : Char) (cs : List Char) : Option (String × List Char) :=
  (readBlock? quote (cs.length + 1) ((newline? cs).getD cs)).map fun r => (String.ofList r.1, r.2)

/-- A text in any quotes. -/
def readText? : List Char → Option (String × List Char)
  | '"' :: '"' :: '"' :: cs => readTriple? '"' cs
  | '\'' :: '\'' :: '\'' :: cs => readTriple? '\'' cs
  | cs => readQuoted? cs

theorem readLine_plain {quote : Char} {text : List Char}
    (h : ∀ c ∈ text, isPlain c = true ∧ c ≠ quote ∧ c ≠ '\\') (rest : List Char) {n : Nat}
    (hn : text.length < n) : readLine? quote n (text ++ quote :: rest) = some (text, rest) := by
  induction text generalizing n with
  | nil =>
      obtain ⟨m, rfl⟩ : ∃ m, n = m + 1 := ⟨n - 1, by simp at hn; omega⟩
      simp [readLine?]
  | cons c text ih =>
      obtain ⟨m, rfl⟩ : ∃ m, n = m + 1 := ⟨n - 1, by simp at hn; omega⟩
      obtain ⟨hp, hq, hb⟩ := h c List.mem_cons_self
      have hrest := ih (fun d hd => h d (List.mem_cons_of_mem _ hd))
        (show text.length < m by simp at hn; omega)
      simp [readLine?, hp, hq, hb, hrest]

theorem readQuoted_basic {text : List Char}
    (h : ∀ c ∈ text, isPlain c = true ∧ c ≠ '"' ∧ c ≠ '\\') (rest : List Char) :
    readQuoted? ('"' :: (text ++ '"' :: rest)) = some (String.ofList text, rest) := by
  rw [readQuoted?, readLine_plain h rest (by simp only [List.length_append, List.length_cons]; omega)]
  rfl

theorem readQuoted_literal {text : List Char}
    (h : ∀ c ∈ text, isPlain c = true ∧ c ≠ '\'' ∧ c ≠ '\\') (rest : List Char) :
    readQuoted? ('\'' :: (text ++ '\'' :: rest)) = some (String.ofList text, rest) := by
  rw [readQuoted?, readLine_plain h rest (by simp only [List.length_append, List.length_cons]; omega)]
  rfl

end QueryTyping.Toml
