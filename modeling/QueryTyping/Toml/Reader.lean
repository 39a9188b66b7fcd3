import QueryTyping.Toml.Scalar
import QueryTyping.Toml.Text
import QueryTyping.Toml.Value

/-!
# Reading TOML

A document is read line by line: a header chooses the table that the following keys go to.  Arrays
and inline tables may be nested up to a limit, which is what their reading recurs on.

Main statement: `readKey_bare` says how far a bare key is read.
-/

namespace QueryTyping.Toml

/-- The characters of a key without quotes. -/
def isBareKeyChar (c : Char) : Bool := c.isAlphanum || c == '-' || c == '_'

/-- One part of a key. -/
def readKey? (cs : List Char) : Option (String × List Char) :=
  match cs with
  | '"' :: _ | '\'' :: _ => readQuoted? cs
  | _ =>
      match cs.takeWhile isBareKeyChar with
      | [] => none
      | key => some (String.ofList key, cs.dropWhile isBareKeyChar)

/-- The largest number of parts of a key, and of brackets around a value. -/
def nestingLimit : Nat := 79

/-- A key of up to `n` parts between dots, with the blanks around them. -/
def readParts? : Nat → List Char → Option (List String × List Char)
  | 0, _ => none
  | n + 1, cs => do
      let (key, cs) ← readKey? (skipSpace cs)
      match skipSpace cs with
      | '.' :: cs => do
          let (keys, cs) ← readParts? n cs
          return (key :: keys, cs)
      | cs => return ([key], cs)

/-- A key: the path to its table, its last part, and what is left. -/
def readKeys? (cs : List Char) : Option (List String × String × List Char) := do
  let (keys, cs) ← readParts? nestingLimit cs
  let last ← keys.getLast?
  return (keys.dropLast, last, cs)

/-- A key and its value. -/
def readPair? (readValue : List Char → Option (Toml × List Char)) (cs : List Char) :
    Option ((List String × String × Toml) × List Char) := do
  let (path, key, cs) ← readKeys? cs
  match cs with
  | '=' :: cs => do
      let (v, cs) ← readValue (skipSpace cs)
      return ((path, key, v), cs)
  | _ => none

/-- The items of an array up to its closing bracket; at most `n`. -/
def readItems? (readValue : List Char → Option (Toml × List Char)) :
    Nat → List Char → Option (List Toml × List Char)
  | 0, _ => none
  | n + 1, cs => do
      match ← skipGap cs with
      | ']' :: cs => return ([], cs)
      | cs => do
          let (v, cs) ← readValue cs
          match ← skipGap cs with
          | ']' :: cs => return ([v], cs)
          | ',' :: cs => do
              let (vs, cs) ← readItems? readValue n cs
              return (v :: vs, cs)
          | _ => none

/-- The pairs of an inline table up to its closing brace; at most `n`. -/
def readPairs? (readValue : List Char → Option (Toml × List Char)) :
    Nat → Entries → List Char → Option (Entries × List Char)
  | 0, _, _ => none
  | n + 1, es, cs => do
      let ((path, key, v), cs) ← readPair? readValue cs
      let es ← addDotted path key v .inline es
      match skipSpace cs with
      | '}' :: cs => return (es, cs)
      | ',' :: cs => readPairs? readValue n es cs
      | _ => none

/-- A value with at most `depth` brackets around its parts. -/
def readValue? (depth : Nat) (cs : List Char) : Option (Toml × List Char) :=
  match cs with
  | '"' :: _ | '\'' :: _ => (readText? cs).map fun r => (.text r.1, r.2)
  | '[' :: rest =>
      match depth with
      | 0 => none
      | depth + 1 =>
          (readItems? (readValue? depth) (rest.length + 1) rest).map fun r => (.array r.1, r.2)
  | '{' :: rest =>
      match depth with
      | 0 => none
      | depth + 1 =>
          match skipSpace rest with
          | '}' :: rest => some (.table .inline [], rest)
          | rest =>
              (readPairs? (readValue? depth) (rest.length + 1) [] rest).map fun r =>
                (.table .inline r.1, r.2)
  | _ => (skipScalar? cs).map fun rest => (.scalar, rest)

/-- A document as far as it has been read: its entries, and the path of the current table. -/
structure Progress where
  root : Entries
  current : List String

/-- Add a key to the current table. -/
def Progress.setKey (p : Progress) (path : List String) (key : String) (v : Toml) :
    Option Progress := do
  let root ← within .implied (addDotted path key v) p.current .header p.root
  return { p with root }

/-- Start the table of a header. -/
def Progress.openTable (p : Progress) (path : List String) (key : String) : Option Progress := do
  let root ← within .implied (fun _ => addTable key) path .header p.root
  return ⟨root, path ++ [key]⟩

/-- Start another table of an array of tables. -/
def Progress.openTables (p : Progress) (path : List String) (key : String) : Option Progress := do
  let root ← within .implied (fun _ => addTables key) path .header p.root
  return ⟨root, path ++ [key]⟩

/-- The rest of a header line. -/
def readHeader? (p : Progress) (cs : List Char) : Option (Progress × List Char) :=
  match cs with
  | '[' :: cs => do
      let (path, key, cs) ← readKeys? cs
      match cs with
      | ']' :: ']' :: cs => return (← p.openTables path key, ← endOfLine? cs)
      | _ => none
  | _ => do
      let (path, key, cs) ← readKeys? cs
      match cs with
      | ']' :: cs => return (← p.openTable path key, ← endOfLine? cs)
      | _ => none

/-- Read one line that is not blank. -/
def readLineOf? (p : Progress) (cs : List Char) : Option (Progress × List Char) :=
  match cs with
  | '[' :: cs => readHeader? p cs
  | _ => do
      let ((path, key, v), cs) ← readPair? (readValue? nestingLimit) cs
      return (← p.setKey path key v, ← endOfLine? cs)

/-- Read at most `n` lines. -/
def readLines? : Nat → Progress → List Char → Option Entries
  | 0, _, _ => none
  | n + 1, p, cs =>
      match skipSpace cs with
      | [] => some p.root
      | '#' :: cs => endOfLine? ('#' :: cs) >>= readLines? n p
      | '\n' :: cs => readLines? n p cs
      | '\r' :: cs => newline? ('\r' :: cs) >>= readLines? n p
      | cs => readLineOf? p cs >>= fun r => readLines? n r.1 r.2

/-- A text without the byte order mark in front of it. -/
def dropMark : List Char → List Char
  | '\ufeff' :: cs => cs
  | cs => cs

/-- Read a document: the entries of its root table. -/
def read? (text : String) : Option Entries :=
  let cs := dropMark text.toList
  readLines? (cs.length + 1) ⟨[], []⟩ cs

/-- A bare key is read up to the first other character. -/
theorem readKey_bare {c : Char} {key : List Char} (hc : isBareKeyChar c = true)
    (h : ∀ d ∈ key, isBareKeyChar d = true) (rest : List Char)
    (hrest : ∀ d ∈ rest.head?, isBareKeyChar d = false) :
    readKey? (c :: (key ++ rest)) = some (String.ofList (c :: key), rest) := by
  have hq : c ≠ '"' ∧ c ≠ '\'' := by
    constructor <;> rintro rfl <;> exact absurd hc (by decide)
  have htake : (c :: (key ++ rest)).takeWhile isBareKeyChar = c :: key := by
    rw [List.takeWhile_cons_of_pos hc, List.takeWhile_append_of_pos h]
    cases rest with
    | nil => simp
    | cons d rest => simp [hrest d (by simp)]
  have hdrop : (c :: (key ++ rest)).dropWhile isBareKeyChar = rest := by
    rw [List.dropWhile_cons_of_pos hc, List.dropWhile_append_of_pos h]
    cases rest with
    | nil => simp
    | cons d rest => simp [hrest d (by simp)]
  unfold readKey?
  split
  · rename_i heq; cases heq; exact absurd rfl hq.1
  · rename_i heq; cases heq; exact absurd rfl hq.2
  · rw [htake, hdrop]

end QueryTyping.Toml
