import QueryTyping.Json.Number

/-!
# JSON tokens

The marks, words, numbers and strings a JSON text is made of.  Blanks between tokens are the
space, the tab and the two line breaks.  A string whose escapes spell half of a surrogate pair has
no text.

Main statement: `length_takeText_lt` says that reading a string uses up characters, so cutting a
text into tokens ends.
-/

namespace QueryTyping.Json

/-- A unit of JSON text. -/
inductive Token where
  | openArray
  | closeArray
  | openObject
  | closeObject
  | comma
  | colon
  | leaf (value : Json)
  | text (value : Option String)
  deriving Inhabited

/-- The characters that may stand between tokens. -/
def isSpace (c : Char) : Bool := c == ' ' || c == '\t' || c == '\n' || c == '\r'

/-- The token of a single character. -/
def mark? : Char → Option Token
  | '[' => some .openArray
  | ']' => some .closeArray
  | '{' => some .openObject
  | '}' => some .closeObject
  | ',' => some .comma
  | ':' => some .colon
  | _ => none

/-- The value of a hexadecimal digit in either case. -/
def hexValue? (c : Char) : Option Nat :=
  if c.isDigit then some (c.toNat - '0'.toNat)
  else if 'a' ≤ c ∧ c ≤ 'f' then some (c.toNat - 'a'.toNat + 10)
  else if 'A' ≤ c ∧ c ≤ 'F' then some (c.toNat - 'A'.toNat + 10)
  else none

/-- The value of four hexadecimal digits. -/
def hexUnit? (a b c d : Char) : Option Nat := do
  let a ← hexValue? a
  let b ← hexValue? b
  let c ← hexValue? c
  let d ← hexValue? d
  some (((a * 16 + b) * 16 + c) * 16 + d)

/-- The first half of a surrogate pair. -/
def isHighSurrogate (n : Nat) : Bool := 0xd800 ≤ n && n ≤ 0xdbff

/-- The second half of a surrogate pair. -/
def isLowSurrogate (n : Nat) : Bool := 0xdc00 ≤ n && n ≤ 0xdfff

/-- The character of a surrogate pair. -/
def pairedChar (high low : Nat) : Char :=
  Char.ofNat ((high - 0xd800) * 0x400 + (low - 0xdc00) + 0x10000)

/-- The character of a one-letter escape. -/
def escaped? : Char → Option Char
  | '"' => some '"'
  | '\\' => some '\\'
  | '/' => some '/'
  | 'b' => some '\x08'
  | 'f' => some '\x0c'
  | 'n' => some '\n'
  | 'r' => some '\r'
  | 't' => some '\t'
  | _ => none

/-- The rest of a string after its opening quote, and what follows the closing one.  `done` holds
the characters so far, last first; `whole` is false once half of a surrogate pair was met. -/
def takeText (done : List Char) (whole : Bool) (cs : List Char) :
    Option (Option String × List Char) :=
  match cs with
  | [] => none
  | '"' :: rest => some (if whole then some (String.ofList done.reverse) else none, rest)
  | '\\' :: 'u' :: a :: b :: c :: d :: '\\' :: 'u' :: e :: f :: g :: h :: rest =>
      match hexUnit? a b c d, hexUnit? e f g h with
      | some n, some m =>
          if isHighSurrogate n && isLowSurrogate m then takeText (pairedChar n m :: done) whole rest
          else if isHighSurrogate n || isLowSurrogate n then
            takeText done false ('\\' :: 'u' :: e :: f :: g :: h :: rest)
          else takeText (Char.ofNat n :: done) whole ('\\' :: 'u' :: e :: f :: g :: h :: rest)
      | _, _ => none
  | '\\' :: 'u' :: a :: b :: c :: d :: rest =>
      match hexUnit? a b c d with
      | some n =>
          if isHighSurrogate n || isLowSurrogate n then takeText done false rest
          else takeText (Char.ofNat n :: done) whole rest
      | none => none
  | '\\' :: c :: rest =>
      match escaped? c with
      | some c => takeText (c :: done) whole rest
      | none => none
  | c :: rest => if c.toNat < 0x20 then none else takeText (c :: done) whole rest
termination_by cs.length

theorem length_takeText_lt {done cs rest : List Char} {whole : Bool} {s : Option String}
    (h : takeText done whole cs = some (s, rest)) : rest.length < cs.length := by
  fun_induction takeText done whole cs <;> simp_all <;> omega

/-- The word at the front of a text, and what follows. -/
def takeWord : List Char → Option (Json × List Char)
  | 'n' :: 'u' :: 'l' :: 'l' :: rest => some (null, rest)
  | 't' :: 'r' :: 'u' :: 'e' :: rest => some (bool true, rest)
  | 'f' :: 'a' :: 'l' :: 's' :: 'e' :: rest => some (bool false, rest)
  | _ => none

theorem length_takeWord_lt {cs rest : List Char} {v : Json} (h : takeWord cs = some (v, rest)) :
    rest.length < cs.length := by
  unfold takeWord at h
  split at h <;> cases h <;> simp <;> omega

/-- The token at the front of a text that does not start with a blank, and what follows. -/
def next? (cs : List Char) : Option (Token × List Char) :=
  match cs with
  | [] => none
  | c :: rest =>
      match mark? c with
      | some t => some (t, rest)
      | none =>
          if c == '"' then (takeText [] true rest).map fun (s, rest) => (.text s, rest)
          else if c == '-' || c.isDigit then
            (split (c :: rest)).map fun (n, rest) => (.leaf n.value, rest)
          else (takeWord (c :: rest)).map fun (v, rest) => (.leaf v, rest)

theorem length_next_lt {cs rest : List Char} {t : Token} (h : next? cs = some (t, rest)) :
    rest.length < cs.length := by
  unfold next? at h
  split at h
  · cases h
  · split at h
    · cases h; simp
    · split at h
      · obtain ⟨⟨s, r⟩, hs, heq⟩ := Option.map_eq_some_iff.mp h
        cases heq
        exact Nat.lt_succ_of_lt (length_takeText_lt hs)
      · split at h
        · obtain ⟨⟨n, r⟩, hs, heq⟩ := Option.map_eq_some_iff.mp h
          cases heq
          exact length_split_lt hs
        · obtain ⟨⟨v, r⟩, hs, heq⟩ := Option.map_eq_some_iff.mp h
          cases heq
          exact length_takeWord_lt hs

/-- The tokens of a text. -/
def tokens? (cs : List Char) : Option (List Token) :=
  match cs with
  | [] => some []
  | c :: rest =>
      if isSpace c then tokens? rest
      else
        match _h : next? (c :: rest) with
        | some (t, rest) => (tokens? rest).map (t :: ·)
        | none => none
termination_by cs.length
decreasing_by
  · simp
  · exact length_next_lt _h

end QueryTyping.Json
