import QueryTyping.Json.Value
import QueryTyping.Binary64.Shortest

/-!
# Writing JSON

The compact form of a value, without blanks.  In strings the quote, the backslash and the control
characters below the space are escaped, everything else stands for itself.

Main statement: `escape_plain` says which characters stand for themselves.
-/

namespace QueryTyping.Json

/-- A hexadecimal digit in lower case. -/
def hexDigit (n : Nat) : Char := "0123456789abcdef".toList.getD n '0'

/-- The written form of a character in a string. -/
def escape (c : Char) : List Char :=
  if c == '"' then ['\\', '"']
  else if c == '\\' then ['\\', '\\']
  else if c == '\x08' then ['\\', 'b']
  else if c == '\x0c' then ['\\', 'f']
  else if c == '\n' then ['\\', 'n']
  else if c == '\r' then ['\\', 'r']
  else if c == '\t' then ['\\', 't']
  else if c.toNat < 0x20 then
    ['\\', 'u', '0', '0', hexDigit (c.toNat / 16), hexDigit (c.toNat % 16)]
  else [c]

/-- The written form of a string. -/
def quote (s : String) : List Char := '"' :: (s.toList.flatMap escape ++ ['"'])

mutual

/-- The characters of a value in compact form.  A broken value is written as `null`. -/
def chars : Json → List Char
  | null | broken => "null".toList
  | bool b => (if b then "true" else "false").toList
  | int n => (toString n).toList
  | real x => x.text.toList
  | string s => quote s
  | array items => '[' :: (charsOfItems items ++ [']'])
  | object fields => '{' :: (charsOfFields fields ++ ['}'])

/-- The items of an array, with commas between them. -/
def charsOfItems : List Json → List Char
  | [] => []
  | [v] => v.chars
  | v :: w :: vs => v.chars ++ ',' :: charsOfItems (w :: vs)

/-- The fields of an object, with commas between them. -/
def charsOfFields : List (String × Json) → List Char
  | [] => []
  | [(k, v)] => quote k ++ ':' :: v.chars
  | (k, v) :: f :: fs => quote k ++ ':' :: (v.chars ++ ',' :: charsOfFields (f :: fs))

end

/-- The compact form of a value. -/
def render (v : Json) : String := String.ofList v.chars

theorem escape_plain {c : Char} (h : 0x20 ≤ c.toNat) (hq : c ≠ '"') (hb : c ≠ '\\') :
    escape c = [c] := by
  have hne : ∀ d : Char, d.toNat < 0x20 → c ≠ d := by
    rintro d hd rfl; omega
  have h1 := hne '\x08' (by decide)
  have h2 := hne '\x0c' (by decide)
  have h3 := hne '\n' (by decide)
  have h4 := hne '\r' (by decide)
  have h5 := hne '\t' (by decide)
  simp only [escape, beq_iff_eq, hq, hb, h1, h2, h3, h4, h5, if_false]
  rw [if_neg (by omega)]

end QueryTyping.Json
