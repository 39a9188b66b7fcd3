/-!
# TOML scalars

Which words are numbers, truth values, dates or times.  A reader of settings has no use for their
values, so it only asks whether they are well formed.
-/

namespace QueryTyping.Toml

/-- The characters that words consist of. -/
def isWordChar (c : Char) : Bool :=
  c.isAlphanum || c == '+' || c == '-' || c == '_' || c == '.' || c == ':'

/-- One or more digits, with single underscores between some of them. -/
def isGrouped (isDigit : Char → Bool) : List Char → Bool
  | [] => false
  | [c] => isDigit c
  | c :: '_' :: cs => isDigit c && isGrouped isDigit cs
  | c :: cs => isDigit c && isGrouped isDigit cs

/-- A word without the sign in front of it. -/
def unsigned : List Char → List Char
  | '+' :: cs | '-' :: cs => cs
  | cs => cs

/-- Digits without a zero in front, unless it is the only one. -/
def isDecimal (cs : List Char) : Bool :=
  isGrouped Char.isDigit cs && (cs.head? != some '0' || cs.length == 1)

/-- The number that digits of a base give; underscores do not count. -/
def digitsValue (base : Nat) (cs : List Char) : Nat :=
  (cs.filter (· != '_')).foldl (fun n c =>
    base * n + (if c.isDigit then c.toNat - '0'.toNat else c.toLower.toNat - 'a'.toNat + 10)) 0

/-- The digits from 0 to 9 and from A to F, in either case. -/
def isHexDigit (c : Char) : Bool :=
  c.isDigit || ('a' ≤ c && c ≤ 'f') || ('A' ≤ c && c ≤ 'F')

/-- The first number that does not fit in 64 bits with a sign. -/
def integerLimit : Nat := 0x8000000000000000

/-- An integer that fits in 64 bits with a sign. -/
def isInteger : List Char → Bool
  | '0' :: 'x' :: cs => isGrouped isHexDigit cs && digitsValue 16 cs < integerLimit
  | '0' :: 'o' :: cs =>
      isGrouped (fun c => '0' ≤ c && c ≤ '7') cs && digitsValue 8 cs < integerLimit
  | '0' :: 'b' :: cs =>
      isGrouped (fun c => c == '0' || c == '1') cs && digitsValue 2 cs < integerLimit
  | '-' :: cs => isDecimal cs && digitsValue 10 cs ≤ integerLimit
  | '+' :: cs => isDecimal cs && digitsValue 10 cs < integerLimit
  | cs => isDecimal cs && digitsValue 10 cs < integerLimit

/-- The exponent of a float, after its letter. -/
def isExponent (cs : List Char) : Bool := isGrouped Char.isDigit (unsigned cs)

/-- The part of a float after its integer part: a fraction, an exponent, or both. -/
def isFloatTail : List Char → Bool
  | '.' :: cs =>
      isGrouped Char.isDigit (cs.takeWhile fun c => c != 'e' && c != 'E') &&
        (match cs.dropWhile fun c => c != 'e' && c != 'E' with
          | [] => true
          | _ :: cs => isExponent cs)
  | 'e' :: cs | 'E' :: cs => isExponent cs
  | _ => false

/-- A float. -/
def isFloat (cs : List Char) : Bool :=
  let inner (c : Char) : Bool := c.isDigit || c == '_'
  let cs := unsigned cs
  cs == "inf".toList || cs == "nan".toList ||
    (isDecimal (cs.takeWhile inner) && isFloatTail (cs.dropWhile inner))

/-- The number of exactly `n` decimal digits. -/
def fixedDigits? (n : Nat) (cs : List Char) : Option Nat :=
  if cs.length == n && cs.all Char.isDigit then some (digitsValue 10 cs) else none

/-- A year with 366 days. -/
def isLeapYear (y : Nat) : Bool := y % 4 == 0 && (y % 100 != 0 || y % 400 == 0)

/-- The number of days in a month. -/
def daysIn (year month : Nat) : Nat :=
  if month == 2 then (if isLeapYear year then 29 else 28)
  else if [4, 6, 9, 11].contains month then 30
  else 31

/-- A date of the calendar. -/
def isDate (cs : List Char) : Bool :=
  match fixedDigits? 4 (cs.take 4), cs.drop 4 with
  | some year, ['-', m, m', '-', d, d'] =>
      match fixedDigits? 2 [m, m'], fixedDigits? 2 [d, d'] with
      | some month, some day =>
          1 ≤ month && month ≤ 12 && 1 ≤ day && day ≤ daysIn year month
      | _, _ => false
  | _, _ => false

/-- Hours and minutes. -/
def isClock : List Char → Bool
  | [h, h', ':', m, m'] =>
      match fixedDigits? 2 [h, h'], fixedDigits? 2 [m, m'] with
      | some hour, some minute => hour ≤ 23 && minute ≤ 59
      | _, _ => false
  | _ => false

/-- A time of day. -/
def isTime (cs : List Char) : Bool :=
  isClock (cs.take 5) &&
    (match cs.drop 5 with
      | ':' :: s :: s' :: fraction =>
          (match fixedDigits? 2 [s, s'] with
            | some second => second ≤ 60
            | none => false) &&
          (match fraction with
            | [] => true
            | '.' :: digits => !digits.isEmpty && digits.all Char.isDigit
            | _ => false)
      | _ => false)

/-- A time of day, possibly with its distance from universal time. -/
def isOffsetTime (cs : List Char) : Bool :=
  let time := cs.takeWhile fun c => c.isDigit || c == ':' || c == '.'
  let offset := cs.dropWhile fun c => c.isDigit || c == ':' || c == '.'
  isTime time &&
    (match offset with
      | [] | ['Z'] | ['z'] => true
      | '+' :: clock | '-' :: clock => isClock clock
      | _ => false)

/-- A date followed by a time. -/
def isDateTime (cs : List Char) : Bool :=
  isDate (cs.take 10) &&
    (match cs.drop 10 with
      | 'T' :: time | 't' :: time => isOffsetTime time
      | _ => false)

/-- A word that is a value. -/
def isScalar (cs : List Char) : Bool :=
  cs == "true".toList || cs == "false".toList || isInteger cs || isFloat cs || isDate cs ||
    isTime cs || isDateTime cs

/-- The value at the front of a text, with what is left.  A date may go on with a time after a
space. -/
def skipScalar? (cs : List Char) : Option (List Char) :=
  let word := cs.takeWhile isWordChar
  let rest := cs.dropWhile isWordChar
  if !isScalar word then none
  else if isDate word then
    match rest with
    | ' ' :: more =>
        if isOffsetTime (more.takeWhile isWordChar) then some (more.dropWhile isWordChar)
        else some rest
    | _ => some rest
  else some rest

end QueryTyping.Toml
