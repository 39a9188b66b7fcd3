import QueryTyping.Json.Record
import QueryTyping.Json.Writer
import QueryTyping.Span

/-!
# Positions in JSON

The stored form of a span.

Main statement: `ofJson_toJson` says that a stored span is read back, as long as its numbers fit
in 64 bits.
-/

namespace QueryTyping

/-- The first number that is too large for an id or a position. -/
def wordLimit : Nat := 0x10000000000000000

namespace Span

/-- The stored form of a span. -/
def toJson (s : Span) : Json :=
  .object [("start", .ofNat s.start), ("end", .ofNat s.stop), ("line", .ofNat s.line),
    ("column", .ofNat s.column)]

/-- Read a span whose numbers are below a limit.  All of its fields must be there. -/
def readBelow? (limit : Nat) (v : Json) : Option Span := do
  match ← v.record? false ["start", "end", "line", "column"] with
  | [some start, some stop, some line, some column] =>
      some
        { start := ← start.nat? limit
          stop := ← stop.nat? limit
          line := ← line.nat? limit
          column := ← column.nat? limit }
  | _ => none

/-- Read a span. -/
def ofJson? (v : Json) : Option Span := readBelow? wordLimit v

/-- A span that may be missing. -/
def ofJsonOr? : Option Json → Option Span
  | none => some .unknown
  | some v => ofJson? v

theorem readBelow_toJson {s : Span} {limit : Nat} (h₁ : s.start < limit) (h₂ : s.stop < limit)
    (h₃ : s.line < limit) (h₄ : s.column < limit) : readBelow? limit s.toJson = some s := by
  have record : s.toJson.record? false ["start", "end", "line", "column"] =
      some [some (.ofNat s.start), some (.ofNat s.stop), some (.ofNat s.line),
        some (.ofNat s.column)] := by
    simp [toJson, Json.record?]
  unfold readBelow?
  rw [record]
  simp [Json.nat_ofNat h₁, Json.nat_ofNat h₂, Json.nat_ofNat h₃, Json.nat_ofNat h₄]

/-- A span whose numbers fit in 64 bits is read back. -/
theorem ofJson_toJson {s : Span} (h₁ : s.start < wordLimit) (h₂ : s.stop < wordLimit)
    (h₃ : s.line < wordLimit) (h₄ : s.column < wordLimit) : ofJson? s.toJson = some s :=
  readBelow_toJson h₁ h₂ h₃ h₄

end Span
end QueryTyping
