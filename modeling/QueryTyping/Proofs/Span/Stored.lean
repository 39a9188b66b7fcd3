import QueryTyping.Proofs.Json.RoundTrip
import QueryTyping.Span.Json

/-!
# Positions are stored without loss

The numbers of a span are machine words.  A span of words is stored as an object of four integers,
which is read back as it is.

Main statements: `Fits.readable` and `Fits.ofJson_toJson`.
-/

namespace QueryTyping.Span

/-- The numbers of the span are machine words. -/
structure Fits (s : Span) : Prop where
  start : s.start < wordLimit
  stop : s.stop < wordLimit
  line : s.line < wordLimit
  column : s.column < wordLimit

instance (s : Span) : Decidable s.Fits :=
  decidable_of_iff
    (s.start < wordLimit ∧ s.stop < wordLimit ∧ s.line < wordLimit ∧ s.column < wordLimit)
    ⟨fun h => ⟨h.1, h.2.1, h.2.2.1, h.2.2.2⟩, fun h => ⟨h.start, h.stop, h.line, h.column⟩⟩

variable {s : Span}

theorem Fits.readable (h : s.Fits) : s.toJson.Readable := by
  simp only [toJson, Json.readable_object, List.forall_mem_cons, List.not_mem_nil,
    false_implies, implies_true, and_true]
  exact ⟨Json.readable_ofNat h.start, Json.readable_ofNat h.stop, Json.readable_ofNat h.line,
    Json.readable_ofNat h.column⟩

/-- **A span of machine words is read back.** -/
theorem Fits.ofJson_toJson (h : s.Fits) : ofJson? s.toJson = some s :=
  Span.ofJson_toJson h.start h.stop h.line h.column

theorem depth_toJson (s : Span) : s.toJson.depth = 1 := rfl

end QueryTyping.Span
