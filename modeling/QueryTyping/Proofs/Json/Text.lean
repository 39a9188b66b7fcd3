import QueryTyping.Json.Token
import QueryTyping.Json.Writer

/-!
# Strings are read back

Every character of a string is written in one of three ways: as an escape of one letter, as an escape
of four hexadecimal digits, or as itself.  A reader takes the written form of a character for the
character, whatever stands behind it, with one exception: at four digits it looks whether the next
escape completes a surrogate pair, and refuses the text if that escape has no four digits.  In front
of what is written for other characters, and of the closing quote, this cannot happen.

Main statements: `escape_cases` lists the three ways, `takeText_escape` is the step over one
character, and `takeText_quote` says that a string is read back.
-/

namespace QueryTyping.Json

/-- The three ways in which a character is written. -/
theorem escape_cases (c : Char) :
    (∃ d, escape c = ['\\', d] ∧ d ≠ 'u' ∧ escaped? d = some c) ∨
      (∃ a b, escape c = ['\\', 'u', '0', '0', a, b] ∧ hexUnit? '0' '0' a b = some c.toNat ∧
        c.toNat < 0x20) ∨
      (escape c = [c] ∧ 0x20 ≤ c.toNat ∧ c ≠ '"' ∧ c ≠ '\\') := by
  have hletter : ∀ d : Char, d ≠ 'u' → escaped? d = some c → escape c = ['\\', d] →
      ∃ d, escape c = ['\\', d] ∧ d ≠ 'u' ∧ escaped? d = some c :=
    fun d hu hd he => ⟨d, he, hu, hd⟩
  by_cases h₁ : c = '"'
  · subst h₁; exact .inl (hletter '"' (by decide) rfl rfl)
  by_cases h₂ : c = '\\'
  · subst h₂; exact .inl (hletter '\\' (by decide) rfl rfl)
  by_cases h₃ : c = '\x08'
  · subst h₃; exact .inl (hletter 'b' (by decide) rfl rfl)
  by_cases h₄ : c = '\x0c'
  · subst h₄; exact .inl (hletter 'f' (by decide) rfl rfl)
  by_cases h₅ : c = '\n'
  · subst h₅; exact .inl (hletter 'n' (by decide) rfl rfl)
  by_cases h₆ : c = '\r'
  · subst h₆; exact .inl (hletter 'r' (by decide) rfl rfl)
  by_cases h₇ : c = '\t'
  · subst h₇; exact .inl (hletter 't' (by decide) rfl rfl)
  by_cases h₈ : c.toNat < 0x20
  · have hescape : escape c =
        ['\\', 'u', '0', '0', hexDigit (c.toNat / 16), hexDigit (c.toNat % 16)] := by
      simp [escape, h₁, h₂, h₃, h₄, h₅, h₆, h₇, h₈]
    have hvalue : ∀ n, n < 16 → hexValue? (hexDigit n) = some n := by decide
    have hzero : hexValue? '0' = some 0 := by decide
    have hunit : hexUnit? '0' '0' (hexDigit (c.toNat / 16)) (hexDigit (c.toNat % 16)) =
        some c.toNat := by
      simp only [hexUnit?, hzero, hvalue _ (by omega : c.toNat / 16 < 16),
        hvalue _ (by omega : c.toNat % 16 < 16), Option.bind_eq_bind, Option.bind_some]
      exact congrArg some (by omega)
    exact .inr (.inl ⟨_, _, hescape, hunit, h₈⟩)
  · exact .inr (.inr ⟨escape_plain (by omega) h₁ h₂, by omega, h₁, h₂⟩)

/-- If the text starts with an escape of digits, there are four of them. -/
def Regular (cs : List Char) : Prop :=
  ∀ a b c d rest, cs = '\\' :: 'u' :: a :: b :: c :: d :: rest → ∃ n, hexUnit? a b c d = some n

/-- What is written for the characters of a string is regular, up to the closing quote. -/
theorem regular_escaped (cs rest : List Char) : Regular (cs.flatMap escape ++ '"' :: rest) := by
  intro a b c d tail heq
  cases cs with
  | nil => cases heq
  | cons e cs =>
      rw [List.flatMap_cons, List.append_assoc] at heq
      rcases escape_cases e with ⟨x, hx, hu, -⟩ | ⟨x, y, hxy, hunit, -⟩ | ⟨hplain, -, -, hback⟩
      · rw [hx, List.cons_append, List.cons_append, List.cons.injEq, List.cons.injEq] at heq
        exact absurd heq.2.1 hu
      · rw [hxy] at heq
        cases heq
        exact ⟨_, hunit⟩
      · rw [hplain, List.cons_append, List.cons.injEq] at heq
        exact absurd heq.1 hback

variable {done more : List Char}

/-- An escape of one letter. -/
theorem takeText_letter {c d : Char} (hu : d ≠ 'u') (hd : escaped? d = some c) :
    takeText done true ('\\' :: d :: more) = takeText (c :: done) true more := by
  rw [takeText, hd] <;> simp [hu]

/-- A character that stands for itself. -/
theorem takeText_plain {c : Char} (hc : 0x20 ≤ c.toNat) (hquote : c ≠ '"') (hback : c ≠ '\\') :
    takeText done true (c :: more) = takeText (c :: done) true more := by
  have hcontrol : ¬ c.toNat < 0x20 := by omega
  rw [takeText, if_neg hcontrol] <;> simp [hquote, hback]

/-- An escape of four digits that is no half of a surrogate pair. -/
theorem takeText_digits {a b c d : Char} {n : Nat} (hn : hexUnit? a b c d = some n)
    (hhigh : isHighSurrogate n = false) (hlow : isLowSurrogate n = false) (hmore : Regular more) :
    takeText done true ('\\' :: 'u' :: a :: b :: c :: d :: more) =
      takeText (Char.ofNat n :: done) true more := by
  by_cases hnext : ∃ e f g h tail, more = '\\' :: 'u' :: e :: f :: g :: h :: tail
  · obtain ⟨e, f, g, h, tail, rfl⟩ := hnext
    obtain ⟨m, hm⟩ := hmore e f g h tail rfl
    rw [takeText, hn, hm]
    simp [hhigh, hlow]
  · rw [takeText, hn]
    · simp [hhigh, hlow]
    · intro e f g h tail heq
      exact hnext ⟨e, f, g, h, tail, heq⟩

/-- **One character.**  What is written for a character is read as the character. -/
theorem takeText_escape (c : Char) (hmore : Regular more) :
    takeText done true (escape c ++ more) = takeText (c :: done) true more := by
  rcases escape_cases c with ⟨d, hd, hu, hletter⟩ | ⟨a, b, hab, hunit, hc⟩ |
    ⟨hplain, hc, hquote, hback⟩
  · rw [hd]
    exact takeText_letter hu hletter
  · have hhigh : isHighSurrogate c.toNat = false := by
      simp only [isHighSurrogate, Bool.and_eq_false_iff, decide_eq_false_iff_not]
      omega
    have hlow : isLowSurrogate c.toNat = false := by
      simp only [isLowSurrogate, Bool.and_eq_false_iff, decide_eq_false_iff_not]
      omega
    have hread : takeText done true ('\\' :: 'u' :: '0' :: '0' :: a :: b :: more) =
        takeText (Char.ofNat c.toNat :: done) true more := takeText_digits hunit hhigh hlow hmore
    rw [Char.ofNat_toNat] at hread
    rw [hab]
    exact hread
  · rw [hplain]
    exact takeText_plain hc hquote hback

theorem takeText_escaped (cs done rest : List Char) :
    takeText done true (cs.flatMap escape ++ '"' :: rest) =
      some (some (String.ofList (done.reverse ++ cs)), rest) := by
  induction cs generalizing done with
  | nil =>
      rw [List.flatMap_nil, List.nil_append, takeText, List.append_nil]
      rfl
  | cons c cs ih =>
      rw [List.flatMap_cons, List.append_assoc, takeText_escape c (regular_escaped cs rest), ih,
        List.reverse_cons, List.append_assoc, List.cons_append, List.nil_append]

/-- **Strings are read back.** -/
theorem takeText_quote (s : String) (rest : List Char) :
    takeText [] true (s.toList.flatMap escape ++ '"' :: rest) = some (some s, rest) := by
  rw [takeText_escaped, List.reverse_nil, List.nil_append, String.ofList_toList]

end QueryTyping.Json
