import Mathlib.Data.List.TakeWhile
import QueryTyping.Json.Number

/-!
# Numbers inside a text

A number is read from the front of a text as far as it goes.  What is read does not depend on what
comes after it, as long as that does not continue the number: it must not start with a digit, with a
point or with the letter of an exponent.

An integer is written in decimal digits, without zeros in front.  It is read back exactly if it fits
in 64 bits, signed or not.

Main statements: `split_append` says that a number is read in front of other text as it is read
alone, and `denotes_int` that integers are read back.
-/

namespace QueryTyping.Json

/-- The text does not continue a number in front of it. -/
def Stops (cs : List Char) : Prop :=
  ∀ c ∈ cs.head?, c.isDigit = false ∧ c ≠ '.' ∧ c ≠ 'e' ∧ c ≠ 'E'

theorem stops_nil : Stops [] := by
  intro c hc
  cases hc

theorem stops_cons {c : Char} (hdigit : c.isDigit = false) (hpoint : c ≠ '.') (he : c ≠ 'e')
    (hE : c ≠ 'E') (cs : List Char) : Stops (c :: cs) := by
  intro d hd
  cases hd
  exact ⟨hdigit, hpoint, he, hE⟩

variable {cs rest : List Char}

/-! What is read stays what it is in front of other text -/

theorem takeWhile_isDigit_append (hrest : Stops rest) (cs : List Char) :
    (cs ++ rest).takeWhile Char.isDigit = cs.takeWhile Char.isDigit ∧
      (cs ++ rest).dropWhile Char.isDigit = cs.dropWhile Char.isDigit ++ rest := by
  induction cs with
  | nil =>
      cases rest with
      | nil => exact ⟨rfl, rfl⟩
      | cons c rest =>
          have hc : c.isDigit = false := (hrest c rfl).1
          simp [hc]
  | cons c cs ih =>
      cases hc : c.isDigit with
      | true => simp [hc, ih.1, ih.2]
      | false => simp [hc]

theorem takeDigits_append {ds left : List Char} (h : takeDigits cs = some (ds, left))
    (hrest : Stops rest) : takeDigits (cs ++ rest) = some (ds, left ++ rest) := by
  obtain ⟨htake, hdrop⟩ := takeWhile_isDigit_append hrest cs
  unfold takeDigits at h ⊢
  rw [htake, hdrop]
  cases hds : cs.takeWhile Char.isDigit with
  | nil =>
      rw [hds] at h
      cases h
  | cons d ds' =>
      rw [hds] at h
      cases h
      rfl

theorem splitFraction_append {f : Option (List Char)} {left : List Char}
    (h : splitFraction cs = some (f, left)) (hrest : Stops rest) :
    splitFraction (cs ++ rest) = some (f, left ++ rest) := by
  unfold splitFraction at h
  split at h
  · obtain ⟨⟨ds, left'⟩, hds, heq⟩ := Option.map_eq_some_iff.mp h
    cases heq
    rw [List.cons_append, splitFraction, takeDigits_append hds hrest]
    rfl
  · rename_i hpoint
    cases h
    unfold splitFraction
    split
    · rename_i tail heq
      cases cs with
      | nil => exact absurd rfl (hrest '.' (by rw [← List.nil_append rest, heq]; rfl)).2.1
      | cons c cs =>
          cases heq
          exact absurd rfl (hpoint cs)
    · rfl

theorem takeExponent_append {e : Int} {left : List Char} (h : takeExponent cs = some (e, left))
    (hrest : Stops rest) : takeExponent (cs ++ rest) = some (e, left ++ rest) := by
  unfold takeExponent at h
  split at h
  · obtain ⟨⟨ds, left'⟩, hds, heq⟩ := Option.map_eq_some_iff.mp h
    cases heq
    rw [List.cons_append, takeExponent, takeDigits_append hds hrest]
    rfl
  · obtain ⟨⟨ds, left'⟩, hds, heq⟩ := Option.map_eq_some_iff.mp h
    cases heq
    rw [List.cons_append, takeExponent, takeDigits_append hds hrest]
    rfl
  · rename_i hplus hminus
    obtain ⟨⟨ds, left'⟩, hds, heq⟩ := Option.map_eq_some_iff.mp h
    cases heq
    cases cs with
    | nil => cases hds
    | cons c cs =>
        have hplus' : c ≠ '+' := fun heq => hplus cs (heq ▸ rfl)
        have hminus' : c ≠ '-' := fun heq => hminus cs (heq ▸ rfl)
        have hfront : takeExponent (c :: (cs ++ rest)) =
            (takeDigits (c :: (cs ++ rest))).map fun r => ((digitsValue r.1 : Int), r.2) := by
          simp [takeExponent, hplus', hminus']
        rw [List.cons_append, hfront, ← List.cons_append, takeDigits_append hds hrest]
        rfl

theorem splitExponent_append {e : Option Int} {left : List Char}
    (h : splitExponent cs = some (e, left)) (hrest : Stops rest) :
    splitExponent (cs ++ rest) = some (e, left ++ rest) := by
  unfold splitExponent at h
  split at h
  · obtain ⟨⟨n, left'⟩, hn, heq⟩ := Option.map_eq_some_iff.mp h
    cases heq
    rw [List.cons_append, splitExponent, takeExponent_append hn hrest]
    rfl
  · obtain ⟨⟨n, left'⟩, hn, heq⟩ := Option.map_eq_some_iff.mp h
    cases heq
    rw [List.cons_append, splitExponent, takeExponent_append hn hrest]
    rfl
  · rename_i he hE
    cases h
    have hfront : ∀ c ∈ (cs ++ rest).head?, c ≠ 'e' ∧ c ≠ 'E' := by
      intro c hc
      cases cs with
      | nil => exact (hrest c hc).2.2
      | cons d cs =>
          cases hc
          exact ⟨fun heq => he cs (heq ▸ rfl), fun heq => hE cs (heq ▸ rfl)⟩
    unfold splitExponent
    split
    · rename_i tail heq
      rw [heq] at hfront
      exact absurd rfl (hfront 'e' rfl).1
    · rename_i tail heq
      rw [heq] at hfront
      exact absurd rfl (hfront 'E' rfl).2
    · rfl

theorem splitUnsigned_append {negative : Bool} {n : Numeral} {left : List Char}
    (h : splitUnsigned negative cs = some (n, left)) (hrest : Stops rest) :
    splitUnsigned negative (cs ++ rest) = some (n, left ++ rest) := by
  obtain ⟨⟨whole, left₁⟩, hwhole, h⟩ := Option.bind_eq_some_iff.mp h
  obtain ⟨_, hguard, h⟩ := Option.bind_eq_some_iff.mp h
  obtain ⟨⟨f, left₂⟩, hfraction, h⟩ := Option.bind_eq_some_iff.mp h
  obtain ⟨⟨e, left₃⟩, hexponent, heq⟩ := Option.bind_eq_some_iff.mp h
  cases heq
  unfold splitUnsigned
  refine Option.bind_eq_some_iff.mpr ⟨_, takeDigits_append hwhole hrest, ?_⟩
  refine Option.bind_eq_some_iff.mpr ⟨(), hguard, ?_⟩
  refine Option.bind_eq_some_iff.mpr ⟨_, splitFraction_append hfraction hrest, ?_⟩
  exact Option.bind_eq_some_iff.mpr ⟨_, splitExponent_append hexponent hrest, rfl⟩

/-- A number without a minus sign. -/
theorem split_of_ne_minus {c : Char} (hc : c ≠ '-') (cs : List Char) :
    split (c :: cs) = splitUnsigned false (c :: cs) := by
  simp [split, hc]

/-- **A number is read in front of other text as it is read alone**, if the text does not continue
it. -/
theorem split_append {n : Numeral} {left : List Char} (h : split cs = some (n, left))
    (hrest : Stops rest) : split (cs ++ rest) = some (n, left ++ rest) := by
  unfold split at h
  split at h
  · rw [List.cons_append, split]
    exact splitUnsigned_append h hrest
  · rename_i hminus
    cases cs with
    | nil => cases h
    | cons c cs =>
        have hc : c ≠ '-' := fun heq => hminus cs (heq ▸ rfl)
        rw [List.cons_append, split_of_ne_minus hc, ← List.cons_append]
        exact splitUnsigned_append h hrest

/-- A number starts with a digit or with a minus sign. -/
theorem head_of_split {n : Numeral} {left : List Char} (h : split cs = some (n, left)) :
    ∃ c tail, cs = c :: tail ∧ (c == '-' || c.isDigit) = true := by
  cases cs with
  | nil => cases h
  | cons c tail =>
      refine ⟨c, tail, rfl, ?_⟩
      by_cases hc : c = '-'
      · simp [hc]
      · rw [split_of_ne_minus hc] at h
        obtain ⟨⟨whole, left₁⟩, hwhole, -⟩ := Option.bind_eq_some_iff.mp h
        cases hdigit : c.isDigit with
        | true => simp
        | false => simp [takeDigits, hdigit] at hwhole

/-- The text is a number, and the number has the value. -/
def Denotes (cs : List Char) (v : Json) : Prop := ∃ n, split cs = some (n, []) ∧ n.value = v

theorem Denotes.split_append {v : Json} (h : Denotes cs v) (hrest : Stops rest) :
    ∃ n, split (cs ++ rest) = some (n, rest) ∧ n.value = v := by
  obtain ⟨n, hsplit, hvalue⟩ := h
  have happend := Json.split_append hsplit hrest
  exact ⟨n, happend, hvalue⟩

/-! What is left over when a number has been read -/

theorem takeDigits_suffix {cs ds left : List Char} (h : takeDigits cs = some (ds, left)) :
    left <:+ cs := by
  unfold takeDigits at h
  split at h
  · cases h
  · cases h
    exact List.dropWhile_suffix _

theorem splitFraction_suffix {cs left : List Char} {f : Option (List Char)}
    (h : splitFraction cs = some (f, left)) : left <:+ cs := by
  unfold splitFraction at h
  split at h
  · obtain ⟨⟨ds, left'⟩, hds, heq⟩ := Option.map_eq_some_iff.mp h
    cases heq
    exact (takeDigits_suffix hds).trans (List.suffix_cons _ _)
  · cases h
    exact List.suffix_refl _

theorem takeExponent_suffix {cs left : List Char} {e : Int}
    (h : takeExponent cs = some (e, left)) : left <:+ cs := by
  unfold takeExponent at h
  split at h <;> obtain ⟨⟨ds, left'⟩, hds, heq⟩ := Option.map_eq_some_iff.mp h <;> cases heq
  · exact (takeDigits_suffix hds).trans (List.suffix_cons _ _)
  · exact (takeDigits_suffix hds).trans (List.suffix_cons _ _)
  · exact takeDigits_suffix hds

theorem splitExponent_suffix {cs left : List Char} {e : Option Int}
    (h : splitExponent cs = some (e, left)) : left <:+ cs := by
  unfold splitExponent at h
  split at h
  · obtain ⟨⟨n, left'⟩, hn, heq⟩ := Option.map_eq_some_iff.mp h
    cases heq
    exact (takeExponent_suffix hn).trans (List.suffix_cons _ _)
  · obtain ⟨⟨n, left'⟩, hn, heq⟩ := Option.map_eq_some_iff.mp h
    cases heq
    exact (takeExponent_suffix hn).trans (List.suffix_cons _ _)
  · cases h
    exact List.suffix_refl _

theorem splitUnsigned_suffix {negative : Bool} {cs left : List Char} {n : Numeral}
    (h : splitUnsigned negative cs = some (n, left)) : left <:+ cs := by
  obtain ⟨⟨whole, left₁⟩, hwhole, h⟩ := Option.bind_eq_some_iff.mp h
  obtain ⟨_, -, h⟩ := Option.bind_eq_some_iff.mp h
  obtain ⟨⟨f, left₂⟩, hfraction, h⟩ := Option.bind_eq_some_iff.mp h
  obtain ⟨⟨e, left₃⟩, hexponent, heq⟩ := Option.bind_eq_some_iff.mp h
  cases heq
  have hlast : left <:+ left₂ := splitExponent_suffix hexponent
  have hmiddle : left₂ <:+ left₁ := splitFraction_suffix hfraction
  exact (hlast.trans hmiddle).trans (takeDigits_suffix hwhole)

/-- What is left over when a number has been read is the end of the text. -/
theorem split_suffix {cs left : List Char} {n : Numeral} (h : split cs = some (n, left)) :
    left <:+ cs := by
  unfold split at h
  split at h
  · exact (splitUnsigned_suffix h).trans (List.suffix_cons _ _)
  · exact splitUnsigned_suffix h

/-! Integers -/

theorem takeDigits_of_digits {ds : List Char} (hds : ∀ c ∈ ds, c.isDigit = true) (hne : ds ≠ []) :
    takeDigits ds = some (ds, []) := by
  have htake : ds.takeWhile Char.isDigit = ds := List.takeWhile_eq_self_iff.mpr hds
  have hdrop : ds.dropWhile Char.isDigit = [] := List.dropWhile_eq_nil_iff.mpr hds
  unfold takeDigits
  rw [htake, hdrop]
  cases ds with
  | nil => exact absurd rfl hne
  | cons d ds => rfl

/-- More digits do not make a number smaller. -/
theorem le_ofDigitChars (ds : List Char) (n : Nat) : n ≤ Nat.ofDigitChars 10 ds n := by
  induction ds generalizing n with
  | nil => rw [Nat.ofDigitChars_nil]
  | cons c ds ih =>
      rw [Nat.ofDigitChars_cons]
      have hrest := ih (10 * n + (c.toNat - '0'.toNat))
      omega

/-- All digits are gathered if the number is small enough. -/
theorem gather_eq {ds : List Char} {n : Nat} (h : Nat.ofDigitChars 10 ds n < 0x10000000000000000) :
    gather n ds = (Nat.ofDigitChars 10 ds n, []) := by
  induction ds generalizing n with
  | nil => rw [gather, Nat.ofDigitChars_nil]
  | cons c ds ih =>
      rw [Nat.ofDigitChars_cons] at h ⊢
      have hle := le_ofDigitChars ds (10 * n + (c.toNat - '0'.toNat))
      have hsmall : 10 * n + digitValue c < 0x10000000000000000 := Nat.lt_of_le_of_lt hle h
      rw [gather, if_pos hsmall]
      exact ih h

/-- A positive number is not written with a zero in front. -/
theorem head_toDigits_ne {n : Nat} (h : 0 < n) : (Nat.toDigits 10 n).head? ≠ some '0' := by
  induction n using Nat.strong_induction_on with
  | _ n ih =>
      by_cases hlt : n < 10
      · rw [Nat.toDigits_of_lt_base hlt]
        simp only [List.head?_cons, ne_eq, Option.some.injEq, Nat.digitChar_eq_zero]
        omega
      · have hrest := ih (n / 10) (by omega) (by omega)
        rw [Nat.toDigits_of_base_le (by decide) (by omega), List.head?_append]
        cases hds : Nat.toDigits 10 (n / 10) with
        | nil => exact absurd hds Nat.toDigits_ne_nil
        | cons c ds =>
            rw [hds] at hrest
            exact hrest

theorem isDigit_toDigits (n : Nat) : ∀ c ∈ Nat.toDigits 10 n, c.isDigit = true :=
  fun _ hc => Nat.isDigit_of_mem_toDigits (by decide) (by decide) hc

/-- The digits of a natural number are read as they are. -/
theorem splitUnsigned_toDigits (negative : Bool) (n : Nat) :
    splitUnsigned negative (Nat.toDigits 10 n) =
      some (⟨negative, Nat.toDigits 10 n, none, none⟩, []) := by
  have htake := takeDigits_of_digits (isDigit_toDigits n) Nat.toDigits_ne_nil
  have hzero : (Nat.toDigits 10 n).length = 1 ∨ (Nat.toDigits 10 n).head? ≠ some '0' := by
    by_cases hlt : n < 10
    · rw [Nat.toDigits_of_lt_base hlt]
      exact .inl rfl
    · exact .inr (head_toDigits_ne (by omega))
  unfold splitUnsigned
  refine Option.bind_eq_some_iff.mpr ⟨_, htake, ?_⟩
  exact Option.bind_eq_some_iff.mpr ⟨(), if_pos hzero, rfl⟩

/-- The value of the digits of a natural number. -/
theorem value_toDigits (negative : Bool) {n : Nat} (h : n < 0x10000000000000000) :
    (Numeral.mk negative (Nat.toDigits 10 n) none none).value = ofSigned negative n := by
  have hvalue : Nat.ofDigitChars 10 (Nat.toDigits 10 n) 0 = n := Nat.ofDigitChars_ten_toDigits
  have hgather : gather 0 (Nat.toDigits 10 n) = (n, []) := by
    rw [gather_eq (by rw [hvalue]; exact h), hvalue]
  unfold Numeral.value
  dsimp only
  rw [hgather]
  dsimp only
  rw [if_pos List.isEmpty_nil]

/-- A natural number does not start with a minus sign. -/
theorem split_toDigits (n : Nat) :
    split (Nat.toDigits 10 n) = splitUnsigned false (Nat.toDigits 10 n) := by
  cases hds : Nat.toDigits 10 n with
  | nil => exact absurd hds Nat.toDigits_ne_nil
  | cons c ds =>
      have hdigit : c.isDigit = true := isDigit_toDigits n c (by rw [hds]; exact List.mem_cons_self)
      have hc : c ≠ '-' := by
        intro heq
        rw [heq] at hdigit
        exact absurd hdigit (by decide)
      exact split_of_ne_minus hc ds

/-- **Integers are read back**, if they fit in 64 bits. -/
theorem denotes_int {n : Int} (hlow : -0x8000000000000000 ≤ n) (hhigh : n < 0x10000000000000000) :
    Denotes (toString n).toList (.int n) := by
  cases n with
  | ofNat m =>
      have hm : m < 0x10000000000000000 := Int.ofNat_lt.mp hhigh
      have htext : (toString (Int.ofNat m)).toList = Nat.toDigits 10 m := Nat.toList_repr
      refine ⟨⟨false, Nat.toDigits 10 m, none, none⟩, ?_, ?_⟩
      · rw [htext, split_toDigits, splitUnsigned_toDigits]
      · rw [value_toDigits false hm]
        rfl
  | negSucc m =>
      have hm : m + 1 ≤ 0x8000000000000000 := by omega
      have htext : (toString (Int.negSucc m)).toList = '-' :: Nat.toDigits 10 (m + 1) := by
        have hrepr : toString (Int.negSucc m) = "-" ++ Nat.repr (m + 1) := rfl
        rw [hrepr, String.toList_append, Nat.toList_repr]
        rfl
      refine ⟨⟨true, Nat.toDigits 10 (m + 1), none, none⟩, ?_, ?_⟩
      · rw [htext, split, splitUnsigned_toDigits]
      · rw [value_toDigits true (by omega), ofSigned_of_neg (by omega) hm]
        rfl

end QueryTyping.Json
