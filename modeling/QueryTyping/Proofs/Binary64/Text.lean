import QueryTyping.Binary64.Shortest
import QueryTyping.Json.Reader
import QueryTyping.Proofs.Json.Number

/-!
# The written form of a double as JSON

The shortest decimal of a double is laid out in digits, with a point or an exponent or both, and with
a minus sign in front if the double is negative.  There are no blanks in it, so when it is read as a
text of JSON and gives a value, it is one number from its first character to its last.

Whether a double comes back from its written form depends on how its digits are rounded when they are
read, and that is not said here.

Main statement: `denotes_of_readsBack` says that the written form of a double that reads back as a
text is a number with that value.
-/

namespace QueryTyping

namespace Binary64

/-- The written form of the double, read as a JSON text, is the double. -/
def ReadsBack (x : Binary64) : Prop := Json.read? x.text = some (.real x)

instance (x : Binary64) : Decidable x.ReadsBack :=
  inferInstanceAs (Decidable (Json.read? x.text = some (.real x)))

/-- The characters of numbers. -/
def isNumeric (c : Char) : Bool := c.isDigit || c == '-' || c == '.' || c == 'e'

theorem isNumeric_of_isDigit {c : Char} (h : c.isDigit = true) : isNumeric c = true := by
  simp [isNumeric, h]

/-- There are no blanks in numbers. -/
theorem not_isSpace_of_isNumeric {c : Char} (h : isNumeric c = true) : Json.isSpace c = false := by
  cases hspace : Json.isSpace c with
  | false => rfl
  | true =>
      simp only [Json.isSpace, Bool.or_eq_true, beq_iff_eq] at hspace
      rcases hspace with ((rfl | rfl) | rfl) | rfl <;> exact absurd h (by decide)

/-- The text is made of the characters of numbers, and starts with a digit. -/
structure Digital (cs : List Char) : Prop where
  head : ∃ c tail, cs = c :: tail ∧ c.isDigit = true
  all : ∀ c ∈ cs, isNumeric c = true

theorem Digital.append {cs ds : List Char} (h : Digital cs) (hds : ∀ c ∈ ds, isNumeric c = true) :
    Digital (cs ++ ds) := by
  obtain ⟨c, tail, rfl, hc⟩ := h.head
  refine ⟨⟨c, tail ++ ds, rfl, hc⟩, ?_⟩
  intro d hd
  rcases List.mem_append.mp hd with hd | hd
  · exact h.all d hd
  · exact hds d hd

/-- A row of digits that is not empty. -/
theorem digital_of_digits {ds : List Char} (hds : ∀ c ∈ ds, c.isDigit = true) (hne : ds ≠ []) :
    Digital ds := by
  cases ds with
  | nil => exact absurd rfl hne
  | cons c ds =>
      exact ⟨⟨c, ds, rfl, hds c List.mem_cons_self⟩, fun d hd => isNumeric_of_isDigit (hds d hd)⟩

theorem digits_repr (n : Nat) : ∀ c ∈ (Nat.repr n).toList, c.isDigit = true := by
  rw [Nat.toList_repr]
  exact Json.isDigit_toDigits n

theorem repr_ne_nil (n : Nat) : (Nat.repr n).toList ≠ [] := by
  rw [Nat.toList_repr]
  exact Nat.toDigits_ne_nil

theorem numeric_toString (n : Int) : ∀ c ∈ (toString n).toList, isNumeric c = true := by
  intro c hc
  cases n with
  | ofNat m => exact isNumeric_of_isDigit (digits_repr m c hc)
  | negSucc m =>
      have htext : (toString (Int.negSucc m)).toList = '-' :: (Nat.repr (m + 1)).toList :=
        String.toList_append
      rw [htext] at hc
      rcases List.mem_cons.mp hc with rfl | hc
      · rfl
      · exact isNumeric_of_isDigit (digits_repr (m + 1) c hc)

theorem numeric_zeros (n : Nat) : ∀ c ∈ List.replicate n '0', isNumeric c = true := by
  intro c hc
  rw [List.eq_of_mem_replicate hc]
  rfl

/-- However a decimal is laid out, it starts with a digit. -/
theorem digital_place (d : Decimal) : Digital d.place.toList := by
  have hdigits := digits_repr d.digits
  have hrepr := digital_of_digits hdigits (repr_ne_nil d.digits)
  unfold Decimal.place
  dsimp only
  generalize (Nat.repr d.digits).toList = ds at hdigits hrepr
  split
  · rw [String.toList_append, String.toList_ofList]
    exact (hrepr.append (numeric_zeros _)).append (List.all_eq_true.mp (by decide))
  · split
    · rename_i _ hpoint
      -- The point stands behind at least one digit.
      rw [String.toList_ofList]
      have hfront : ds.take ((ds.length : Int) + d.power).toNat ≠ [] := by
        obtain ⟨c, tail, rfl, -⟩ := hrepr.head
        simp only [Bool.and_eq_true, decide_eq_true_eq] at hpoint
        intro hnil
        rw [List.take_eq_nil_iff] at hnil
        rcases hnil with hnil | hnil
        · omega
        · cases hnil
      refine (digital_of_digits (fun c hc => hdigits c (List.mem_of_mem_take hc)) hfront).append ?_
      exact List.forall_mem_cons.mpr
        ⟨rfl, fun c hc => isNumeric_of_isDigit (hdigits c (List.mem_of_mem_drop hc))⟩
    · split
      · rw [String.toList_ofList]
        refine ⟨⟨'0', _, rfl, rfl⟩, ?_⟩
        exact List.forall_mem_cons.mpr ⟨rfl, List.forall_mem_cons.mpr
          ⟨rfl, List.forall_mem_append.mpr ⟨numeric_zeros _, hrepr.all⟩⟩⟩
      · rw [String.toList_append, String.toList_ofList]
        have hexponent : ∀ c ∈ ['e'], isNumeric c = true := List.all_eq_true.mp rfl
        refine (Digital.append ?_ hexponent).append (numeric_toString _)
        obtain ⟨c, tail, rfl, hc⟩ := hrepr.head
        cases tail with
        | nil => exact hrepr
        | cons d tail =>
            have hfirst : Digital [c] := digital_of_digits (by simp [hc]) (by simp)
            exact hfirst.append (List.forall_mem_cons.mpr
              ⟨rfl, (List.forall_mem_cons.mp hrepr.all).2⟩)

/-- The written form of a double starts with a digit or a minus sign, and has no blanks. -/
theorem text_shape (x : Binary64) :
    ∃ c tail, x.text.toList = c :: tail ∧ (c == '-' || c.isDigit) = true ∧
      ∀ d ∈ x.text.toList, Json.isSpace d = false := by
  have habsolute : Digital (if x.isZero then "0.0" else x.shortest.place).toList := by
    split
    · exact ⟨⟨'0', ['.', '0'], rfl, rfl⟩, List.all_eq_true.mp (by decide)⟩
    · exact digital_place _
  have hspace : ∀ d ∈ (if x.isZero then "0.0" else x.shortest.place).toList,
      Json.isSpace d = false := fun d hd => not_isSpace_of_isNumeric (habsolute.all d hd)
  unfold text
  dsimp only
  generalize (if x.isZero then "0.0" else x.shortest.place) = t at habsolute hspace
  obtain ⟨c, tail, heq, hdigit⟩ := habsolute.head
  rw [String.toList_append]
  cases x.negative with
  | false =>
      refine ⟨c, tail, heq, by simp [hdigit], ?_⟩
      exact hspace
  | true =>
      exact ⟨'-', t.toList, rfl, rfl, List.forall_mem_cons.mpr ⟨rfl, hspace⟩⟩

end Binary64

namespace Json

/-- A text without tokens is made of blanks. -/
theorem eq_nil_of_tokens {cs : List Char} (h : tokens? cs = some [])
    (hspace : ∀ c ∈ cs, isSpace c = false) : cs = [] := by
  cases cs with
  | nil => rfl
  | cons c cs =>
      have hc := hspace c List.mem_cons_self
      rw [tokens?, if_neg (by simp [hc])] at h
      split at h
      · obtain ⟨ts, -, heq⟩ := Option.map_eq_some_iff.mp h
        cases heq
      · cases h

/-- No token may follow the outermost value. -/
theorem run_after_nil {v w : Json} {ts : List Token}
    (h : run (.after v, []) ts = some (.after w, [])) : ts = [] ∧ v = w := by
  cases ts with
  | nil =>
      cases h
      exact ⟨rfl, rfl⟩
  | cons t ts =>
      rw [run, List.foldlM_cons, step_after_nil] at h
      cases h

/-- What starts like a number is read as one. -/
theorem next_of_number {c : Char} (h : (c == '-' || c.isDigit) = true) (cs : List Char) :
    isSpace c = false ∧
      next? (c :: cs) = (split (c :: cs)).map fun (n, rest) => (.leaf n.value, rest) := by
  have hmark : mark? c = none := by
    unfold mark?
    split <;> first | rfl | exact absurd h (by decide)
  have hquote : c ≠ '"' := by
    intro heq
    rw [heq] at h
    exact absurd h (by decide)
  constructor
  · apply Binary64.not_isSpace_of_isNumeric
    rw [Bool.or_eq_true] at h
    rcases h with h | h
    · simp [Binary64.isNumeric, h]
    · exact Binary64.isNumeric_of_isDigit h
  · rw [next?, hmark]
    simp only [beq_iff_eq, hquote, if_false]
    rw [if_pos h]

/-- A text without blanks that starts like a number and is read as a value is one number. -/
theorem denotes_of_read {c : Char} {cs : List Char} {v : Json}
    (h : read? (String.ofList (c :: cs)) = some v) (hc : (c == '-' || c.isDigit) = true)
    (hspace : ∀ d ∈ cs, isSpace d = false) : Denotes (c :: cs) v := by
  obtain ⟨hfirst, hnext⟩ := next_of_number hc cs
  rw [read?, String.toList_ofList, tokens?, if_neg (by simp [hfirst])] at h
  split at h
  · rename_i place hrun
    cases h
    obtain ⟨ts, hts, hrun⟩ := Option.bind_eq_some_iff.mp hrun
    split at hts
    · rename_i t left heq
      obtain ⟨us, hus, rfl⟩ := Option.map_eq_some_iff.mp hts
      rw [hnext] at heq
      obtain ⟨⟨n, left'⟩, hsplit, heq⟩ := Option.map_eq_some_iff.mp heq
      cases heq
      rw [run, List.foldlM_cons] at hrun
      obtain ⟨rfl, hvalue⟩ := run_after_nil (v := n.value) (w := v) hrun
      have hleft : left = [] := by
        refine eq_nil_of_tokens hus fun d hd => ?_
        rcases List.mem_cons.mp ((split_suffix hsplit).subset hd) with rfl | hd
        · exact hfirst
        · exact hspace d hd
      subst hleft
      exact ⟨n, hsplit, hvalue⟩
    · cases hts
  · cases h

/-- **The written form of a double that reads back is a number.** -/
theorem denotes_of_readsBack {x : Binary64} (h : x.ReadsBack) :
    Denotes x.text.toList (.real x) := by
  obtain ⟨c, tail, heq, hc, hspace⟩ := x.text_shape
  rw [heq] at hspace ⊢
  have hread : read? (String.ofList (c :: tail)) = some (.real x) := by
    rw [← heq, String.ofList_toList]
    exact h
  exact denotes_of_read hread hc fun d hd => hspace d (List.mem_cons_of_mem _ hd)

end Json
end QueryTyping
