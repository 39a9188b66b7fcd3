import Mathlib.Data.String.Basic
import QueryTyping.Proofs.Text.Trim
import QueryTyping.Ty.Name

/-!
# The grammar of type names

A type is spelled as its name or as `List<…>` around a spelling of its elements, in letters of any
case and with blanks before and after it.  A name consists of letters, and `List<…>` starts with a
letter and ends with a bracket, so neither has blanks at its ends, and trimming finds exactly what
stands between the blanks.  No name has a bracket, so the two forms exclude each other, and reading
follows the grammar step by step.

The letters of `List` take one byte each in any case, and so do the brackets.  So the bytes after
the fifth and before the last one are the spelling of the elements, whatever characters it has.

Main statements: `elementText_eq_some_iff` says when a text has the form of a list,
`ofChars_eq_some_iff` that reading accepts exactly the spellings, and `sliced` that it takes slices
between characters only.  `read_spellings` gathers them and says that the written form of
a type is read back.
-/

namespace QueryTyping

namespace Text

variable {c d : Char}

/-! Letters in any case -/

theorem isLower_iff : c.isLower = true ↔ 97 ≤ c.toNat ∧ c.toNat ≤ 122 := by
  change (decide ('a'.val ≤ c.val) && decide (c.val ≤ 'z'.val)) = true ↔ _
  simp [UInt32.le_iff_toNat_le]

theorem between_capitals_iff :
    'A'.val ≤ c.val ∧ c.val ≤ 'Z'.val ↔ 65 ≤ c.toNat ∧ c.toNat ≤ 90 := by
  simp [UInt32.le_iff_toNat_le]

theorem isUpper_iff : c.isUpper = true ↔ 65 ≤ c.toNat ∧ c.toNat ≤ 90 :=
  decide_eq_true_iff.trans between_capitals_iff

theorem isAlpha_iff :
    c.isAlpha = true ↔ (65 ≤ c.toNat ∧ c.toNat ≤ 90) ∨ (97 ≤ c.toNat ∧ c.toNat ≤ 122) := by
  rw [← isUpper_iff, ← isLower_iff]
  exact Bool.or_eq_true_iff

theorem toNat_toLower (c : Char) :
    c.toLower.toNat = if 65 ≤ c.toNat ∧ c.toNat ≤ 90 then c.toNat + 32 else c.toNat := by
  unfold Char.toLower
  split
  · rename_i hupper
    obtain ⟨hge, hle⟩ := between_capitals_iff.mp hupper
    rw [if_pos ⟨hge, hle⟩]
    change (c.val + 32).toNat = c.val.toNat + 32
    change 65 ≤ c.val.toNat at hge
    change c.val.toNat ≤ 90 at hle
    rw [UInt32.toNat_add]
    have hdistance : (32 : UInt32).toNat = 32 := rfl
    omega
  · rename_i hupper
    rw [if_neg (mt between_capitals_iff.mpr hupper)]

/-- What has a small letter as its lower case is a letter. -/
theorem isAlpha_of_isLower_toLower (h : c.toLower.isLower = true) : c.isAlpha = true := by
  rw [isLower_iff, toNat_toLower] at h
  rw [isAlpha_iff]
  split at h <;> omega

/-- What is no small letter is the lower case of itself only. -/
theorem eq_of_toLower_eq (hd : d.isLower = false) (h : c.toLower = d) : c = d := by
  subst h
  rw [← Bool.not_eq_true, isLower_iff, toNat_toLower] at hd
  rw [← Char.toNat_inj, toNat_toLower]
  split at hd <;> rename_i hc
  · omega
  · rw [if_neg hc]

theorem isBlank_of_isAlpha (h : c.isAlpha = true) : isBlank c = false := by
  rw [isAlpha_iff] at h
  simp only [isBlank, Bool.or_eq_false_iff, Bool.and_eq_false_iff, decide_eq_false_iff_not,
    beq_eq_false_iff_ne]
  omega

/-- A letter takes one byte. -/
theorem utf8Size_of_isAlpha (h : c.isAlpha = true) : c.utf8Size = 1 := by
  rw [isAlpha_iff] at h
  rw [Char.utf8Size_eq_one_iff, UInt32.le_iff_toNat_le]
  change c.toNat ≤ 127
  omega

/-! Slices of the bytes of a text -/

/-- The text from one byte position up to another.  There is one if both stand between characters of
the text, and in this order. -/
def slice? (text : String) (start stop : Nat) : Option String :=
  if (⟨start⟩ : String.Pos.Raw).IsValid text ∧ (⟨stop⟩ : String.Pos.Raw).IsValid text ∧
      start ≤ stop then
    some (String.Pos.Raw.extract text ⟨start⟩ ⟨stop⟩)
  else none

/-- What stands between two parts of a text is the slice from the end of the one to the start of the
other. -/
theorem slice_append (before inner after : List Char) :
    slice? (String.ofList (before ++ inner ++ after)) (String.utf8Len before)
        (String.utf8Len before + String.utf8Len inner) = some (String.ofList inner) := by
  have hstart : (⟨String.utf8Len before⟩ : String.Pos.Raw).IsValid
      (String.ofList (before ++ inner ++ after)) :=
    String.Pos.Raw.isValid_ofList.mpr ⟨before.length, by simp [String.utf8ByteSize_ofList]⟩
  have hstop : (⟨String.utf8Len before + String.utf8Len inner⟩ : String.Pos.Raw).IsValid
      (String.ofList (before ++ inner ++ after)) :=
    String.Pos.Raw.isValid_ofList.mpr
      ⟨before.length + inner.length, by
        rw [← List.length_append, List.take_left, String.utf8ByteSize_ofList,
          String.utf8Len_append]⟩
  rw [slice?, if_pos ⟨hstart, hstop, Nat.le_add_right _ _⟩, String.extract_of_valid]

end Text

namespace Ty

open Text

variable {cs inner word : List Char} {t u : Ty}

/-! The grammar -/

/-- The characters spell the type. -/
inductive Spelling : List Char → Ty → Prop
  | name {before word after : List Char} {name : String} {t : Ty}
      (hbefore : Blanks before) (hafter : Blanks after) (hname : (name, t) ∈ baseNames)
      (hword : lower word = lower name.toList) : Spelling (before ++ word ++ after) t
  | list {before keyword inner after : List Char} {t : Ty}
      (hbefore : Blanks before) (hafter : Blanks after)
      (hkeyword : lower keyword = lower "List".toList) (hinner : Spelling inner t) :
      Spelling (before ++ (keyword ++ '<' :: inner ++ ['>']) ++ after) (list t)

/-- The lower case of a name has small letters only. -/
theorem isLower_of_mem_lower {entry : String × Ty} (h : entry ∈ baseNames) :
    ∀ c ∈ lower entry.1.toList, c.isLower = true := by
  have hall : ∀ entry ∈ baseNames, (lower entry.1.toList).all Char.isLower = true := by decide
  exact List.all_eq_true.mp (hall entry h)

/-- No two names are the same in lower case. -/
theorem find_name {entry : String × Ty} (h : entry ∈ baseNames) :
    baseNames.find? (fun other => lower other.1.toList == lower entry.1.toList) = some entry := by
  have hall : ∀ entry ∈ baseNames,
      baseNames.find? (fun other => lower other.1.toList == lower entry.1.toList) = some entry := by
    decide
  exact hall entry h

/-- What is a word of small letters in lower case is a word of letters. -/
theorem isAlpha_of_lower (h : ∀ d ∈ lower word, d.isLower = true) : ∀ c ∈ word, c.isAlpha = true :=
  fun c hc => isAlpha_of_isLower_toLower (h c.toLower (List.mem_map_of_mem hc))

theorem isAlpha_of_keyword (h : lower word = lower "List".toList) :
    ∀ c ∈ word, c.isAlpha = true := by
  refine isAlpha_of_lower ?_
  rw [h]
  exact List.all_eq_true.mp (by decide)

theorem length_keyword (h : lower word = lower "List".toList) : word.length = 4 := by
  have hlength := congrArg List.length h
  rwa [lower, lower, List.length_map, List.length_map] at hlength

/-! Names -/

/-- **Names.**  A text is a base name if in lower case it is one. -/
theorem ofBaseName_eq_some_iff :
    ofBaseName? word = some t ↔ ∃ name, (name, t) ∈ baseNames ∧ lower word = lower name.toList := by
  rw [ofBaseName?, Option.map_eq_some_iff]
  constructor
  · rintro ⟨⟨name, u⟩, hfind, rfl⟩
    have hlower := List.find?_some hfind
    exact ⟨name, List.mem_of_find?_eq_some hfind, (beq_iff_eq.mp hlower).symm⟩
  · rintro ⟨name, hname, hlower⟩
    exact ⟨(name, t), by rw [hlower]; exact find_name hname, rfl⟩

/-! Lists -/

/-- What is the start of a list in lower case is the keyword and a bracket. -/
theorem exists_keyword_of_lower {start : List Char} (h : lower start = "list<".toList) :
    ∃ keyword, lower keyword = lower "List".toList ∧ start = keyword ++ ['<'] := by
  have hne : start ≠ [] := by
    intro hnil
    rw [hnil] at h
    cases h
  have hstart : start.dropLast ++ [start.getLast hne] = start := List.dropLast_append_getLast hne
  have hparts : lower start.dropLast ++ [(start.getLast hne).toLower] =
      lower "List".toList ++ ['<'] := by
    rw [← hstart, lower, List.map_append] at h
    exact h
  obtain ⟨hkeyword, hbracket⟩ := List.append_inj' hparts rfl
  refine ⟨start.dropLast, hkeyword, ?_⟩
  rw [← eq_of_toLower_eq (by decide) (List.singleton_inj.mp hbracket), hstart]

/-- What ends with a character of its own after the first ones has the character at the end of the
rest. -/
theorem dropLast_drop_append {n : Nat} {c d : Char} (h : cs.getLast? = some c) (hne : d ≠ c)
    (htake : (cs.take n).getLast? = some d) : (cs.drop n).dropLast ++ [c] = cs.drop n := by
  refine List.dropLast_append_getLast? _ ?_
  rw [← List.take_append_drop n cs, List.getLast?_append, htake] at h
  cases hrest : (cs.drop n).getLast? with
  | none =>
      rw [hrest] at h
      exact absurd (Option.some.inj h) hne
  | some e =>
      rw [hrest] at h
      exact h

/-- The start of a list is skipped, and so is the bracket at its end. -/
theorem elementText_list {keyword : List Char} (h : lower keyword = lower "List".toList) :
    elementText? (keyword ++ '<' :: inner ++ ['>']) = some inner := by
  have hlength : (keyword ++ ['<']).length = 5 := by
    rw [List.length_append, length_keyword h]
    rfl
  have hsplit : keyword ++ '<' :: inner ++ ['>'] = (keyword ++ ['<']) ++ (inner ++ ['>']) := by
    simp
  have hlower : lower (keyword ++ ['<']) = "list<".toList := by
    rw [lower, List.map_append]
    change lower keyword ++ ['<'] = _
    rw [h]
    rfl
  have hlast : (keyword ++ '<' :: inner ++ ['>']).getLast? = some '>' := List.getLast?_concat
  rw [elementText?, hlast, hsplit, List.take_left' hlength, List.drop_left' hlength, hlower,
    List.dropLast_concat]
  rfl

/-- **The form of a list.**  What stands between the brackets is whatever is between the keyword and
an opening bracket in front and a closing bracket at the end. -/
theorem elementText_eq_some_iff :
    elementText? cs = some inner ↔
      ∃ keyword, lower keyword = lower "List".toList ∧ cs = keyword ++ '<' :: inner ++ ['>'] := by
  constructor
  · intro h
    rw [elementText?, Option.ite_none_right_eq_some, Bool.and_eq_true, beq_iff_eq, beq_iff_eq] at h
    obtain ⟨⟨hlower, hlast⟩, hinner⟩ := h
    obtain rfl := Option.some.inj hinner
    obtain ⟨keyword, hkeyword, htake⟩ := exists_keyword_of_lower hlower
    have hbracket : (cs.take 5).getLast? = some '<' := by rw [htake, List.getLast?_concat]
    have hdrop := dropLast_drop_append hlast (by decide) hbracket
    refine ⟨keyword, hkeyword, ?_⟩
    calc cs = cs.take 5 ++ cs.drop 5 := (List.take_append_drop 5 cs).symm
      _ = keyword ++ '<' :: (cs.drop 5).dropLast ++ ['>'] := by
        rw [htake, ← hdrop]
        simp
  · rintro ⟨keyword, hkeyword, rfl⟩
    exact elementText_list hkeyword

/-- Nothing that has the form of a list has a name, and the other way round. -/
theorem elementText_eq_none_of_name {name : String} (hname : (name, t) ∈ baseNames)
    (hword : lower word = lower name.toList) : elementText? word = none := by
  rw [Option.eq_none_iff_forall_ne_some]
  intro inner h
  obtain ⟨keyword, -, rfl⟩ := elementText_eq_some_iff.mp h
  have hbracket : ('<' : Char) ∈ lower name.toList := by
    rw [← hword]
    exact List.mem_map.mpr ⟨'<', by simp, rfl⟩
  exact absurd (isLower_of_mem_lower hname '<' hbracket) (by decide)

/-! Blanks around names and lists -/

theorem trim_name {before after : List Char} {name : String} (hbefore : Blanks before)
    (hafter : Blanks after) (hname : (name, t) ∈ baseNames)
    (hword : lower word = lower name.toList) : trim (before ++ word ++ after) = word := by
  have hletters : ∀ c ∈ word, c.isAlpha = true :=
    isAlpha_of_lower (hword ▸ isLower_of_mem_lower hname)
  exact trim_of_blanks_around hbefore hafter
    (.of_forall fun c hc => isBlank_of_isAlpha (hletters c hc))

theorem elementText_trim_list {before keyword after : List Char} (hbefore : Blanks before)
    (hafter : Blanks after) (hkeyword : lower keyword = lower "List".toList) :
    elementText? (trim (before ++ (keyword ++ '<' :: inner ++ ['>']) ++ after)) = some inner := by
  refine elementText_eq_some_iff.mpr ⟨keyword, hkeyword, ?_⟩
  refine trim_of_blanks_around hbefore hafter ⟨?_, ?_⟩
  · intro c hc
    cases keyword with
    | nil => cases hkeyword
    | cons k keyword =>
        obtain rfl : k = c := by simpa using hc
        exact isBlank_of_isAlpha (isAlpha_of_keyword hkeyword k List.mem_cons_self)
  · intro c hc
    obtain rfl : '>' = c := Option.some.inj (List.getLast?_concat.symm.trans hc)
    rfl

/-! Reading -/

theorem ofChars_of_elementText (h : elementText? (trim cs) = some inner) :
    ofChars? cs = (ofChars? inner).map list := by
  rw [ofChars?]
  split
  · rename_i other hother
    rw [Option.some.inj (h.symm.trans hother)]
  · rename_i hnone
    cases h.symm.trans hnone

theorem ofChars_of_no_elementText (h : elementText? (trim cs) = none) :
    ofChars? cs = ofBaseName? (trim cs) := by
  rw [ofChars?]
  split
  · rename_i hother
    cases h.symm.trans hother
  · rfl

/-- Reading descends into the elements of lists. -/
theorem elements_induction {motive : List Char → Prop}
    (name : ∀ cs, elementText? (trim cs) = none → motive cs)
    (list : ∀ cs inner, elementText? (trim cs) = some inner → motive inner → motive cs)
    (cs : List Char) : motive cs := by
  induction hn : cs.length using Nat.strongRecOn generalizing cs with
  | _ n ih =>
      cases h : elementText? (trim cs) with
      | none => exact name cs h
      | some inner =>
          have hlt := Nat.lt_of_lt_of_le (length_elementText_lt h) (length_trim_le cs)
          exact list cs inner h (ih inner.length (hn ▸ hlt) inner rfl)

/-- **Reading accepts exactly the spellings.**  -/
theorem ofChars_eq_some_iff : ofChars? cs = some t ↔ Spelling cs t := by
  constructor
  · induction cs using elements_induction generalizing t with
    | name cs h =>
        rw [ofChars_of_no_elementText h, ofBaseName_eq_some_iff]
        rintro ⟨name, hname, hword⟩
        obtain ⟨before, after, hbefore, hafter, hcs⟩ := exists_blanks_around_trim cs
        rw [hcs]
        exact .name hbefore hafter hname hword
    | list cs inner h ih =>
        rw [ofChars_of_elementText h, Option.map_eq_some_iff]
        rintro ⟨element, helement, rfl⟩
        obtain ⟨keyword, hkeyword, htrim⟩ := elementText_eq_some_iff.mp h
        obtain ⟨before, after, hbefore, hafter, hcs⟩ := exists_blanks_around_trim cs
        rw [hcs, htrim]
        exact .list hbefore hafter hkeyword (ih helement)
  · intro h
    induction h with
    | name hbefore hafter hname hword =>
        have htrim := trim_name hbefore hafter hname hword
        have hform := elementText_eq_none_of_name hname hword
        rw [ofChars_of_no_elementText (htrim.symm ▸ hform), htrim]
        exact ofBaseName_eq_some_iff.mpr ⟨_, hname, hword⟩
    | list hbefore hafter hkeyword _ ih =>
        rw [ofChars_of_elementText (elementText_trim_list hbefore hafter hkeyword), ih,
          Option.map_some]

/-- A text spells one type at most. -/
theorem Spelling.unique (ht : Spelling cs t) (hu : Spelling cs u) : t = u :=
  Option.some.inj ((ofChars_eq_some_iff.mpr ht).symm.trans (ofChars_eq_some_iff.mpr hu))

/-! Slices -/

/-- Wherever reading goes on with the elements of a list, they are the slice from after the fifth
byte to before the last one. -/
inductive Sliced : List Char → Prop
  | name {cs : List Char} (h : elementText? (trim cs) = none) : Sliced cs
  | list {cs inner : List Char} (h : elementText? (trim cs) = some inner)
      (hslice : slice? (String.ofList (trim cs)) 5
        ((String.ofList (trim cs)).utf8ByteSize - 1) = some (String.ofList inner))
      (hinner : Sliced inner) : Sliced cs

/-- The keyword takes four bytes in any case. -/
theorem utf8Len_keyword {keyword : List Char} (h : lower keyword = lower "List".toList) :
    String.utf8Len keyword = 4 := by
  have hlength := length_keyword h
  have hletters := isAlpha_of_keyword h
  match keyword, hlength with
  | [a, b, c, d], _ => simp_all [String.utf8Len, utf8Size_of_isAlpha]

/-- **All slices are in range and between characters.**  -/
theorem sliced (cs : List Char) : Sliced cs := by
  induction cs using elements_induction with
  | name cs h => exact .name h
  | list cs inner h ih =>
      refine .list h ?_ ih
      obtain ⟨keyword, hkeyword, htrim⟩ := elementText_eq_some_iff.mp h
      have hcut : trim cs = (keyword ++ ['<']) ++ inner ++ ['>'] := by
        rw [htrim]
        simp
      have hbefore : String.utf8Len (keyword ++ ['<']) = 5 := by
        rw [String.utf8Len_append, utf8Len_keyword hkeyword]
        rfl
      have hsize : (String.ofList (trim cs)).utf8ByteSize - 1 = 5 + String.utf8Len inner := by
        rw [hcut, String.utf8ByteSize_ofList, String.utf8Len_append, String.utf8Len_append, hbefore]
        exact Nat.add_sub_cancel _ 1
      have hslice := slice_append (keyword ++ ['<']) inner ['>']
      rw [hbefore] at hslice
      rw [hsize, hcut]
      exact hslice

/-! The written form -/

theorem spelling_name (t : Ty) : Spelling t.name.toList t := by
  have base : ∀ {name : String} {t : Ty}, (name, t) ∈ baseNames → Spelling name.toList t := by
    intro name t h
    simpa using Spelling.name blanks_nil blanks_nil h rfl
  induction t with
  | list element ih =>
      have h := Spelling.list blanks_nil blanks_nil rfl ih
      simpa [name] using h
  | _ => exact base (by decide)

/-- **Reading type names.**  A text is read as a type exactly if it spells the type, and it spells
one type at most.  A text that spells none is refused with the text itself, trimmed, wherever the
fault is.  Slices are taken between characters only, and the written form of a type is read back. -/
theorem read_spellings (text : String) :
    (∀ t, read text = .ok t ↔ Spelling text.toList t) ∧
      (∀ t u, Spelling text.toList t → Spelling text.toList u → t = u) ∧
      (∀ e, read text = .error e ↔
        (∀ t, ¬ Spelling text.toList t) ∧ e = ⟨String.ofList (trim text.toList)⟩) ∧
      Sliced text.toList ∧ ∀ t : Ty, read t.name = .ok t := by
  refine ⟨?_, fun t u => Spelling.unique, ?_, sliced text.toList, ?_⟩
  · intro t
    rw [read_eq_ok_iff, ofChars_eq_some_iff]
  · intro e
    rw [read_eq_error_iff, Option.eq_none_iff_forall_ne_some]
    exact and_congr_left' (forall_congr' fun t => not_congr ofChars_eq_some_iff)
  · intro t
    exact read_eq_ok_iff.mpr (ofChars_eq_some_iff.mpr (spelling_name t))

end Ty
end QueryTyping
