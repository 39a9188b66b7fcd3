import QueryTyping.Proofs.Binary64.Text
import QueryTyping.Proofs.Json.Text

/-!
# What is written is read back

The compact form of a value is cut into the tokens that it was put together from: a mark is a token
of its own, a string ends with its quote, a word with its last letter, and a number at the mark
behind it.  The pass over these tokens comes to the value, whatever brackets are open around it.

Integers have to fit in 64 bits, doubles have to read back from their own written form, and nothing
may be broken.  Everything else is free: all strings, all nestings, all lengths.

Main statements: `spells_chars` says into which tokens a value is cut, `run_tokens` what the pass
makes of them, and `read_render` that a value is read back.
-/

namespace QueryTyping.Json

mutual

/-- The tokens of a value. -/
def tokens : Json → List Token
  | array items => .openArray :: (tokensOfItems items ++ [.closeArray])
  | object fields => .openObject :: (tokensOfFields fields ++ [.closeObject])
  | string s => [.text (some s)]
  | v => [.leaf v]

/-- The tokens of the items of an array. -/
def tokensOfItems : List Json → List Token
  | [] => []
  | [v] => v.tokens
  | v :: w :: vs => v.tokens ++ .comma :: tokensOfItems (w :: vs)

/-- The tokens of the fields of an object. -/
def tokensOfFields : List (String × Json) → List Token
  | [] => []
  | [(k, v)] => .text (some k) :: .colon :: v.tokens
  | (k, v) :: f :: fs =>
      .text (some k) :: .colon :: (v.tokens ++ .comma :: tokensOfFields (f :: fs))

end

mutual

/-- Nothing in the value is changed by writing it and reading it. -/
def Readable : Json → Prop
  | int n => -0x8000000000000000 ≤ n ∧ n < 0x10000000000000000
  | real x => x.ReadsBack
  | array items => ReadableItems items
  | object fields => ReadableFields fields
  | broken => False
  | null | bool _ | string _ => True

/-- The same for a list of values. -/
def ReadableItems : List Json → Prop
  | [] => True
  | v :: vs => v.Readable ∧ ReadableItems vs

/-- The same for a list of fields. -/
def ReadableFields : List (String × Json) → Prop
  | [] => True
  | (_, v) :: fs => v.Readable ∧ ReadableFields fs

end

theorem readableItems_iff {vs : List Json} : ReadableItems vs ↔ ∀ v ∈ vs, v.Readable := by
  induction vs with
  | nil => simp [ReadableItems]
  | cons v vs ih => simp [ReadableItems, ih]

theorem readableFields_iff {fs : List (String × Json)} :
    ReadableFields fs ↔ ∀ f ∈ fs, f.2.Readable := by
  induction fs with
  | nil => simp [ReadableFields]
  | cons f fs ih =>
      obtain ⟨k, v⟩ := f
      simp [ReadableFields, ih]

@[simp] theorem readable_array {vs : List Json} :
    (array vs).Readable ↔ ∀ v ∈ vs, v.Readable := by
  rw [Readable, readableItems_iff]

@[simp] theorem readable_object {fs : List (String × Json)} :
    (object fs).Readable ↔ ∀ f ∈ fs, f.2.Readable := by
  rw [Readable, readableFields_iff]

@[simp] theorem readable_string (s : String) : (string s).Readable := trivial

@[simp] theorem readable_null : null.Readable := trivial

@[simp] theorem readable_bool (b : Bool) : (bool b).Readable := trivial

theorem readable_ofNat {n : Nat} (h : n < 0x10000000000000000) : (ofNat n).Readable :=
  ⟨by omega, Int.ofNat_lt.mpr h⟩

mutual

/-- Nothing that is readable is broken. -/
theorem sound_of_readable (v : Json) (h : v.Readable) : v.sound = true := by
  cases v with
  | array vs => exact soundItems_of_readable vs h
  | object fs => exact soundFields_of_readable fs h
  | broken => cases h
  | _ => rfl

theorem soundItems_of_readable (vs : List Json) (h : ReadableItems vs) :
    soundItems vs = true := by
  match vs with
  | [] => rfl
  | v :: vs => simp [soundItems, sound_of_readable v h.1, soundItems_of_readable vs h.2]

theorem soundFields_of_readable (fs : List (String × Json)) (h : ReadableFields fs) :
    soundFields fs = true := by
  match fs with
  | [] => rfl
  | (_, v) :: fs => simp [soundFields, sound_of_readable v h.1, soundFields_of_readable fs h.2]

end

/-! ### Cutting a text into tokens -/

/-- The text is cut into the tokens, in front of any text that does not continue a number. -/
def Spells (cs : List Char) (ts : List Token) : Prop :=
  ∀ rest, Stops rest → tokens? (cs ++ rest) = (tokens? rest).map (ts ++ ·)

/-- The token at the front of a text. -/
theorem tokens_of_next {c : Char} {cs rest : List Char} {t : Token} (hc : isSpace c = false)
    (h : next? (c :: cs) = some (t, rest)) :
    tokens? (c :: cs) = (tokens? rest).map (t :: ·) := by
  rw [tokens?, if_neg (by simp [hc])]
  split
  · rename_i heq
    rw [h] at heq
    cases heq
    rfl
  · rename_i heq
    rw [h] at heq
    cases heq

/-- A mark is neither a blank nor part of a number. -/
theorem mark_plain {c : Char} {t : Token} (h : mark? c = some t) :
    isSpace c = false ∧ c.isDigit = false ∧ c ≠ '.' ∧ c ≠ 'e' ∧ c ≠ 'E' := by
  unfold mark? at h
  split at h <;> first | decide | cases h

/-- A mark does not continue a number. -/
theorem stops_mark {c : Char} {t : Token} (h : mark? c = some t) (cs : List Char) :
    Stops (c :: cs) := by
  obtain ⟨-, hdigit, hpoint, he, hE⟩ := mark_plain h
  exact stops_cons hdigit hpoint he hE cs

theorem spells_nil : Spells [] [] := by
  intro rest _
  rw [List.nil_append]
  cases tokens? rest <;> rfl

/-- A mark in front. -/
theorem Spells.mark {c : Char} {t : Token} (h : mark? c = some t) {cs : List Char}
    {ts : List Token} (hcs : Spells cs ts) : Spells (c :: cs) (t :: ts) := by
  intro rest hrest
  have hnext : next? (c :: (cs ++ rest)) = some (t, cs ++ rest) := by rw [next?, h]
  rw [List.cons_append, tokens_of_next (mark_plain h).1 hnext, hcs rest hrest, Option.map_map]
  rfl

/-- One text behind another one, which a mark follows. -/
theorem Spells.append {cs : List Char} {ts : List Token} (h : Spells cs ts) {c : Char} {t : Token}
    (hc : mark? c = some t) {ds : List Char} {us : List Token} (hds : Spells (c :: ds) us) :
    Spells (cs ++ c :: ds) (ts ++ us) := by
  intro rest hrest
  have hfirst := h (c :: ds ++ rest) (stops_mark hc (ds ++ rest))
  rw [List.append_assoc, hfirst, hds rest hrest, Option.map_map]
  cases tokens? rest <;> simp

/-- A string is one token. -/
theorem spells_quote (s : String) : Spells (quote s) [.text (some s)] := by
  intro rest _
  have hnext : next? ('"' :: (s.toList.flatMap escape ++ '"' :: rest)) =
      some (.text (some s), rest) := by
    have hmark : mark? '"' = none := rfl
    rw [next?, hmark]
    simp [takeText_quote]
  have htext : quote s ++ rest = '"' :: (s.toList.flatMap escape ++ '"' :: rest) := by
    simp [quote]
  rw [htext, tokens_of_next (by decide) hnext]
  rfl

/-- A number is one token. -/
theorem spells_of_denotes {cs : List Char} {v : Json} (h : Denotes cs v) :
    Spells cs [.leaf v] := by
  intro rest hrest
  obtain ⟨n, hsplit, hvalue⟩ := h.split_append hrest
  obtain ⟨c, tail, heq, hc⟩ := head_of_split hsplit
  obtain ⟨hspace, hnumber⟩ := next_of_number hc tail
  have hnext : next? (c :: tail) = some (.leaf v, rest) := by
    rw [hnumber, ← heq, hsplit, ← hvalue]
    rfl
  rw [heq, tokens_of_next hspace hnext]
  rfl

/-- A word is one token. -/
theorem spells_of_word {c : Char} {cs : List Char} {v : Json} (hc : isSpace c = false)
    (h : ∀ rest, next? (c :: (cs ++ rest)) = some (.leaf v, rest)) : Spells (c :: cs) [.leaf v] := by
  intro rest _
  rw [List.cons_append, tokens_of_next hc (h rest)]
  rfl

mutual

/-- **A value is cut into its tokens.** -/
theorem spells_chars (v : Json) (h : v.Readable) : Spells v.chars v.tokens := by
  cases v with
  | null => exact spells_of_word (c := 'n') (by decide) fun rest => rfl
  | bool b =>
      cases b with
      | true => exact spells_of_word (c := 't') (by decide) fun rest => rfl
      | false => exact spells_of_word (c := 'f') (by decide) fun rest => rfl
  | int n => exact spells_of_denotes (denotes_int h.1 h.2)
  | real x => exact spells_of_denotes (denotes_of_readsBack h)
  | string s => exact spells_quote s
  | array vs =>
      exact .mark rfl ((spells_charsOfItems vs h).append (c := ']') rfl (.mark rfl spells_nil))
  | object fs =>
      exact .mark rfl ((spells_charsOfFields fs h).append (c := '}') rfl (.mark rfl spells_nil))
  | broken => cases h

theorem spells_charsOfItems (vs : List Json) (h : ReadableItems vs) :
    Spells (charsOfItems vs) (tokensOfItems vs) := by
  match vs with
  | [] => exact spells_nil
  | [v] => exact spells_chars v h.1
  | v :: w :: vs =>
      have hrest := spells_charsOfItems (w :: vs) h.2
      exact (spells_chars v h.1).append (c := ',') rfl (.mark rfl hrest)

theorem spells_charsOfFields (fs : List (String × Json)) (h : ReadableFields fs) :
    Spells (charsOfFields fs) (tokensOfFields fs) := by
  match fs with
  | [] => exact spells_nil
  | [(k, v)] => exact (spells_quote k).append (c := ':') rfl (.mark rfl (spells_chars v h.1))
  | (k, v) :: f :: fs =>
      have hrest := spells_charsOfFields (f :: fs) h.2
      have hvalue := (spells_chars v h.1).append (c := ',') rfl (.mark rfl hrest)
      exact (spells_quote k).append (c := ':') rfl (.mark rfl hvalue)

end

/-! ### The pass over the tokens -/

theorem run_cons (place : Place × List Frame) (t : Token) (ts : List Token) :
    run place (t :: ts) = (step place t).bind (run · ts) := rfl

/-- The fields of an object with their keys as they were read. -/
def keyed (fs : List (String × Json)) : List (Option String × Json) :=
  fs.map fun f => (some f.1, f.2)

theorem ofFields_keyed (fs : List (String × Json)) : ofFields (keyed fs) = object fs := by
  have hkeys : ((keyed fs).mapM fun f => f.1.map fun k => (k, f.2)) = some fs := by
    induction fs with
    | nil => rfl
    | cons f fs ih =>
        have hhead : keyed (f :: fs) = (some f.1, f.2) :: keyed fs := rfl
        rw [hhead, List.mapM_cons, ih]
        rfl
  rw [ofFields, hkeys]

/-- The first item of an array starts like any other value. -/
theorem run_firstItem (v : Json) (done : List Json) (stack : List Frame) (ts : List Token) :
    run (.firstItem, .items done :: stack) (v.tokens ++ ts) =
      run (.value, .items done :: stack) (v.tokens ++ ts) := by
  cases v <;> rfl

/-- The tokens of items start with those of the first item. -/
theorem tokensOfItems_cons (v : Json) (vs : List Json) :
    ∃ ts, tokensOfItems (v :: vs) = v.tokens ++ ts := by
  cases vs with
  | nil => exact ⟨[], (List.append_nil _).symm⟩
  | cons w vs => exact ⟨.comma :: tokensOfItems (w :: vs), rfl⟩

mutual

/-- **The pass over the tokens of a value comes to the value**, whatever is open around it. -/
theorem run_tokens (v : Json) (h : v.Readable) (stack : List Frame) (ts : List Token) :
    run (.value, stack) (v.tokens ++ ts) = run (.after v, stack) ts := by
  cases v with
  | array vs =>
      have hopen : (array vs).tokens ++ ts =
          .openArray :: (tokensOfItems vs ++ .closeArray :: ts) := by simp [tokens]
      rw [hopen, run_cons]
      cases vs with
      | nil => rfl
      | cons v vs =>
          have hitems := run_tokensOfItems (v :: vs) h (by simp) [] stack ts
          obtain ⟨us, hus⟩ := tokensOfItems_cons v vs
          rw [hus, List.append_assoc] at hitems ⊢
          exact (run_firstItem v [] stack _).trans hitems
  | object fs =>
      have hopen : (object fs).tokens ++ ts =
          .openObject :: (tokensOfFields fs ++ .closeObject :: ts) := by simp [tokens]
      rw [hopen, run_cons]
      cases fs with
      | nil => rfl
      | cons f fs =>
          have hfields := run_tokensOfFields (f :: fs) h (by simp) [] stack ts
          rw [List.reverse_nil, List.nil_append, ofFields_keyed] at hfields
          -- The first key is read like any other key.
          have hfirst : run (.firstKey, .fields [] :: stack)
              (tokensOfFields (f :: fs) ++ .closeObject :: ts) =
                run (.nextKey, .fields [] :: stack)
                  (tokensOfFields (f :: fs) ++ .closeObject :: ts) := by
            obtain ⟨k, v⟩ := f
            cases fs <;> rfl
          exact hfirst.trans hfields
  | broken => cases h
  | _ => rfl

/-- The items of an array, one after the other, up to the closing bracket. -/
theorem run_tokensOfItems (vs : List Json) (h : ReadableItems vs) (hne : vs ≠ [])
    (done : List Json) (stack : List Frame) (ts : List Token) :
    run (.value, .items done :: stack) (tokensOfItems vs ++ .closeArray :: ts) =
      run (.after (array (done.reverse ++ vs)), stack) ts := by
  have hclose : ∀ w, step (.after w, .items done :: stack) .closeArray =
      some (.after (array (done.reverse ++ [w])), stack) := by
    intro w
    rw [← List.reverse_cons]
    rfl
  match vs with
  | [] => exact absurd rfl hne
  | [v] =>
      rw [tokensOfItems, run_tokens v h.1, run_cons, hclose]
      rfl
  | v :: w :: vs =>
      have hrest := run_tokensOfItems (w :: vs) h.2 (by simp) (v :: done) stack ts
      rw [List.reverse_cons, List.append_assoc] at hrest
      rw [tokensOfItems, List.append_assoc, run_tokens v h.1, List.cons_append, run_cons]
      exact hrest

/-- The fields of an object, one after the other, up to the closing brace. -/
theorem run_tokensOfFields (fs : List (String × Json)) (h : ReadableFields fs) (hne : fs ≠ [])
    (done : List (Option String × Json)) (stack : List Frame) (ts : List Token) :
    run (.nextKey, .fields done :: stack) (tokensOfFields fs ++ .closeObject :: ts) =
      run (.after (ofFields (done.reverse ++ keyed fs)), stack) ts := by
  have hclose : ∀ k w, step (.after w, .field done k :: stack) .closeObject =
      some (.after (ofFields (done.reverse ++ [(k, w)])), stack) := by
    intro k w
    rw [← List.reverse_cons]
    rfl
  match fs with
  | [] => exact absurd rfl hne
  | [(k, v)] =>
      have hvalue := run_tokens v h.1 (.field done (some k) :: stack) (.closeObject :: ts)
      rw [run_cons, hclose] at hvalue
      exact hvalue
  | (k, v) :: g :: fs =>
      have hrest := run_tokensOfFields (g :: fs) h.2 (by simp) ((some k, v) :: done) stack ts
      rw [List.reverse_cons, List.append_assoc] at hrest
      have hvalue := run_tokens v h.1 (.field done (some k) :: stack)
        (.comma :: (tokensOfFields (g :: fs) ++ .closeObject :: ts))
      have htext : tokensOfFields ((k, v) :: g :: fs) ++ .closeObject :: ts =
          .text (some k) :: .colon ::
            (v.tokens ++ .comma :: (tokensOfFields (g :: fs) ++ .closeObject :: ts)) := by
        simp [tokensOfFields]
      rw [htext]
      exact hvalue.trans hrest

end

/-- **A value is read back from its compact form.** -/
theorem read_render {v : Json} (h : v.Readable) : read? v.render = some v := by
  have hchars := spells_chars v h [] stops_nil
  have hend : tokens? [] = some [] := by rw [tokens?]
  rw [List.append_nil, hend, Option.map_some, List.append_nil] at hchars
  have hrun := run_tokens v h [] []
  rw [List.append_nil] at hrun
  have hpass : (tokens? v.render.toList).bind (run (.value, [])) = some (.after v, []) := by
    rw [render, String.toList_ofList, hchars, Option.bind_some, hrun]
    rfl
  rw [read?, hpass]

/-- A value that is not nested too deeply is also read back strictly. -/
theorem readStrict_render {v : Json} (h : v.Readable) (hdepth : v.depth ≤ nestingLimit) :
    readStrict? v.render = some v :=
  readStrict_eq_some_iff.mpr ⟨read_render h, sound_of_readable v h, hdepth⟩

end QueryTyping.Json
