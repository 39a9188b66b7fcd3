import QueryTyping.Diagnostic.Json
import QueryTyping.Proofs.Span.Stored

/-!
# Reports are stored without loss

A diagnostic is stored as an object; its file and its notes are left out if there is nothing in them.
A bag is stored as the array of its diagnostics, so its text is that of the diagnostics with commas
between them, in brackets.  All strings are escaped, so whatever stands in them, no mark in a string
is taken for one of the array.

Main statements: `Diagnostic.ofJson_toJson` says that a diagnostic is read back, `charsOfItems_eq`
how the text of an array is put together, and `Bag.stored_without_loss` that a bag is read back from
its text.
-/

namespace QueryTyping

/-- What is read back item by item is read back in a row. -/
theorem mapM_map_of_read {α β : Type} {store : α → β} {read : β → Option α} {items : List α}
    (h : ∀ a ∈ items, read (store a) = some a) : (items.map store).mapM read = some items := by
  induction items with
  | nil => rfl
  | cons a items ih =>
      have hhead := h a List.mem_cons_self
      have hrest := ih fun b hb => h b (List.mem_cons_of_mem _ hb)
      rw [List.map_cons, List.mapM_cons, hhead, hrest]
      rfl

/-- A row is nested as deeply as its items. -/
theorem Json.depthOfItems_map_le {α : Type} {store : α → Json} {depth : Nat}
    (h : ∀ a, (store a).depth ≤ depth) (items : List α) :
    depthOfItems (items.map store) ≤ depth := by
  induction items with
  | nil => exact Nat.zero_le depth
  | cons a items ih => exact Nat.max_le.mpr ⟨h a, ih⟩

theorem Severity.ofName_name (s : Severity) : ofName? s.name = some s := by
  cases s <;> decide

/-- A note is read back. -/
theorem noteOfJson_noteJson (message : String) : noteOfJson? (noteJson message) = some message := by
  simp [noteOfJson?, noteJson, Json.record?, Json.string?]

namespace Diagnostic

/-- The notes as they are stored, if there are any. -/
def storedNotes (d : Diagnostic) : Option Json :=
  if d.notes.isEmpty then none else some (.array (d.notes.map noteJson))

/-- The stored fields of a diagnostic. -/
theorem record_toJson (d : Diagnostic) :
    d.toJson.record? false ["code", "severity", "message", "span", "file", "notes"] =
      some [some (.string d.code), some (.string d.severity.name), some (.string d.message),
        some d.span.toJson, d.file.map .string, d.storedNotes] := by
  cases hfile : d.file <;> cases hnotes : d.notes <;>
    simp [toJson, optionalFields, storedNotes, hfile, hnotes, Json.record?]

/-- Notes that are left out are none. -/
theorem notesOfJson_storedNotes (d : Diagnostic) : notesOfJson? d.storedNotes = some d.notes := by
  unfold storedNotes
  cases hnotes : d.notes with
  | nil => rfl
  | cons message notes => exact mapM_map_of_read fun note _ => noteOfJson_noteJson note

/-- A file that is left out is none. -/
theorem optional_file (file : Option String) :
    Json.optional? Json.string? (file.map .string) = some file := by
  cases file <;> rfl

/-- **A diagnostic is read back from its stored form.** -/
theorem ofJson_toJson {d : Diagnostic} (h : d.span.Fits) : ofJson? d.toJson = some d := by
  have hcase : Json.case? false (.string d.severity.name) = some d.severity.name := rfl
  rw [ofJson?, record_toJson, Option.bind_eq_bind, Option.bind_some]
  dsimp only [Json.string?]
  rw [hcase]
  simp only [Option.bind_eq_bind, Option.bind_some, Severity.ofName_name, h.ofJson_toJson,
    optional_file, notesOfJson_storedNotes]

theorem readable_noteJson (message : String) : (noteJson message).Readable := by
  simp [noteJson]

/-- The stored form of a diagnostic is readable. -/
theorem readable_toJson {d : Diagnostic} (h : d.span.Fits) : d.toJson.Readable := by
  have hspan := h.readable
  have hnotes : ∀ v ∈ d.notes.map noteJson, v.Readable := by
    intro v hv
    obtain ⟨message, -, rfl⟩ := List.mem_map.mp hv
    exact readable_noteJson message
  cases hfile : d.file <;> cases hd : d.notes.isEmpty <;>
    simp [toJson, optionalFields, hfile, hd, hspan] <;> simpa using hnotes

/-- A diagnostic is read back from its text. -/
theorem read_toJson {d : Diagnostic} (h : d.span.Fits) : read? d.toJson.render = some d := by
  rw [read?, Json.read_render (readable_toJson h), Option.bind_some, ofJson_toJson h]

/-- The notes are what is nested most deeply in a diagnostic. -/
theorem depth_toJson_le (d : Diagnostic) : d.toJson.depth ≤ 3 := by
  have hnotes : Json.depthOfItems (d.notes.map noteJson) ≤ 1 :=
    Json.depthOfItems_map_le (fun _ => Nat.le_refl 1) d.notes
  cases hfile : d.file <;> cases hd : d.notes.isEmpty <;>
    simp [toJson, optionalFields, hfile, hd, Json.depth, Json.depthOfFields, Span.depth_toJson] <;>
    omega

end Diagnostic

/-- The text of the items of an array. -/
theorem Json.charsOfItems_eq (vs : List Json) :
    charsOfItems vs = [','].intercalate (vs.map chars) := by
  match vs with
  | [] => rfl
  | [v] => rw [charsOfItems, List.map_singleton, List.intercalate_singleton]
  | v :: w :: vs =>
      have hrest := charsOfItems_eq (w :: vs)
      rw [charsOfItems, hrest, List.map_cons, List.map_cons, List.map_cons,
        List.intercalate_cons_cons]
      simp

/-- The text of an array is put together from the texts of its items. -/
theorem Json.render_array (vs : List Json) :
    (array vs).render = "[" ++ ",".intercalate (vs.map render) ++ "]" := by
  apply String.toList_inj.mp
  have hitems : (vs.map render).map String.toList = vs.map chars := by
    rw [List.map_map]
    exact List.map_congr_left fun v _ => String.toList_ofList
  rw [String.toList_append, String.toList_append, String.toList_intercalate, hitems, render,
    String.toList_ofList, chars, charsOfItems_eq]
  rfl

namespace Bag

theorem readable_toJson {bag : Bag} (h : ∀ d ∈ bag, d.span.Fits) : (toJson bag).Readable := by
  rw [toJson, Json.readable_array]
  intro v hv
  obtain ⟨d, hd, rfl⟩ := List.mem_map.mp hv
  exact Diagnostic.readable_toJson (h d hd)

/-- **A bag is read back from its text.**  The text is that of the diagnostics, with commas between
them and brackets around them.  It is a JSON array, and what its items are read as are the
diagnostics in order; each of them is also read back from its own text. -/
theorem stored_without_loss {bag : Bag} (h : ∀ d ∈ bag, d.span.Fits) :
    let text := "[" ++ ",".intercalate (bag.map fun d => d.toJson.render) ++ "]"
    (toJson bag).render = text ∧
      Json.readStrict? text = some (.array (bag.map Diagnostic.toJson)) ∧
      (bag.map Diagnostic.toJson).mapM Diagnostic.ofJson? = some bag ∧
      ∀ d ∈ bag, Diagnostic.read? d.toJson.render = some d := by
  intro text
  have htext : (toJson bag).render = text := by
    rw [toJson, Json.render_array, List.map_map]
    rfl
  have hdepth : (toJson bag).depth ≤ Json.nestingLimit := by
    have hitems := Json.depthOfItems_map_le Diagnostic.depth_toJson_le bag
    have hbag : (toJson bag).depth = Json.depthOfItems (bag.map Diagnostic.toJson) + 1 := rfl
    rw [hbag, Json.nestingLimit]
    omega
  have hback : (bag.map Diagnostic.toJson).mapM Diagnostic.ofJson? = some bag :=
    mapM_map_of_read fun d hd => Diagnostic.ofJson_toJson (h d hd)
  refine ⟨htext, ?_, hback, fun d hd => Diagnostic.read_toJson (h d hd)⟩
  rw [← htext]
  exact Json.readStrict_render (readable_toJson h) hdepth

/-- Strings that look like the end of an object and of the array, with and without a file and
notes. -/
theorem stored_without_loss_marks :
    let first : Diagnostic := ⟨"E1", .error, "\"\x7d],[\x7b\"", ⟨2, 7, 1, 3⟩, none, []⟩
    let second : Diagnostic :=
      ⟨"", .warning, "\\\n\x00", .unknown, some "a\"b", ["]", "\",\""]⟩
    let text := "[" ++ first.toJson.render ++ "," ++ second.toJson.render ++ "]"
    (∀ d ∈ [first, second], d.span.Fits) ∧
      (toJson [first, second]).render = text ∧
      Json.readStrict? text = some (.array [first.toJson, second.toJson]) ∧
      [first.toJson, second.toJson].mapM Diagnostic.ofJson? = some [first, second] := by
  intro first second text
  have hspans : ∀ d ∈ [first, second], d.span.Fits := by decide
  obtain ⟨htext, hread, hback, -⟩ := stored_without_loss hspans
  have hglued : text =
      "[" ++ ",".intercalate ([first, second].map fun d => d.toJson.render) ++ "]" := by
    simp [text, String.append_assoc]
  rw [hglued]
  exact ⟨hspans, htext, hread, hback⟩

end Bag
end QueryTyping
