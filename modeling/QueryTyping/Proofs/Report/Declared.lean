import QueryTyping.Proofs.Typing.Verdict
import QueryTyping.Report

/-!
# Declaring the variables of a document

The variables that a document may use are declared before its expressions are checked, each with a
binding of the next fresh id.  No name is declared twice, so this cannot fail, and all that is known
afterwards is about the ids that have been drawn for it.

Main statements: `Declares.declare` is one declaration, and `declareAll_initial` all of them;
`inner_declareAll` says which symbols stand in the scope afterwards, and `eq_of_binding_eq` that
they have ids of their own.
-/

namespace QueryTyping

namespace State

/-- The binding of a declaration has the next id. -/
theorem declareAll_cons {s t : State} {x : String} {types : TypeSet} {next : NodeId}
    (h : s.declare ⟨next, .unknown, x⟩ types = .ok t) (rest : List (String × TypeSet)) :
    s.declareAll ((x, types) :: rest) next = t.declareAll rest (next + 1) := by
  rw [declareAll]
  simp only [fresh, bind, StateT.bind, Option.bind, h]

/-- These names alone are declared, with bindings whose ids start at `first`, and nothing has been
resolved. -/
structure Declares (first : Nat) (decls : List (String × TypeSet)) (s : State) : Prop where
  unknown : ∀ i : Nat, i < first ∨ first + decls.length ≤ i → s.info? i = none
  unbound : ∀ i, s.bindingOf? i = none
  env : ∀ x, s.env x = decls.lookup x
  outer : s.scopes.outer = []

namespace Declares

variable {first : Nat} {decls rest : List (String × TypeSet)} {s : State}

theorem initial (first : Nat) : Declares first [] State.initial :=
  ⟨fun _ _ => rfl, fun _ => rfl, fun _ => rfl, rfl⟩

/-- At the root, a name without a meaning has no declaration. -/
theorem inner_eq_none (h : s.Declares first decls) {x : String} (hx : decls.lookup x = none) :
    s.scopes.inner.find? x = none := by
  have henv : s.env x = none := (h.env x).trans hx
  exact inner_find_of_symbol (Option.map_eq_none_iff.mp henv)

/-- **One declaration.**  A name that is new is declared with the next id. -/
theorem declare (h : s.Declares first decls) {x : String} (hx : decls.lookup x = none)
    (types : TypeSet) :
    ∃ t, s.declare ⟨first + decls.length, .unknown, x⟩ types = .ok t ∧
      t.Declares first (decls ++ [(x, types)]) := by
  have hscope : s.scopes.inner.find? x = none := h.inner_eq_none hx
  have hinfo : s.info? (first + decls.length) = none := h.unknown _ (Or.inr (Nat.le_refl _))
  refine ⟨_, declare_of_unknown hscope hinfo types, ?_, h.unbound, ?_, h.outer⟩
  · intro i hi
    rw [List.length_append, List.length_singleton] at hi
    have hne : i ≠ first + decls.length := by omega
    rw [info_define, if_neg hne]
    exact h.unknown i (by omega)
  · intro y
    rw [State.env, symbol_define hscope, List.lookup_append, ← h.env y]
    by_cases hy : y = x
    · subst hy
      rw [if_pos rfl, h.env y, hx]
      simp
    · have hne : (y == x) = false := by simp [hy]
      rw [if_neg hy, List.lookup_cons, hne]
      simp [State.env]

/-- The declarations go on. -/
theorem declareAll (h : s.Declares first decls)
    (hnodup : ((decls ++ rest).map (·.1)).Nodup) :
    ∃ t, s.declareAll rest (first + decls.length) =
        some (.ok t, first + (decls ++ rest).length) ∧ t.Declares first (decls ++ rest) := by
  induction rest generalizing s decls with
  | nil => exact ⟨s, by rw [List.append_nil]; rfl, by rwa [List.append_nil]⟩
  | cons d rest ih =>
      obtain ⟨x, types⟩ := d
      have hx : decls.lookup x = none := by
        rw [List.lookup_eq_none_iff]
        intro d hd
        rw [List.map_append, List.nodup_append] at hnodup
        have hne := hnodup.2.2 d.1 (List.mem_map_of_mem hd) x (by simp)
        simpa using Ne.symm hne
      obtain ⟨middle, hmiddle, hdeclares⟩ := h.declare hx types
      have happend : decls ++ (x, types) :: rest = decls ++ [(x, types)] ++ rest := by simp
      rw [happend] at hnodup ⊢
      obtain ⟨t, ht, hall⟩ := ih hdeclares hnodup
      refine ⟨t, ?_, hall⟩
      rw [List.length_append, List.length_singleton, ← Nat.add_assoc] at ht
      rw [declareAll_cons hmiddle, ht]

end Declares

/-- **All variables are declared**, whatever id their bindings start at. -/
theorem declareAll_initial {decls : List (String × TypeSet)} (hnodup : (decls.map (·.1)).Nodup)
    (first : Nat) :
    ∃ base, State.initial.declareAll decls first = some (.ok base, first + decls.length) ∧
      base.Declares first decls :=
  (Declares.initial first).declareAll hnodup

/-- The symbols of declarations whose bindings have the ids from `first` on. -/
def symbolsFrom (first : Nat) : List (String × TypeSet) → List Symbol
  | [] => []
  | (x, types) :: rest => ⟨x, types, first, .unknown⟩ :: symbolsFrom (first + 1) rest

theorem names_symbolsFrom (first : Nat) (decls : List (String × TypeSet)) :
    (symbolsFrom first decls).map Symbol.name = decls.map (·.1) := by
  induction decls generalizing first with
  | nil => rfl
  | cons decl decls ih => rw [symbolsFrom, List.map_cons, List.map_cons, ih]

/-- **The scope of declarations.**  Their symbols stand at the end of the innermost scope, in the
same order. -/
theorem inner_declareAll {decls : List (String × TypeSet)} {first last : Nat} {s t : State}
    (h : s.declareAll decls first = some (.ok t, last)) :
    t.scopes.inner = s.scopes.inner ++ symbolsFrom first decls := by
  induction decls generalizing s first with
  | nil =>
      cases h
      exact (List.append_nil _).symm
  | cons decl decls ih =>
      obtain ⟨x, types⟩ := decl
      cases hdeclare : s.declare ⟨first, .unknown, x⟩ types with
      | error p =>
          rw [declareAll] at h
          simp only [fresh, bind, StateT.bind, Option.bind, hdeclare] at h
          cases h
      | ok middle =>
          obtain ⟨specified, -, hspec, rfl⟩ := declare_cases hdeclare
          rw [declareAll_cons hdeclare] at h
          have hscopes : specified.scopes = s.scopes := scopes_specify hspec
          rw [ih h, symbolsFrom]
          simp [hscopes, Scopes.add]

theorem binding_mem_range {decls : List (String × TypeSet)} {first : Nat} {symbol : Symbol}
    (h : symbol ∈ symbolsFrom first decls) :
    first ≤ symbol.binding ∧ symbol.binding < first + decls.length := by
  induction decls generalizing first with
  | nil => cases h
  | cons decl decls ih =>
      rw [List.length_cons]
      rcases List.mem_cons.mp h with rfl | h
      · exact ⟨Nat.le_refl _, Nat.lt_add_of_pos_right (Nat.succ_pos _)⟩
      · obtain ⟨hle, hlt⟩ := ih h
        rw [Nat.add_assoc, Nat.add_comm 1] at hlt
        exact ⟨Nat.le_of_succ_le hle, hlt⟩

/-- No two symbols have the same binding. -/
theorem eq_of_binding_eq {decls : List (String × TypeSet)} {first : Nat} {symbol other : Symbol}
    (h : symbol ∈ symbolsFrom first decls) (hother : other ∈ symbolsFrom first decls)
    (hbinding : other.binding = symbol.binding) : other = symbol := by
  induction decls generalizing first with
  | nil => cases h
  | cons decl decls ih =>
      rcases List.mem_cons.mp h with rfl | h <;> rcases List.mem_cons.mp hother with rfl | hother
      · rfl
      · have hrange := (binding_mem_range hother).1
        rw [hbinding] at hrange
        exact absurd hrange (Nat.not_succ_le_self first)
      · have hrange := (binding_mem_range h).1
        rw [← hbinding] at hrange
        exact absurd hrange (Nat.not_succ_le_self first)
      · exact ih h hother

/-- Where no scope is around, a name means a symbol of the one scope that there is. -/
theorem mem_inner_of_symbol {s : State} (houter : s.scopes.outer = []) {x : String}
    {symbol : Symbol} (h : s.symbol? x = some symbol) :
    symbol ∈ s.scopes.inner ∧ symbol.name = x := by
  have hfind : List.find? (·.name == x) s.scopes.inner = some symbol := by
    simpa [symbol?, Scopes.find?, Scopes.toList, houter, Scope.find?] using h
  exact ⟨List.mem_of_find?_eq_some hfind, by simpa using List.find?_some hfind⟩

end State

theorem Variables.names_declarations (vars : Variables) :
    vars.declarations.map (·.1) = vars.keys := by
  rw [declarations, List.map_map]
  rfl

theorem Variables.nodup_declarations (vars : Variables) :
    (vars.declarations.map (·.1)).Nodup := by
  rw [names_declarations]
  exact vars.keys_increasing.nodup

theorem Variables.lookup_declarations (vars : Variables) (x : String) :
    vars.declarations.lookup x = (vars.get? x).map Declared.types := by
  rw [declarations, NameMap.get?]
  induction vars.entries with
  | nil => rfl
  | cons entry entries ih =>
      obtain ⟨y, t⟩ := entry
      rw [List.map_cons, List.lookup_cons, List.find?_cons]
      by_cases hxy : y = x
      · subst hxy
        simp
      · have hyx : (y == x) = false := by simpa using hxy
        have hxy' : (x == y) = false := by simpa using Ne.symm hxy
        rw [hyx, hxy']
        exact ih

end QueryTyping
