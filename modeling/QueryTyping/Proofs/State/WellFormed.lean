import QueryTyping.Proofs.Check.Narrowing

/-!
# What holds of every state

States are made from the initial one by single operations, in any order and with any arguments: ids
may clash, names may be declared again, scopes may be closed more often than they were opened.  An
operation that fails leaves the state as it was.

Three tables and a stack of scopes go together in such a state.  A name finds just the symbols that
were declared under it; the binding of each symbol, also of one that is hidden, is known to be of
no other types than it was declared with; and whatever is recorded about references is about nodes
and bindings that are known.  The key fact is that no operation forgets anything, so what was once
known of a binding is known forever.

Main statements: `WellFormed.carried` takes this over to a state in which more is known,
`WellFormed.perform` through one operation, and `wellFormed_afterAll` says it of every state that
operations lead to, together with how deep its scopes are and how many operations succeeded.
-/

namespace QueryTyping

/-- A single operation on a state. -/
inductive Operation where
  | specify (node : Node) (types : TypeSet)
  | expect (id : NodeId) (possible : TypeSet)
  | declare (binding : Binding) (types : TypeSet)
  | resolve (name : String) (reference : Node)
  | push
  | pop
  deriving DecidableEq

/-- The number of scopes after an operation, from the number before.  The last one stays. -/
def Operation.nesting (depth : Nat) : Operation → Nat
  | push => depth + 1
  | pop => max 1 (depth - 1)
  | specify .. | expect .. | declare .. | resolve .. => depth

/-- Each symbol of the scope is the one that its own name finds, and no other name finds it. -/
def Scope.Named (scope : Scope) : Prop :=
  ∀ x symbol, scope.find? x = some symbol ↔ symbol ∈ scope ∧ symbol.name = x

theorem Scope.named_nil : Scope.Named [] := by
  intro x symbol
  simp [Scope.find?]

/-- A symbol joins a scope that has none of its name. -/
theorem Scope.Named.append {scope : Scope} {symbol : Symbol} (h : scope.Named)
    (hnew : scope.find? symbol.name = none) : Scope.Named (scope ++ [symbol]) := by
  intro x other
  have happend : Scope.find? (scope ++ [symbol]) x =
      (scope.find? x).or (Scope.find? [symbol] x) := List.find?_append
  rw [happend, List.mem_append, List.mem_singleton]
  by_cases hx : symbol.name = x
  · -- the new symbol is the only one of its name
    subst hx
    have hnone : ∀ other ∈ scope, other.name ≠ symbol.name := by
      intro other hother hname
      have hfound := (h symbol.name other).mpr ⟨hother, hname⟩
      rw [hnew] at hfound
      cases hfound
    rw [hnew, Option.none_or]
    constructor
    · intro hfound
      obtain rfl : symbol = other := by simpa [Scope.find?] using hfound
      exact ⟨Or.inr rfl, rfl⟩
    · rintro ⟨hother | rfl, hname⟩
      · exact absurd hname (hnone other hother)
      · simp [Scope.find?]
  · have hskip : Scope.find? [symbol] x = none := by simp [Scope.find?, hx]
    rw [hskip, Option.or_none, h]
    constructor
    · exact fun hother => ⟨Or.inl hother.1, hother.2⟩
    · rintro ⟨hother | rfl, hname⟩
      · exact ⟨hother, hname⟩
      · exact absurd hname hx

namespace State

/-- What an operation gives: a new state, or the problem that it fails with. -/
def perform (s : State) : Operation → Except Problem State
  | .specify n types => s.specify n types
  | .expect i possible => .ok (s.expect i possible)
  | .declare b types => s.declare b types
  | .resolve x n => s.resolve x n
  | .push => .ok s.push
  | .pop => .ok s.pop

/-- The state after an operation.  If it fails, the state stays. -/
def after (s : State) (op : Operation) : State := (Outcome.ofExcept s (s.perform op)).state

/-- The state after operations, one after the other. -/
def afterAll (s : State) (ops : List Operation) : State := ops.foldl after s

/-- The number of operations that succeed, each where the ones before it lead. -/
def successes : State → List Operation → Nat
  | _, [] => 0
  | s, op :: ops => (if (s.perform op).isOk then 1 else 0) + (s.after op).successes ops

/-- How the scopes, the references and what is known about nodes go together. -/
structure WellFormed (s : State) : Prop where
  named : ∀ scope ∈ s.scopes.toList, scope.Named
  bound : ∀ scope ∈ s.scopes.toList, ∀ symbol ∈ scope,
    ∃ info, s.info? symbol.binding = some info ∧ ∀ t ∈ info.specified, t ∈ symbol.types
  references : ∀ i j, s.bindingOf? i = some j → (s.info? i).isSome ∧ (s.info? j).isSome

variable {s t : State} {n : Node} {b : Binding} {types : TypeSet}

/-- A node that was specified is known to be of no other types. -/
theorem info_specify (h : s.specify n types = .ok t) :
    ∃ info, t.info? n.id = some info ∧ ∀ u ∈ info.specified, u ∈ types := by
  obtain ⟨info, rfl, ⟨-, rfl⟩ | ⟨earlier, -, rfl, -⟩⟩ := specify_cases h
  · exact ⟨⟨types, none⟩, by simp [info?, next], fun _ hu => hu⟩
  · refine ⟨{ earlier with specified := earlier.specified.inter types }, by simp [info?, next], ?_⟩
    exact fun _ hu => (TypeSet.mem_inter.mp hu).2

/-- A visible symbol stands in some scope. -/
theorem mem_scope_of_symbol {x : String} {symbol : Symbol} (h : s.symbol? x = some symbol) :
    ∃ scope ∈ s.scopes.toList, symbol ∈ scope := by
  obtain ⟨scope, hscope, hfind⟩ := List.exists_of_findSome?_eq_some h
  exact ⟨scope, hscope, List.mem_of_find?_eq_some hfind⟩

namespace WellFormed

theorem initial : State.initial.WellFormed where
  named scope hscope := by
    obtain rfl := List.mem_singleton.mp hscope
    exact Scope.named_nil
  bound := by simp [State.initial, Scopes.root, Scopes.toList]
  references i j h := by cases h

/-- **Carried over.**  It holds of a state in which at least as much is known, if its scopes are
among the earlier ones or empty and the references are the same. -/
theorem carried (h : s.WellFormed) (hnarrows : s.Narrows t)
    (hscopes : ∀ scope ∈ t.scopes.toList, scope = [] ∨ scope ∈ s.scopes.toList)
    (hreferences : t.references = s.references) : t.WellFormed where
  named scope hscope := by
    rcases hscopes scope hscope with rfl | hearlier
    · exact Scope.named_nil
    · exact h.named scope hearlier
  bound scope hscope symbol hsymbol := by
    rcases hscopes scope hscope with rfl | hearlier
    · cases hsymbol
    · obtain ⟨info, hinfo, hsub⟩ := h.bound scope hearlier symbol hsymbol
      obtain ⟨later, hlater, hwithin⟩ := hnarrows.infos _ info hinfo
      exact ⟨later, hlater, fun u hu => hsub u (hwithin.specified u hu)⟩
  references i j hij := by
    have known : ∀ k, (s.info? k).isSome → (t.info? k).isSome := by
      intro k hk
      obtain ⟨info, hinfo⟩ := Option.isSome_iff_exists.mp hk
      obtain ⟨later, hlater, -⟩ := hnarrows.infos k info hinfo
      exact Option.isSome_iff_exists.mpr ⟨later, hlater⟩
    rw [bindingOf?, hreferences] at hij
    obtain ⟨hi, hj⟩ := h.references i j hij
    exact ⟨known i hi, known j hj⟩

theorem specify (h : s.WellFormed) (hspec : s.specify n types = .ok t) : t.WellFormed := by
  refine h.carried (narrows_specify hspec) (fun scope hscope => Or.inr ?_)
    (references_specify hspec)
  rwa [scopes_specify hspec] at hscope

/-- A symbol joins the innermost scope, which has none of its name.  Its binding is known
already. -/
theorem add (h : s.WellFormed) {symbol : Symbol} (hnew : s.scopes.inner.find? symbol.name = none)
    (hbinding : ∃ info, s.info? symbol.binding = some info ∧
      ∀ t ∈ info.specified, t ∈ symbol.types) :
    { s with scopes := s.scopes.add symbol }.WellFormed where
  named scope hscope := by
    rcases List.mem_cons.mp hscope with rfl | houter
    · exact (h.named _ List.mem_cons_self).append hnew
    · exact h.named scope (List.mem_cons_of_mem _ houter)
  bound scope hscope other hother := by
    rcases List.mem_cons.mp hscope with rfl | houter
    · rcases List.mem_append.mp hother with hother | hother
      · exact h.bound _ List.mem_cons_self other hother
      · obtain rfl := List.mem_singleton.mp hother
        exact hbinding
    · exact h.bound scope (List.mem_cons_of_mem _ houter) other hother
  references := h.references

/-- A reference is recorded between two ids that are known. -/
theorem refer (h : s.WellFormed) {i j : NodeId} (hi : (s.info? i).isSome)
    (hj : (s.info? j).isSome) : { s with references := s.references.set i j }.WellFormed where
  named := h.named
  bound := h.bound
  references k l hkl := by
    rw [bindingOf?, Table.get_set] at hkl
    split at hkl
    · rename_i hk
      obtain rfl := Option.some.inj hkl
      exact ⟨hk ▸ hi, hj⟩
    · exact h.references k l hkl

theorem declare (h : s.WellFormed) (hdeclare : s.declare b types = .ok t) : t.WellFormed := by
  obtain ⟨middle, hnew, hspec, rfl⟩ := declare_cases hdeclare
  have hscopes := scopes_specify hspec
  exact (h.specify hspec).add (by rw [hscopes]; exact hnew) (info_specify hspec)

theorem resolve {x : String} (h : s.WellFormed) (hresolve : s.resolve x n = .ok t) :
    t.WellFormed := by
  obtain ⟨symbol, middle, hsymbol, hspec, rfl⟩ := resolve_cases hresolve
  have hmiddle := h.specify hspec
  obtain ⟨info, hinfo, -⟩ := info_specify hspec
  obtain ⟨scope, hscope, hmem⟩ := mem_scope_of_symbol hsymbol
  obtain ⟨info', hinfo', -⟩ := hmiddle.bound scope (scopes_specify hspec ▸ hscope) symbol hmem
  exact hmiddle.refer (Option.isSome_of_eq_some hinfo) (Option.isSome_of_eq_some hinfo')

/-- **One operation.**  Whatever it succeeds with is a state of the same kind. -/
theorem perform (h : s.WellFormed) {op : Operation} (hop : s.perform op = .ok t) :
    t.WellFormed := by
  cases op with
  | specify n types => exact h.specify hop
  | expect i possible =>
      obtain rfl := Except.ok.inj hop
      exact h.carried (narrows_expect s i possible) (fun _ => Or.inr) rfl
  | declare b types => exact h.declare hop
  | resolve x n => exact h.resolve hop
  | push =>
      obtain rfl := Except.ok.inj hop
      refine h.carried (.of_eq (fun _ => rfl) (Nat.le_succ _)) (fun scope hscope => ?_) rfl
      exact List.mem_cons.mp hscope
  | pop =>
      obtain rfl := Except.ok.inj hop
      refine h.carried (.of_eq (fun _ => rfl) (Nat.le_succ _)) (fun scope hscope => Or.inr ?_) rfl
      cases houter : s.scopes.outer with
      | nil => simpa [State.pop, Scopes.pop, houter] using hscope
      | cons above rest =>
          have hrest : scope ∈ above :: rest := by
            simpa [State.pop, Scopes.pop, houter, Scopes.toList] using hscope
          exact List.mem_cons_of_mem _ (houter ▸ hrest)

theorem after (h : s.WellFormed) (op : Operation) : (s.after op).WellFormed := by
  rw [State.after]
  cases hop : s.perform op with
  | ok t => exact h.perform hop
  | error p => exact h

/-- **Any number of operations**, by one after the other. -/
theorem afterAll (h : s.WellFormed) (ops : List Operation) : (s.afterAll ops).WellFormed := by
  induction ops generalizing s with
  | nil => exact h
  | cons op ops ih => exact ih (h.after op)

end WellFormed

/-- A specification that succeeds counts one revision. -/
theorem revision_specify (h : s.specify n types = .ok t) : t.revision = s.revision + 1 := by
  obtain ⟨info, rfl, -⟩ := specify_cases h
  rfl

/-- An operation that succeeds counts one revision. -/
theorem revision_perform {op : Operation} (hop : s.perform op = .ok t) :
    t.revision = s.revision + 1 := by
  cases op with
  | specify n types => exact revision_specify hop
  | expect i possible =>
      obtain rfl := Except.ok.inj hop
      exact revision_expect s i possible
  | declare b types =>
      obtain ⟨middle, -, hspec, rfl⟩ := declare_cases hop
      have hmiddle : middle.revision = s.revision + 1 := revision_specify hspec
      exact hmiddle
  | resolve x n =>
      obtain ⟨symbol, middle, -, hspec, rfl⟩ := resolve_cases hop
      have hmiddle : middle.revision = s.revision + 1 := revision_specify hspec
      exact hmiddle
  | push =>
      obtain rfl := Except.ok.inj hop
      exact revision_push s
  | pop =>
      obtain rfl := Except.ok.inj hop
      exact revision_pop s

/-- **Revisions count successes.** -/
theorem revision_afterAll (s : State) (ops : List Operation) :
    (s.afterAll ops).revision = s.revision + s.successes ops := by
  induction ops generalizing s with
  | nil => rfl
  | cons op ops ih =>
      rw [afterAll, List.foldl_cons, successes]
      refine (ih (s.after op)).trans ?_
      rw [after]
      cases hop : s.perform op with
      | ok t =>
          have hrevision := revision_perform hop
          simp only [Outcome.ofExcept, hrevision, Except.isOk, Except.toBool, if_true]
          omega
      | error p => simp [Outcome.ofExcept, Except.isOk, Except.toBool]

/-- Only opening and closing change the number of scopes, and neither of them fails. -/
theorem depth_after (s : State) (op : Operation) :
    (s.after op).scopes.depth = op.nesting s.scopes.depth := by
  cases op with
  | expect i possible => rfl
  | push => rfl
  | pop =>
      change s.scopes.pop.depth = max 1 (s.scopes.depth - 1)
      unfold Scopes.pop
      cases houter : s.scopes.outer with
      | nil => simp [Scopes.depth, houter]
      | cons above rest => simp [Scopes.depth, houter]
  | specify n types =>
      change (Outcome.ofExcept s (s.specify n types)).state.scopes.depth = s.scopes.depth
      cases hspec : s.specify n types with
      | ok t => exact congrArg Scopes.depth (scopes_specify hspec)
      | error p => rfl
  | declare b types =>
      change (Outcome.ofExcept s (s.declare b types)).state.scopes.depth = s.scopes.depth
      cases hdeclare : s.declare b types with
      | ok t => simp [Outcome.ofExcept, Scopes.depth, outer_declare hdeclare]
      | error p => rfl
  | resolve x n =>
      change (Outcome.ofExcept s (s.resolve x n)).state.scopes.depth = s.scopes.depth
      cases hresolve : s.resolve x n with
      | ok t => exact congrArg Scopes.depth (scopes_resolve hresolve)
      | error p => rfl

/-- The number of scopes is read off the operations alone. -/
theorem depth_afterAll (s : State) (ops : List Operation) :
    (s.afterAll ops).scopes.depth = ops.foldl Operation.nesting s.scopes.depth := by
  induction ops generalizing s with
  | nil => rfl
  | cons op ops ih =>
      rw [List.foldl_cons, ← depth_after s op]
      exact ih (s.after op)

/-- **What operations keep, and what they count.**  Any operations lead from the initial state to a
well-formed one.  There is always a scope: as many as were opened and not closed again, besides the
root, which closing leaves.  The revision is the number of operations that succeeded. -/
theorem wellFormed_afterAll (ops : List Operation) :
    let s := State.initial.afterAll ops
    s.WellFormed ∧
      (1 ≤ s.scopes.depth ∧ s.scopes.depth = ops.foldl Operation.nesting 1) ∧
      s.revision = State.initial.successes ops := by
  intro s
  have hrevision := revision_afterAll State.initial ops
  refine ⟨WellFormed.initial.afterAll ops, ⟨?_, depth_afterAll State.initial ops⟩, ?_⟩
  · exact Nat.succ_pos s.scopes.outer.length
  · rwa [State.initial, Nat.zero_add] at hrevision

/-- A declaration whose binding is known to be of other types fails and does not count, and the root
stays when it is closed. -/
example :
    let s := State.initial.afterAll
      [.specify ⟨1, .unknown⟩ (.exact .string), .declare ⟨1, .unknown, "x"⟩ (.exact .integer), .pop,
        .push, .resolve "x" ⟨2, .unknown⟩]
    (s.symbol? "x").isNone = true ∧ s.scopes.depth = 2 ∧ s.revision = 3 := by
  intro s
  decide

end State
end QueryTyping
