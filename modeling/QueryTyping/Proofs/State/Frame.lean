import QueryTyping.Check.Overload

/-!
# What an operation leaves alone

Each operation on a state writes to few places.  Specifying and expecting change what is known
about one node, resolving also records a reference, and none of them changes a scope.  An
expectation keeps what its node was specified to be.  Narrowing signatures writes only to the
arguments, and an invocation to its arguments and to itself.

Main statements: `specify_cases` and `resolve_cases` say all that the two operations can do,
`specify_of_unknown` that nothing goes wrong at a node nothing is known about, and the `frame`
lemmas what stays.
-/

namespace QueryTyping

/-- What is known about a node, and if nothing is, that it may be anything. -/
def TypeInfo.known (info : Option TypeInfo) : TypeInfo := info.getD ⟨.all, none⟩

namespace State

variable {s t : State} {n : Node} {i : NodeId} {types possible : TypeSet}

/-- What is specified about a node is kept, whatever is expected of it. -/
def KeepsSpecified (s t : State) (i : NodeId) : Prop :=
  ∀ info, s.info? i = some info →
    ∃ later, t.info? i = some later ∧ later.specified = info.specified

theorem KeepsSpecified.of_info_eq (h : t.info? i = s.info? i) : s.KeepsSpecified t i :=
  fun info hinfo => ⟨info, h.trans hinfo, rfl⟩

theorem KeepsSpecified.trans {u : State} (hst : s.KeepsSpecified t i)
    (htu : t.KeepsSpecified u i) : s.KeepsSpecified u i := by
  intro info hinfo
  obtain ⟨middle, hmiddle, hsame⟩ := hst info hinfo
  obtain ⟨later, hlater, hsame'⟩ := htu middle hmiddle
  exact ⟨later, hlater, hsame'.trans hsame⟩

/-- A specification that succeeds writes one entry: the given types at an unknown node, and what
they have in common with the earlier ones at a known node. -/
theorem specify_cases (h : s.specify n types = .ok t) :
    ∃ info : TypeInfo,
      t = { s with infos := s.infos.set n.id info }.next ∧
      (s.info? n.id = none ∧ info = ⟨types, none⟩ ∨
        ∃ earlier, s.info? n.id = some earlier ∧
          info = { earlier with specified := earlier.specified.inter types } ∧
          info.specified.isEmpty = false) := by
  unfold specify at h
  cases hinfo : s.info? n.id with
  | none =>
      rw [hinfo] at h
      exact ⟨_, (Except.ok.inj h).symm, Or.inl ⟨rfl, rfl⟩⟩
  | some earlier =>
      rw [hinfo] at h
      dsimp only at h
      split at h
      · cases h
      · rename_i hne
        exact ⟨_, (Except.ok.inj h).symm, Or.inr ⟨earlier, rfl, rfl, by simpa using hne⟩⟩

/-- Nothing can conflict with a node nothing is known about. -/
theorem specify_of_unknown (h : s.info? n.id = none) :
    s.specify n types = .ok { s with infos := s.infos.set n.id ⟨types, none⟩ }.next := by
  rw [specify, h]

/-- A reference that resolves gets the types of its symbol and is recorded. -/
theorem resolve_cases {name : String} (h : s.resolve name n = .ok t) :
    ∃ symbol middle, s.symbol? name = some symbol ∧ s.specify n symbol.types = .ok middle ∧
      t = { middle with references := middle.references.set n.id symbol.binding } := by
  unfold resolve at h
  cases hsymbol : s.symbol? name with
  | none => rw [hsymbol] at h; cases h
  | some symbol =>
      rw [hsymbol] at h
      dsimp only at h
      cases hspec : s.specify n symbol.types with
      | error p => rw [hspec] at h; cases h
      | ok middle =>
          rw [hspec] at h
          exact ⟨symbol, middle, rfl, hspec, (Except.ok.inj h).symm⟩

/-- A declaration that succeeds adds a symbol for a name that the innermost scope did not have. -/
theorem declare_cases {b : Binding} (h : s.declare b types = .ok t) :
    ∃ middle, s.scopes.inner.find? b.name = none ∧ s.specify b.node types = .ok middle ∧
      t = { middle with scopes := middle.scopes.add ⟨b.name, types, b.id, b.span⟩ } := by
  unfold declare at h
  cases hfind : s.scopes.inner.find? b.name with
  | some earlier => rw [hfind] at h; cases h
  | none =>
      rw [hfind] at h
      dsimp only at h
      cases hspec : s.specify b.node types with
      | error p => rw [hspec] at h; cases h
      | ok middle =>
          rw [hspec] at h
          exact ⟨middle, rfl, rfl, (Except.ok.inj h).symm⟩

/-- A name without a meaning has no declaration in the innermost scope. -/
theorem inner_find_of_symbol {x : String} (h : s.symbol? x = none) :
    s.scopes.inner.find? x = none := by
  rw [symbol?, Scopes.find?, Scopes.toList, List.findSome?_cons] at h
  split at h
  · cases h
  · assumption

/-- The state in which one more name is declared. -/
def define (s : State) (b : Binding) (types : TypeSet) : State :=
  { s with
    infos := s.infos.set b.id ⟨types, none⟩
    scopes := s.scopes.add ⟨b.name, types, b.id, b.span⟩ }.next

/-- A declaration does not fail if the name is new to its scope and nothing is known about the id
of the binding. -/
theorem declare_of_unknown {b : Binding} (hscope : s.scopes.inner.find? b.name = none)
    (hinfo : s.info? b.id = none) (types : TypeSet) :
    s.declare b types = .ok (s.define b types) := by
  have hspec : s.specify b.node types =
      .ok { s with infos := s.infos.set b.id ⟨types, none⟩ }.next :=
    specify_of_unknown (n := b.node) hinfo
  rw [declare, hscope]
  dsimp only
  rw [hspec]
  rfl

@[simp] theorem info_define (s : State) (b : Binding) (types : TypeSet) (i : NodeId) :
    (s.define b types).info? i = if i = b.id then some ⟨types, none⟩ else s.info? i := by
  simp [define, info?, next]

/-- The declared name means the new symbol, and every other name what it meant before. -/
theorem symbol_define {b : Binding} (hscope : s.scopes.inner.find? b.name = none)
    (types : TypeSet) (x : String) :
    (s.define b types).symbol? x =
      if x = b.name then some ⟨b.name, types, b.id, b.span⟩ else s.symbol? x :=
  Scopes.find_add hscope x

@[simp] theorem info_next (s : State) (i : NodeId) : s.next.info? i = s.info? i := rfl

@[simp] theorem scopes_next (s : State) : s.next.scopes = s.scopes := rfl

@[simp] theorem info_push (s : State) (i : NodeId) : s.push.info? i = s.info? i := rfl

@[simp] theorem info_pop (s : State) (i : NodeId) : s.pop.info? i = s.info? i := rfl

@[simp] theorem bindingOf_push (s : State) (i : NodeId) : s.push.bindingOf? i = s.bindingOf? i := rfl

@[simp] theorem bindingOf_pop (s : State) (i : NodeId) : s.pop.bindingOf? i = s.bindingOf? i := rfl

@[simp] theorem symbol_push (s : State) (x : String) : s.push.symbol? x = s.symbol? x := rfl

/-- Types are read off the entry alone. -/
theorem types_congr (h : t.info? i = s.info? i) : t.types i = s.types i := by
  rw [types, types, h]

theorem types_eq_known (s : State) (i : NodeId) :
    s.types i = (TypeInfo.known (s.info? i)).actual := by
  unfold types TypeInfo.known
  cases s.info? i <;> rfl

/-! Frames of the single operations -/

theorem info_specify_frame (h : s.specify n types = .ok t) (hi : i ≠ n.id) :
    t.info? i = s.info? i := by
  obtain ⟨info, rfl, -⟩ := specify_cases h
  simp [info?, next, hi]

theorem scopes_specify (h : s.specify n types = .ok t) : t.scopes = s.scopes := by
  obtain ⟨info, rfl, -⟩ := specify_cases h
  rfl

theorem references_specify (h : s.specify n types = .ok t) : t.references = s.references := by
  obtain ⟨info, rfl, -⟩ := specify_cases h
  rfl

theorem info_resolve_frame {name : String} (h : s.resolve name n = .ok t) (hi : i ≠ n.id) :
    t.info? i = s.info? i := by
  obtain ⟨symbol, middle, -, hspec, rfl⟩ := resolve_cases h
  have hmiddle : middle.info? i = s.info? i := info_specify_frame hspec hi
  exact hmiddle

theorem scopes_resolve {name : String} (h : s.resolve name n = .ok t) : t.scopes = s.scopes := by
  obtain ⟨symbol, middle, -, hspec, rfl⟩ := resolve_cases h
  have hmiddle : middle.scopes = s.scopes := scopes_specify hspec
  exact hmiddle

theorem bindingOf_resolve_frame {name : String} (h : s.resolve name n = .ok t) (hi : i ≠ n.id) :
    t.bindingOf? i = s.bindingOf? i := by
  obtain ⟨symbol, middle, -, hspec, rfl⟩ := resolve_cases h
  have hrefs := references_specify hspec
  simp [bindingOf?, hi, hrefs]

theorem info_declare_frame {b : Binding} (h : s.declare b types = .ok t) (hi : i ≠ b.id) :
    t.info? i = s.info? i := by
  obtain ⟨middle, -, hspec, rfl⟩ := declare_cases h
  have hmiddle : middle.info? i = s.info? i := info_specify_frame hspec (n := b.node) hi
  exact hmiddle

theorem references_declare {b : Binding} (h : s.declare b types = .ok t) :
    t.references = s.references := by
  obtain ⟨middle, -, hspec, rfl⟩ := declare_cases h
  have hmiddle : middle.references = s.references := references_specify hspec
  exact hmiddle

theorem outer_declare {b : Binding} (h : s.declare b types = .ok t) :
    t.scopes.outer = s.scopes.outer := by
  obtain ⟨middle, -, hspec, rfl⟩ := declare_cases h
  rw [← scopes_specify hspec]
  rfl

@[simp] theorem info_expect (s : State) (i j : NodeId) (possible : TypeSet) :
    (s.expect i possible).info? j =
      if j = i then some (((s.info? i).getD ⟨.all, none⟩).narrow possible) else s.info? j := by
  simp [expect, info?, next]

theorem keepsSpecified_expect (s : State) (i j : NodeId) (possible : TypeSet) :
    s.KeepsSpecified (s.expect i possible) j := by
  intro info hinfo
  by_cases hj : j = i
  · subst hj
    exact ⟨info.narrow possible, by simp [hinfo], rfl⟩
  · exact ⟨info, by simp [hj, hinfo], rfl⟩

@[simp] theorem state_expectTypes (s : State) (n : Node) (possible : TypeSet)
    (cause : TypeSet → TypeSet → Cause) :
    (s.expectTypes n possible cause).state = s.expect n.id possible := by
  by_cases h : ((s.expect n.id possible).types n.id).isEmpty <;> simp [expectTypes, h]

/-! Frames of narrowing and of invocations -/

/-- Narrowing leaves every node but the arguments alone. -/
theorem info_narrow_frame {ns : List Node} (hi : ∀ n ∈ ns, i ≠ n.id) (alive : List Signature)
    (s : State) : (narrow ns alive s).1.state.info? i = s.info? i := by
  induction ns generalizing alive s with
  | nil => rfl
  | cons n ns ih =>
      cases alive with
      | nil => rfl
      | cons g gs =>
          have hn : i ≠ n.id := hi n List.mem_cons_self
          have hrest := ih fun m hm => hi m (List.mem_cons_of_mem _ hm)
          simp only [narrow]
          rw [hrest]
          simp [hn]

/-- Narrowing keeps what is specified, also about the arguments. -/
theorem keepsSpecified_narrow (ns : List Node) (alive : List Signature) (s : State) (i : NodeId) :
    s.KeepsSpecified (narrow ns alive s).1.state i := by
  induction ns generalizing alive s with
  | nil => exact .of_info_eq rfl
  | cons n ns ih =>
      cases alive with
      | nil => exact .of_info_eq rfl
      | cons g gs =>
          simp only [narrow, state_expectTypes]
          exact (keepsSpecified_expect s n.id i _).trans (ih _ _)

theorem scopes_narrow (ns : List Node) (alive : List Signature) (s : State) :
    (narrow ns alive s).1.state.scopes = s.scopes := by
  induction ns generalizing alive s with
  | nil => rfl
  | cons n ns ih =>
      cases alive with
      | nil => rfl
      | cons g gs => simp only [narrow]; rw [ih]; simp [expect]

theorem references_narrow (ns : List Node) (alive : List Signature) (s : State) :
    (narrow ns alive s).1.state.references = s.references := by
  induction ns generalizing alive s with
  | nil => rfl
  | cons n ns ih =>
      cases alive with
      | nil => rfl
      | cons g gs => simp only [narrow]; rw [ih]; simp [expect, next]

end State
end QueryTyping
