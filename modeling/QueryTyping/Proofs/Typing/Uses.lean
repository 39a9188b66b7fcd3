import QueryTyping.Proofs.Expr.FreeNames
import QueryTyping.Proofs.Typing.Resolution

/-!
# Names that are read and symbols that are bound

Which names an expression reads can be told from the tree, by its free references.  What its
references are bound to is found out in the state, by the scopes.  The two agree: a free reference
is bound to the symbol of its name in the surroundings, and any other one to a filter of the tree,
whose id is an id of the tree.  So a symbol of the surroundings is bound somewhere in the tree if
and only if its name is read.

Main statements: `reference_of_dependency` finds the reference to a name that is read,
`dependency_of_binding` says which name is read by a reference that is bound outside, and
`mem_dependencies_iff_bound` puts both together.
-/

namespace QueryTyping

/-- A reference is free where it stands outside of all filters that bind its name. -/
theorem Place.freeReference_eq_some {pl : Place} {n : Node} {x : String} :
    pl.freeReference? = some (n, x) ↔ pl.expr = .reference n x ∧ pl.filter? x = none := by
  obtain ⟨e, around⟩ := pl
  have hnone : Place.filter? ⟨e, around⟩ x = none ↔ around.any (·.bound.name == x) = false := by
    simp [filter?]
  rw [hnone]
  cases e with
  | reference m y =>
      rw [freeReference?]
      dsimp only
      cases hany : around.any (·.bound.name == y) with
      | true =>
          constructor
          · intro h
            cases h
          · rintro ⟨⟨rfl, rfl⟩, hother⟩
            rw [hany] at hother
            cases hother
      | false =>
          constructor
          · rintro ⟨rfl, rfl⟩
            exact ⟨rfl, hany⟩
          · rintro ⟨⟨rfl, rfl⟩, -⟩
            rfl
  | _ =>
      constructor
      · intro h
        cases h
      · rintro ⟨h, -⟩
        cases h

namespace Expr

variable {e : Expr} {s : State} {x : String}

/-- A node of a tree stands at some place of it. -/
theorem mem_nodes_iff {c : Expr} : c ∈ e.nodes ↔ ∃ pl ∈ e.places [], pl.expr = c := by
  rw [← map_expr_places e [], List.mem_map]

/-- The ids of the names that are bound around a place are ids of the tree. -/
theorem bound_of_mem_places {pl : Place} (h : pl ∈ e.places []) {f : Filter} (hf : f ∈ pl.around) :
    f.bound.id ∈ e.ids := by
  induction e using children_induction generalizing pl with
  | node e ih =>
      rcases mem_places h with rfl | ⟨c, hc, hpl⟩ | ⟨c, hc, inner, hinner, rfl⟩
      · cases hf
      · have hchild := mem_children_of_outside hc
        exact mem_ids_of_mem_children hchild (ih c hchild hpl hf)
      · have hchild := mem_children_of_within hc
        rcases List.mem_append.mp hf with hf | hf
        · exact mem_ids_of_mem_children hchild (ih c hchild hinner hf)
        · have hbound : e.bound? = some f.bound := by
            rw [bound_eq, Option.mem_toList.mp hf, Option.map_some]
          exact mem_ids_of_mem_lowerIds (bound_mem_lowerIds hbound)

/-- A name is read where a reference to it is free. -/
theorem mem_dependencies_iff_place :
    x ∈ e.dependencies ↔
      ∃ n, ∃ pl ∈ e.places [], pl.expr = reference n x ∧ pl.filter? x = none := by
  rw [mem_dependencies_iff, freeNames, List.mem_map]
  constructor
  · rintro ⟨⟨n, y⟩, hfree, rfl⟩
    obtain ⟨pl, hpl, hreference⟩ := List.mem_filterMap.mp hfree
    exact ⟨n, pl, hpl, Place.freeReference_eq_some.mp hreference⟩
  · rintro ⟨n, pl, hpl, hreference⟩
    have hfree := Place.freeReference_eq_some.mpr hreference
    exact ⟨(n, x), List.mem_filterMap.mpr ⟨pl, hpl, hfree⟩, rfl⟩

/-- **From names to bindings.**  If a name is read, some reference to it is bound to its symbol and
specified to be of the types of that. -/
theorem reference_of_dependency (ctx : Context) (hunseen : e.Unseen s)
    (hunbound : ∀ i ∈ e.ids, s.bindingOf? i = none) (hx : x ∈ e.dependencies) {symbol : Symbol}
    (hsymbol : s.symbol? x = some symbol) :
    let after := ((e.check ctx).run s).state
    ∃ n, reference n x ∈ e.nodes ∧ after.bindingOf? n.id = some symbol.binding ∧
      ∃ info, after.info? n.id = some info ∧ info.specified = symbol.types := by
  intro after
  obtain ⟨n, pl, hpl, hexpr, hfree⟩ := mem_dependencies_iff_place.mp hx
  have hmeant : pl.symbol? x s after = some symbol := by
    rw [Place.symbol?, hfree]
    exact hsymbol
  obtain ⟨hbinding, hspecified⟩ := settles e ctx s hunseen hunbound pl hpl n x hexpr
  rw [hmeant] at hbinding
  exact ⟨n, mem_nodes_iff.mpr ⟨pl, hpl, hexpr⟩, hbinding, hspecified symbol hmeant⟩

/-- **From bindings to names.**  If a reference is bound to an id that the tree does not have, then
its name is read, and the id is that of the name in the surroundings. -/
theorem dependency_of_binding (ctx : Context) (hunseen : e.Unseen s)
    (hunbound : ∀ i ∈ e.ids, s.bindingOf? i = none) {n : Node} (hn : reference n x ∈ e.nodes)
    {i : NodeId} (hbinding : ((e.check ctx).run s).state.bindingOf? n.id = some i)
    (hi : i ∉ e.ids) :
    x ∈ e.dependencies ∧ ∃ symbol, s.symbol? x = some symbol ∧ symbol.binding = i := by
  obtain ⟨pl, hpl, hexpr⟩ := mem_nodes_iff.mp hn
  obtain ⟨hmeant, -⟩ := settles e ctx s hunseen hunbound pl hpl n x hexpr
  rw [hbinding, eq_comm, Option.map_eq_some_iff] at hmeant
  obtain ⟨symbol, hsymbol, rfl⟩ := hmeant
  rw [Place.symbol?] at hsymbol
  cases hfilter : pl.filter? x with
  | some f =>
      rw [hfilter] at hsymbol
      cases hsymbol
      exact absurd (bound_of_mem_places hpl (List.mem_of_find?_eq_some hfilter)) hi
  | none =>
      rw [hfilter] at hsymbol
      exact ⟨mem_dependencies_iff_place.mpr ⟨n, pl, hpl, hexpr, hfilter⟩, symbol, hsymbol, rfl⟩

/-- **A name is read if and only if its symbol is bound.**  This is about a symbol whose id is not
one of the tree and that no other name has. -/
theorem mem_dependencies_iff_bound (ctx : Context) (hunseen : e.Unseen s)
    (hunbound : ∀ i ∈ e.ids, s.bindingOf? i = none) {symbol : Symbol}
    (hsymbol : s.symbol? x = some symbol) (hforeign : symbol.binding ∉ e.ids)
    (honly : ∀ y other, s.symbol? y = some other → other.binding = symbol.binding → y = x) :
    x ∈ e.dependencies ↔ ∃ n y, reference n y ∈ e.nodes ∧
      ((e.check ctx).run s).state.bindingOf? n.id = some symbol.binding := by
  constructor
  · intro hx
    obtain ⟨n, hn, hbinding, -⟩ := reference_of_dependency ctx hunseen hunbound hx hsymbol
    exact ⟨n, x, hn, hbinding⟩
  · rintro ⟨n, y, hn, hbinding⟩
    obtain ⟨hy, other, hother, hsame⟩ :=
      dependency_of_binding ctx hunseen hunbound hn hbinding hforeign
    exact honly y other hother hsame ▸ hy

end Expr
end QueryTyping
