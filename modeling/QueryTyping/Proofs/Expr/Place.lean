import QueryTyping.Expr.Reads
import QueryTyping.Proofs.Expr.Ids

/-!
# Places in a tree

A filter binds a name in its predicate and its projection, but not in its list.  A place is a node
of a tree together with the filters around it whose binding it stands in, the innermost first.  A
reference is free where none of them binds its name.

Main statements: `places_eq` gives the places of a tree from those of its children,
`map_expr_places` says that every node has one place, in the order of the nodes, and
`freeReferences_eq` what is free in a tree, from the root down.
-/

namespace QueryTyping

/-- A filter as it is seen from inside its binding: the name it binds, and the list whose elements
the name stands for. -/
structure Filter where
  bound : Binding
  source : Node
  deriving DecidableEq

/-- A node with the filters whose binding it stands in, the innermost first. -/
structure Place where
  expr : Expr
  around : List Filter

namespace Expr

/-- The filter that a node is. -/
def filter? : Expr → Option Filter
  | comprehension _ b s _ _ | quantified _ _ b s _ => some ⟨b, s.node⟩
  | _ => none

/-- The children that stand outside of the binding of a node. -/
def outside : Expr → List Expr
  | comprehension _ _ s _ _ | quantified _ _ _ s _ => [s]
  | e => e.children

/-- The children that stand in the binding of a node. -/
def within : Expr → List Expr
  | comprehension _ _ _ p q => p.toList ++ q.toList
  | quantified _ _ _ _ p => p.toList
  | _ => []

theorem children_eq (e : Expr) : e.children = e.outside ++ e.within := by
  cases e <;> simp [children, outside, within]

theorem mem_children_of_outside {e c : Expr} (h : c ∈ e.outside) : c ∈ e.children := by
  rw [children_eq]
  exact List.mem_append_left _ h

theorem mem_children_of_within {e c : Expr} (h : c ∈ e.within) : c ∈ e.children := by
  rw [children_eq]
  exact List.mem_append_right _ h

theorem bound_eq (e : Expr) : e.bound? = e.filter?.map Filter.bound := by
  cases e <;> rfl

end Expr

mutual

/-- The places of a tree that stands in the binding of some filters. -/
def Expr.places : Expr → List Filter → List Place
  | .literal n v, around => [⟨.literal n v, around⟩]
  | .reference n x, around => [⟨.reference n x, around⟩]
  | .parameter n x, around => [⟨.parameter n x, around⟩]
  | .countStar n, around => [⟨.countStar n, around⟩]
  | .list n es, around => ⟨.list n es, around⟩ :: placesAll es around
  | .property n m k, around => ⟨.property n m k, around⟩ :: m.places around
  | .unary n op e, around => ⟨.unary n op e, around⟩ :: e.places around
  | .binary n op l r, around => ⟨.binary n op l r, around⟩ :: (l.places around ++ r.places around)
  | .call n f d es, around => ⟨.call n f d es, around⟩ :: placesAll es around
  | .comprehension n b s p q, around =>
      ⟨.comprehension n b s p q, around⟩ ::
        (s.places around ++
          (placesOption p (⟨b, s.node⟩ :: around) ++ placesOption q (⟨b, s.node⟩ :: around)))
  | .quantified n k b s p, around =>
      ⟨.quantified n k b s p, around⟩ ::
        (s.places around ++ placesOption p (⟨b, s.node⟩ :: around))

/-- The places of trees, one after the other. -/
def placesAll : List Expr → List Filter → List Place
  | [], _ => []
  | e :: es, around => e.places around ++ placesAll es around

/-- The places of a tree that may be missing. -/
def placesOption : Option Expr → List Filter → List Place
  | none, _ => []
  | some e, around => e.places around

end

theorem placesAll_eq (es : List Expr) (around : List Filter) :
    placesAll es around = es.flatMap (·.places around) := by
  induction es with
  | nil => rw [placesAll, List.flatMap_nil]
  | cons e es ih => rw [placesAll, ih, List.flatMap_cons]

theorem placesOption_eq (p : Option Expr) (around : List Filter) :
    placesOption p around = p.toList.flatMap (·.places around) := by
  cases p <;> simp [placesOption]

/-- The name of a reference that no filter around it binds, with its node. -/
def Place.freeReference? (pl : Place) : Option (Node × String) :=
  match pl.expr with
  | .reference n x => if pl.around.any (·.bound.name == x) then none else some (n, x)
  | _ => none

/-- The place seen from further outside. -/
def Place.inside (around : List Filter) (pl : Place) : Place := ⟨pl.expr, pl.around ++ around⟩

namespace Expr

/-- **The places of a tree.**  The children in the binding of a filter see the filter. -/
theorem places_eq (e : Expr) (around : List Filter) :
    e.places around =
      ⟨e, around⟩ ::
        (e.outside.flatMap (·.places around) ++
          e.within.flatMap (·.places (e.filter?.toList ++ around))) := by
  cases e <;> rw [places] <;>
    simp [outside, within, children, filter?, placesAll_eq, placesOption_eq]

/-- The places of a tree, each seen from the surroundings of the tree. -/
theorem places_eq_map (e : Expr) (around : List Filter) :
    e.places around = (e.places []).map (Place.inside around) := by
  induction e using children_induction generalizing around with
  | node e ih =>
      have hout : e.outside.flatMap (·.places around) =
          e.outside.flatMap fun c => (c.places []).map (Place.inside around) := by
        exact List.flatMap_congr fun c hc => ih c (mem_children_of_outside hc) around
      have hin : e.within.flatMap (·.places (e.filter?.toList ++ around)) =
          e.within.flatMap fun c => (c.places e.filter?.toList).map (Place.inside around) := by
        refine List.flatMap_congr fun c hc => ?_
        have hchild := mem_children_of_within hc
        rw [ih c hchild (e.filter?.toList ++ around), ih c hchild e.filter?.toList, List.map_map]
        exact List.map_congr_left fun pl _ => by simp [Place.inside]
      rw [places_eq e around, places_eq e [], hout, hin]
      simp [Place.inside, List.map_flatMap]

/-- Every node has one place, and the places stand in the order of the nodes. -/
theorem map_expr_places (e : Expr) (around : List Filter) :
    (e.places around).map Place.expr = e.nodes := by
  induction e using children_induction generalizing around with
  | node e ih =>
      have hout : ∀ c ∈ e.outside, (c.places around).map Place.expr = c.nodes := by
        intro c hc
        exact ih c (mem_children_of_outside hc) around
      have hin : ∀ c ∈ e.within,
          (c.places (e.filter?.toList ++ around)).map Place.expr = c.nodes := by
        intro c hc
        exact ih c (mem_children_of_within hc) _
      rw [places_eq, nodes_eq, children_eq]
      simp [List.map_flatMap, List.flatMap_congr hout, List.flatMap_congr hin]

/-- A place of a tree is its root, or a place of a child.  The places of a child that stands in the
binding of the root are seen from outside of it. -/
theorem mem_places {e : Expr} {pl : Place} (h : pl ∈ e.places []) :
    pl = ⟨e, []⟩ ∨ (∃ c ∈ e.outside, pl ∈ c.places []) ∨
      ∃ c ∈ e.within, ∃ inner ∈ c.places [], pl = inner.inside e.filter?.toList := by
  rw [places_eq, List.mem_cons, List.mem_append, List.mem_flatMap, List.mem_flatMap,
    List.append_nil] at h
  rcases h with h | h | ⟨c, hc, h⟩
  · exact Or.inl h
  · exact Or.inr (Or.inl h)
  · rw [places_eq_map] at h
    obtain ⟨inner, hinner, rfl⟩ := List.mem_map.mp h
    exact Or.inr (Or.inr ⟨c, hc, inner, hinner, rfl⟩)

/-- The list of a filter is the child outside of its binding. -/
theorem source_of_filter {e : Expr} {f : Filter} (h : e.filter? = some f) :
    ∃ l ∈ e.outside, f.source = l.node := by
  cases e with
  | comprehension n b l p q => cases h; exact ⟨l, by simp [outside], rfl⟩
  | quantified n k b l p => cases h; exact ⟨l, by simp [outside], rfl⟩
  | _ => cases h

/-- Only filters have something in their binding. -/
theorem within_of_filter_none {e : Expr} (h : e.filter? = none) : e.within = [] := by
  cases e with
  | comprehension n b l p q => cases h
  | quantified n k b l p => cases h
  | _ => rfl

theorem id_of_mem_places {e : Expr} {pl : Place} (h : pl ∈ e.places []) :
    pl.expr.id ∈ e.ids := by
  induction e using children_induction generalizing pl with
  | node e ih =>
      rcases mem_places h with rfl | ⟨c, hc, hpl⟩ | ⟨c, hc, inner, hinner, rfl⟩
      · exact id_mem_ids e
      · have hchild := mem_children_of_outside hc
        exact mem_ids_of_mem_children hchild (ih c hchild hpl)
      · have hchild := mem_children_of_within hc
        have hlower : inner.expr.id ∈ c.ids := ih c hchild hinner
        exact mem_ids_of_mem_children hchild hlower

/-- The lists of the filters around a place stand below the root. -/
theorem source_of_mem_places {e : Expr} {pl : Place} (h : pl ∈ e.places []) {f : Filter}
    (hf : f ∈ pl.around) : f.source.id ∈ e.lowerIds := by
  induction e using children_induction generalizing pl with
  | node e ih =>
      rcases mem_places h with rfl | ⟨c, hc, hpl⟩ | ⟨c, hc, inner, hinner, rfl⟩
      · cases hf
      · have hchild := mem_children_of_outside hc
        exact mem_lowerIds_of_mem_children hchild
          (mem_ids_of_mem_lowerIds (ih c hchild hpl hf))
      · have hchild := mem_children_of_within hc
        rcases List.mem_append.mp hf with hf | hf
        · exact mem_lowerIds_of_mem_children hchild
            (mem_ids_of_mem_lowerIds (ih c hchild hinner hf))
        · obtain ⟨l, hl, hsource⟩ := source_of_filter (Option.mem_toList.mp hf)
          rw [hsource]
          exact mem_lowerIds_of_mem_children (mem_children_of_outside hl) (id_mem_ids l)

/-- The references that no filter of the tree binds, from left to right. -/
def freeReferences (e : Expr) : List (Node × String) := (e.places []).filterMap Place.freeReference?

end Expr

/-- Seen from further outside, a reference is free if it was and the filters there do not bind its
name either. -/
theorem Place.freeReference_inside (pl : Place) (around : List Filter) :
    (pl.inside around).freeReference? =
      pl.freeReference?.filter fun r => !around.any (·.bound.name == r.2) := by
  obtain ⟨e, inner⟩ := pl
  cases e with
  | reference n x =>
      simp only [freeReference?, inside, List.any_append]
      cases inner.any (·.bound.name == x) with
      | true => rfl
      | false => cases houter : around.any (·.bound.name == x) <;> simp only [Bool.false_or,
          Bool.false_eq_true, if_false, if_true, Option.filter, houter, Bool.not_false, Bool.not_true]
  | _ => rfl

namespace Expr

/-- Whether a node binds a name. -/
def binds (e : Expr) (x : String) : Bool := e.filter?.any (·.bound.name == x)

/-- **Free references, from the root down.**  What is free in a tree is the root itself, if it is a
reference, what is free outside of its binding, and what is free inside under another name. -/
theorem freeReferences_eq (e : Expr) :
    e.freeReferences =
      (Place.freeReference? ⟨e, []⟩).toList ++
        (e.outside.flatMap freeReferences ++
          (e.within.flatMap freeReferences).filter fun r => !e.binds r.2) := by
  have hin : ∀ c : Expr, (c.places (e.filter?.toList ++ [])).filterMap Place.freeReference? =
      c.freeReferences.filter fun r => !e.binds r.2 := by
    intro c
    rw [List.append_nil, places_eq_map, List.filterMap_map, freeReferences, List.filter_filterMap]
    refine List.filterMap_congr fun pl _ => ?_
    rw [Function.comp, Place.freeReference_inside]
    cases hf : e.filter? <;> simp [binds, hf]
  rw [freeReferences, places_eq, List.filterMap_cons, List.filterMap_append,
    List.filterMap_flatMap, List.filterMap_flatMap, List.filter_flatMap]
  simp only [hin]
  cases Place.freeReference? ⟨e, []⟩ <;> rfl

end Expr
end QueryTyping
