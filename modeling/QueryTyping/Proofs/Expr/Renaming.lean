import Mathlib.Data.List.Forall2
import QueryTyping.Proofs.Expr.FreeNames

/-!
# Renaming what a filter binds

The name that a filter binds can be replaced by another one, together with the references that are
bound to it.  These are the free references to the name in the predicate and in the projection; the
list of the filter is not touched, and neither is what a filter further inside binds under the same
name.

Two trees are matched under a pairing of names if they differ in the names of references and of
filters only, and the names of references are paired.  Inside of two filters their names are paired
with each other and with nothing else.  So a tree and the same tree with one filter renamed are
matched when every name is paired with itself.

Main statements: `matched_rename` says when a tree is matched with a renamed one, `Rebound.matched`
what replacing the name of one filter comes to, and `Matched.freeNames` that the free names of trees
that are matched are paired.
-/

namespace QueryTyping

mutual

/-- The tree in which the free references to a name are references to another one. -/
def Expr.rename (x y : String) : Expr → Expr
  | .literal n v => .literal n v
  | .parameter n z => .parameter n z
  | .countStar n => .countStar n
  | .reference n z => .reference n (if z = x then y else z)
  | .list n es => .list n (renameAll x y es)
  | .property n m k => .property n (m.rename x y) k
  | .unary n op e => .unary n op (e.rename x y)
  | .binary n op l r => .binary n op (l.rename x y) (r.rename x y)
  | .call n f d es => .call n f d (renameAll x y es)
  | .comprehension n b s p q =>
      .comprehension n b (s.rename x y)
        (if b.name = x then p else renameOption x y p)
        (if b.name = x then q else renameOption x y q)
  | .quantified n k b s p =>
      .quantified n k b (s.rename x y) (if b.name = x then p else renameOption x y p)

/-- Rename in each of some trees. -/
def renameAll (x y : String) : List Expr → List Expr
  | [] => []
  | e :: es => e.rename x y :: renameAll x y es

/-- Rename in a tree that may be missing. -/
def renameOption (x y : String) : Option Expr → Option Expr
  | none => none
  | some e => some (e.rename x y)

end

namespace Expr

/-- The name that a node refers to, or the one that it binds. -/
def ownName? : Expr → Option String
  | reference _ x => some x
  | comprehension _ b _ _ _ | quantified _ _ b _ _ => some b.name
  | _ => none

/-- All names that a tree refers to or binds. -/
def usedNames (e : Expr) : List String := e.nodes.filterMap ownName?

/-- The second tree is the first one in which one filter binds another name.  The new name is not
used in the predicate or the projection of the filter, and the references there that were bound to
the filter still are. -/
inductive Rebound : Expr → Expr → Prop
  | comprehension (n : Node) (b : Binding) (l : Expr) (p q : Option Expr) (y : String)
      (hy : ∀ c ∈ p.toList ++ q.toList, y ∉ c.usedNames) :
      Rebound (.comprehension n b l p q)
        (.comprehension n { b with name := y } l
          (renameOption b.name y p) (renameOption b.name y q))
  | quantified (n : Node) (k : Quantifier) (b : Binding) (l : Expr) (p : Option Expr) (y : String)
      (hy : ∀ c ∈ p.toList, y ∉ c.usedNames) :
      Rebound (.quantified n k b l p)
        (.quantified n k { b with name := y } l (renameOption b.name y p))
  | element {c c' : Expr} (n : Node) (before after : List Expr) (h : Rebound c c') :
      Rebound (.list n (before ++ c :: after)) (.list n (before ++ c' :: after))
  | argument {c c' : Expr} (n : Node) (f : String) (distinct : Bool) (before after : List Expr)
      (h : Rebound c c') :
      Rebound (.call n f distinct (before ++ c :: after))
        (.call n f distinct (before ++ c' :: after))
  | map {c c' : Expr} (n : Node) (k : String) (h : Rebound c c') :
      Rebound (.property n c k) (.property n c' k)
  | operand {c c' : Expr} (n : Node) (op : UnaryOp) (h : Rebound c c') :
      Rebound (.unary n op c) (.unary n op c')
  | left {c c' : Expr} (n : Node) (op : BinaryOp) (r : Expr) (h : Rebound c c') :
      Rebound (.binary n op c r) (.binary n op c' r)
  | right {c c' : Expr} (n : Node) (op : BinaryOp) (l : Expr) (h : Rebound c c') :
      Rebound (.binary n op l c) (.binary n op l c')
  | source {c c' : Expr} (n : Node) (b : Binding) (p q : Option Expr) (h : Rebound c c') :
      Rebound (.comprehension n b c p q) (.comprehension n b c' p q)
  | predicate {c c' : Expr} (n : Node) (b : Binding) (l : Expr) (q : Option Expr)
      (h : Rebound c c') :
      Rebound (.comprehension n b l (some c) q) (.comprehension n b l (some c') q)
  | projection {c c' : Expr} (n : Node) (b : Binding) (l : Expr) (p : Option Expr)
      (h : Rebound c c') :
      Rebound (.comprehension n b l p (some c)) (.comprehension n b l p (some c'))
  | quantifiedSource {c c' : Expr} (n : Node) (k : Quantifier) (b : Binding) (p : Option Expr)
      (h : Rebound c c') :
      Rebound (.quantified n k b c p) (.quantified n k b c' p)
  | quantifiedPredicate {c c' : Expr} (n : Node) (k : Quantifier) (b : Binding) (l : Expr)
      (h : Rebound c c') :
      Rebound (.quantified n k b l (some c)) (.quantified n k b l (some c'))

theorem usedNames_eq (e : Expr) :
    e.usedNames = e.ownName?.toList ++ e.children.flatMap usedNames := by
  rw [usedNames, nodes_eq, List.filterMap_cons, List.filterMap_flatMap]
  cases e.ownName? <;> rfl

theorem mem_usedNames_of_own {e : Expr} {x : String} (h : e.ownName? = some x) :
    x ∈ e.usedNames := by
  rw [usedNames_eq, h]
  exact List.mem_cons_self

theorem mem_usedNames_of_child {e c : Expr} {x : String} (hc : c ∈ e.children)
    (hx : x ∈ c.usedNames) : x ∈ e.usedNames := by
  rw [usedNames_eq]
  exact List.mem_append_right _ (List.mem_flatMap.mpr ⟨c, hc, hx⟩)

end Expr

/-- Which name in one tree stands for which name in another. -/
abbrev Pairing := String → String → Prop

/-- The pairing inside of two filters. -/
def Pairing.bind (R : Pairing) (x y : String) : Pairing :=
  fun z z' => (z = x ∧ z' = y) ∨ (z ≠ x ∧ z' ≠ y ∧ R z z')

/-- If a name is paired with itself outside, it is so inside of filters of one name. -/
theorem Pairing.bind_self {R : Pairing} {x z : String} (h : z ≠ x → R z z) : R.bind x x z z := by
  by_cases hz : z = x
  · exact .inl ⟨hz, hz⟩
  · exact .inr ⟨hz, hz, h hz⟩

/-- A name is still paired with what it becomes inside of a filter that binds neither the old name nor
the new one. -/
theorem Pairing.bind_renamed {R : Pairing} {w x y z : String} (hx : w ≠ x) (hy : w ≠ y)
    (h : R z (if z = x then y else z)) : R.bind w w z (if z = x then y else z) := by
  by_cases hz : z = w
  · refine .inl ⟨hz, ?_⟩
    rw [if_neg (hz ▸ hx), hz]
  · refine .inr ⟨hz, ?_, h⟩
    by_cases hzx : z = x
    · rw [if_pos hzx]
      exact fun heq => hy heq.symm
    · rw [if_neg hzx]
      exact hz

mutual

/-- The trees differ in names only, and the names of references are paired. -/
def Expr.Matched (R : Pairing) : Expr → Expr → Prop
  | .literal n v, e' => e' = .literal n v
  | .parameter n x, e' => e' = .parameter n x
  | .countStar n, e' => e' = .countStar n
  | .reference n x, e' => ∃ x', e' = .reference n x' ∧ R x x'
  | .list n es, e' => ∃ es', e' = .list n es' ∧ MatchedAll R es es'
  | .property n m k, e' => ∃ m', e' = .property n m' k ∧ m.Matched R m'
  | .unary n op e, e' => ∃ c, e' = .unary n op c ∧ e.Matched R c
  | .binary n op l r, e' => ∃ l' r', e' = .binary n op l' r' ∧ l.Matched R l' ∧ r.Matched R r'
  | .call n f d es, e' => ∃ es', e' = .call n f d es' ∧ MatchedAll R es es'
  | .comprehension n b s p q, e' =>
      ∃ y s' p' q', e' = .comprehension n { b with name := y } s' p' q' ∧ s.Matched R s' ∧
        MatchedOption (R.bind b.name y) p p' ∧ MatchedOption (R.bind b.name y) q q'
  | .quantified n k b s p, e' =>
      ∃ y s' p', e' = .quantified n k { b with name := y } s' p' ∧ s.Matched R s' ∧
        MatchedOption (R.bind b.name y) p p'

/-- Trees in a row are matched. -/
def MatchedAll (R : Pairing) : List Expr → List Expr → Prop
  | [], es' => es' = []
  | e :: es, es' => ∃ c cs, es' = c :: cs ∧ e.Matched R c ∧ MatchedAll R es cs

/-- Trees that may be missing are matched. -/
def MatchedOption (R : Pairing) : Option Expr → Option Expr → Prop
  | none, p' => p' = none
  | some e, p' => ∃ c, p' = some c ∧ e.Matched R c

end

theorem matchedAll_iff {R : Pairing} {es es' : List Expr} :
    MatchedAll R es es' ↔ List.Forall₂ (Expr.Matched R) es es' := by
  induction es generalizing es' with
  | nil => simp [MatchedAll]
  | cons e es ih =>
      rw [MatchedAll, List.forall₂_cons_left_iff]
      constructor
      · intro h
        obtain ⟨c, cs, heq, hc, hcs⟩ := h
        exact ⟨c, cs, hc, ih.mp hcs, heq⟩
      · intro h
        obtain ⟨c, cs, hc, hcs, heq⟩ := h
        exact ⟨c, cs, heq, hc, ih.mpr hcs⟩

theorem matchedOption_toList {R : Pairing} {p p' : Option Expr} (h : MatchedOption R p p') :
    List.Forall₂ (Expr.Matched R) p.toList p'.toList := by
  cases p with
  | none =>
      rw [MatchedOption] at h
      rw [h]
      exact .nil
  | some e =>
      rw [MatchedOption] at h
      obtain ⟨c, rfl, hc⟩ := h
      exact .cons hc .nil

namespace Expr

/-! Trees that are matched with themselves, and with renamed ones -/

theorem matchedAll_same {R : Pairing} {es : List Expr} (h : ∀ c ∈ es, c.Matched R c) :
    MatchedAll R es es := by
  rw [matchedAll_iff, List.forall₂_same]
  exact h

theorem matchedOption_same {R : Pairing} {p : Option Expr} (h : ∀ c ∈ p.toList, c.Matched R c) :
    MatchedOption R p p := by
  cases p with
  | none => rfl
  | some c => exact ⟨c, rfl, h c (by simp)⟩

/-- A tree is matched with itself if each name that it uses is paired with itself. -/
theorem matched_self (e : Expr) {R : Pairing} (h : ∀ z ∈ e.usedNames, R z z) : e.Matched R e := by
  induction e using children_induction generalizing R with
  | node e ih =>
      have hchild : ∀ c ∈ e.children, c.Matched R c :=
        fun c hc => ih c hc fun z hz => h z (mem_usedNames_of_child hc hz)
      have hinner : ∀ x, ∀ c ∈ e.children, c.Matched (R.bind x x) c := by
        intro x c hc
        exact ih c hc fun z hz => Pairing.bind_self fun _ => h z (mem_usedNames_of_child hc hz)
      cases e with
      | reference n x => exact ⟨x, rfl, h x (mem_usedNames_of_own rfl)⟩
      | list n es => exact ⟨es, rfl, matchedAll_same hchild⟩
      | property n m k => exact ⟨m, rfl, hchild m (by simp [children])⟩
      | unary n op e => exact ⟨e, rfl, hchild e (by simp [children])⟩
      | binary n op l r =>
          exact ⟨l, r, rfl, hchild l (by simp [children]), hchild r (by simp [children])⟩
      | call n f d es => exact ⟨es, rfl, matchedAll_same hchild⟩
      | comprehension n b s p q =>
          refine ⟨b.name, s, p, q, rfl, hchild s (by simp [children]), ?_, ?_⟩
          · exact matchedOption_same fun c hc =>
              hinner b.name c (List.mem_cons_of_mem _ (List.mem_append_left _ hc))
          · exact matchedOption_same fun c hc =>
              hinner b.name c (List.mem_cons_of_mem _ (List.mem_append_right _ hc))
      | quantified n k b s p =>
          refine ⟨b.name, s, p, rfl, hchild s (by simp [children]), ?_⟩
          exact matchedOption_same fun c hc => hinner b.name c (List.mem_cons_of_mem _ hc)
      | _ => rfl

theorem matchedAll_rename {R : Pairing} {x y : String} {es : List Expr}
    (h : ∀ c ∈ es, c.Matched R (c.rename x y)) : MatchedAll R es (renameAll x y es) := by
  induction es with
  | nil => rfl
  | cons c cs ih =>
      have hrest := ih fun d hd => h d (List.mem_cons_of_mem _ hd)
      exact ⟨_, _, rfl, h c List.mem_cons_self, hrest⟩

theorem matchedOption_rename {R : Pairing} {x y : String} {p : Option Expr}
    (h : ∀ c ∈ p.toList, c.Matched R (c.rename x y)) : MatchedOption R p (renameOption x y p) := by
  cases p with
  | none => rfl
  | some c => exact ⟨_, rfl, h c (by simp)⟩

/-- **A tree is matched with a renamed one** if the new name is not used in it, and each name that it
uses is paired with the one that it becomes. -/
theorem matched_rename (e : Expr) {R : Pairing} {x y : String} (hy : y ∉ e.usedNames)
    (h : ∀ z ∈ e.usedNames, R z (if z = x then y else z)) : e.Matched R (e.rename x y) := by
  induction e using children_induction generalizing R with
  | node e ih =>
      have hunused : ∀ c ∈ e.children, y ∉ c.usedNames :=
        fun c hc hmem => hy (mem_usedNames_of_child hc hmem)
      have hchild : ∀ c ∈ e.children, c.Matched R (c.rename x y) := fun c hc =>
        ih c hc (hunused c hc) fun z hz => h z (mem_usedNames_of_child hc hz)
      -- A filter of the same name hides the name that is replaced.
      have hhidden : ∀ c ∈ e.children, c.Matched (R.bind x x) c := by
        intro c hc
        refine matched_self c fun z hz => Pairing.bind_self fun hne => ?_
        have hpaired := h z (mem_usedNames_of_child hc hz)
        rwa [if_neg hne] at hpaired
      have hinner : ∀ b : Binding, e.ownName? = some b.name → b.name ≠ x →
          ∀ c ∈ e.children, c.Matched (R.bind b.name b.name) (c.rename x y) := by
        intro b hb hne c hc
        refine ih c hc (hunused c hc) fun z hz => ?_
        have hbound : b.name ≠ y := fun heq => hy (heq ▸ mem_usedNames_of_own hb)
        exact Pairing.bind_renamed hne hbound (h z (mem_usedNames_of_child hc hz))
      have hpart : ∀ b : Binding, e.ownName? = some b.name →
          ∀ p : Option Expr, (∀ c ∈ p.toList, c ∈ e.children) →
            MatchedOption (R.bind b.name b.name) p
              (if b.name = x then p else renameOption x y p) := by
        intro b hb p hp
        by_cases hx : b.name = x
        · rw [if_pos hx, hx]
          exact matchedOption_same fun c hc => hhidden c (hp c hc)
        · rw [if_neg hx]
          exact matchedOption_rename fun c hc => hinner b hb hx c (hp c hc)
      cases e with
      | reference n z => exact ⟨_, rfl, h z (mem_usedNames_of_own rfl)⟩
      | list n es => exact ⟨_, rfl, matchedAll_rename hchild⟩
      | property n m k => exact ⟨_, rfl, hchild m (by simp [children])⟩
      | unary n op e => exact ⟨_, rfl, hchild e (by simp [children])⟩
      | binary n op l r =>
          exact ⟨_, _, rfl, hchild l (by simp [children]), hchild r (by simp [children])⟩
      | call n f d es => exact ⟨_, rfl, matchedAll_rename hchild⟩
      | comprehension n b s p q =>
          refine ⟨b.name, _, _, _, rfl, hchild s (by simp [children]), ?_, ?_⟩
          · exact hpart b rfl p fun c hc => List.mem_cons_of_mem _ (List.mem_append_left _ hc)
          · exact hpart b rfl q fun c hc => List.mem_cons_of_mem _ (List.mem_append_right _ hc)
      | quantified n k b s p =>
          refine ⟨b.name, _, _, rfl, hchild s (by simp [children]), ?_⟩
          exact hpart b rfl p fun c hc => List.mem_cons_of_mem _ hc
      | _ => rfl

/-- Each name is paired with what it becomes inside of a filter that is renamed. -/
theorem bind_eq_renamed {x y z : String} (hz : z ≠ y) :
    Pairing.bind Eq x y z (if z = x then y else z) := by
  by_cases hx : z = x
  · rw [if_pos hx]
    exact .inl ⟨hx, rfl⟩
  · rw [if_neg hx]
    exact .inr ⟨hx, hz, rfl⟩

/-- The part of a filter that is renamed. -/
theorem matchedOption_rebound {x y : String} {p : Option Expr}
    (hy : ∀ c ∈ p.toList, y ∉ c.usedNames) :
    MatchedOption (Pairing.bind Eq x y) p (renameOption x y p) :=
  matchedOption_rename fun c hc =>
    matched_rename c (hy c hc) fun _ hz => bind_eq_renamed fun heq => hy c hc (heq ▸ hz)

theorem matched_refl (e : Expr) : e.Matched Eq e := matched_self e fun _ _ => rfl

/-- Inside of two filters of one name, each name is still paired with itself alone. -/
theorem bind_eq_self (x : String) : Pairing.bind Eq x x = Eq := by
  funext z z'
  apply propext
  constructor
  · intro h
    rcases h with h | h
    · exact h.1.trans h.2.symm
    · exact h.2.2
  · intro h
    subst h
    exact Pairing.bind_self fun _ => rfl

/-- A row in which one tree is replaced by one that is matched. -/
theorem matchedAll_replace {c c' : Expr} (h : c.Matched Eq c') (before after : List Expr) :
    MatchedAll Eq (before ++ c :: after) (before ++ c' :: after) := by
  have hrefl : ∀ es : List Expr, List.Forall₂ (Matched Eq) es es :=
    fun es => List.forall₂_same.mpr fun d _ => matched_refl d
  rw [matchedAll_iff]
  exact List.rel_append (hrefl before) (.cons h (hrefl after))

/-- **Trees that differ in the name of one filter are matched**, each name paired with itself. -/
theorem Rebound.matched {e e' : Expr} (h : Rebound e e') : e.Matched Eq e' := by
  have hrefl : ∀ (x : String) (p : Option Expr), MatchedOption (Pairing.bind Eq x x) p p := by
    intro x p
    rw [bind_eq_self]
    exact matchedOption_same fun c _ => matched_refl c
  have hsome : ∀ {c c' : Expr} (x : String), c.Matched Eq c' →
      MatchedOption (Pairing.bind Eq x x) (some c) (some c') := by
    intro c c' x hc
    rw [bind_eq_self]
    exact ⟨c', rfl, hc⟩
  induction h with
  | comprehension n b l p q y hy =>
      refine ⟨y, l, _, _, rfl, matched_refl l, ?_, ?_⟩
      · exact matchedOption_rebound fun c hc => hy c (List.mem_append_left _ hc)
      · exact matchedOption_rebound fun c hc => hy c (List.mem_append_right _ hc)
  | quantified n k b l p y hy => exact ⟨y, l, _, rfl, matched_refl l, matchedOption_rebound hy⟩
  | element n before after _ ih => exact ⟨_, rfl, matchedAll_replace ih before after⟩
  | argument n f distinct before after _ ih => exact ⟨_, rfl, matchedAll_replace ih before after⟩
  | map n k _ ih => exact ⟨_, rfl, ih⟩
  | operand n op _ ih => exact ⟨_, rfl, ih⟩
  | left n op r _ ih => exact ⟨_, _, rfl, ih, matched_refl r⟩
  | right n op l _ ih => exact ⟨_, _, rfl, matched_refl l, ih⟩
  | source n b p q _ ih => exact ⟨b.name, _, _, _, rfl, ih, hrefl _ p, hrefl _ q⟩
  | predicate n b l q _ ih =>
      exact ⟨b.name, _, _, _, rfl, matched_refl l, hsome _ ih, hrefl _ q⟩
  | projection n b l p _ ih =>
      exact ⟨b.name, _, _, _, rfl, matched_refl l, hrefl _ p, hsome _ ih⟩
  | quantifiedSource n k b p _ ih => exact ⟨b.name, _, _, rfl, ih, hrefl _ p⟩
  | quantifiedPredicate n k b l _ ih => exact ⟨b.name, _, _, rfl, matched_refl l, hsome _ ih⟩

/-! What trees that are matched have in common -/

variable {R : Pairing} {e e' : Expr}

theorem Matched.node_eq (h : e.Matched R e') : e'.node = e.node := by
  cases e with
  | literal n v => rw [Matched] at h; rw [h]
  | parameter n x => rw [Matched] at h; rw [h]
  | countStar n => rw [Matched] at h; rw [h]
  | binary n op l r => obtain ⟨l', r', rfl, -⟩ := h; rfl
  | comprehension n b s p q => obtain ⟨y, s', p', q', rfl, -⟩ := h; rfl
  | quantified n k b s p => obtain ⟨y, s', p', rfl, -⟩ := h; rfl
  | _ => obtain ⟨c, rfl, -⟩ := h; rfl

/-- Two nodes that bind nothing and refer to nothing. -/
theorem Matched.of_filter_none (h : e.Matched R e') (hfilter : e.filter? = none)
    (href : ∀ n x, e ≠ reference n x) :
    e'.filter? = none ∧ (∀ n x, e' ≠ reference n x) ∧
      List.Forall₂ (Matched R) e.children e'.children := by
  cases e with
  | reference n x => exact absurd rfl (href n x)
  | comprehension n b s p q => cases hfilter
  | quantified n k b s p => cases hfilter
  | list n es =>
      obtain ⟨es', rfl, hes⟩ := h
      exact ⟨rfl, by simp, matchedAll_iff.mp hes⟩
  | call n f d es =>
      obtain ⟨es', rfl, hes⟩ := h
      exact ⟨rfl, by simp, matchedAll_iff.mp hes⟩
  | property n m k =>
      obtain ⟨m', rfl, hm⟩ := h
      exact ⟨rfl, by simp, .cons hm .nil⟩
  | unary n op e =>
      obtain ⟨c, rfl, hc⟩ := h
      exact ⟨rfl, by simp, .cons hc .nil⟩
  | binary n op l r =>
      obtain ⟨l', r', rfl, hl, hr⟩ := h
      exact ⟨rfl, by simp, .cons hl (.cons hr .nil)⟩
  | _ =>
      rw [Matched] at h
      rw [h]
      exact ⟨rfl, by simp, .nil⟩

/-- Two filters. -/
theorem Matched.of_filter (h : e.Matched R e') {f : Filter} (hf : e.filter? = some f) :
    ∃ y l', e'.filter? = some ⟨{ f.bound with name := y }, l'⟩ ∧
      List.Forall₂ (Matched R) e.outside e'.outside ∧
      List.Forall₂ (Matched (R.bind f.bound.name y)) e.within e'.within := by
  cases e with
  | comprehension n b s p q =>
      cases hf
      obtain ⟨y, s', p', q', rfl, hs, hp, hq⟩ := h
      refine ⟨y, s'.node, rfl, .cons hs .nil, ?_⟩
      exact List.rel_append (matchedOption_toList hp) (matchedOption_toList hq)
  | quantified n k b s p =>
      cases hf
      obtain ⟨y, s', p', rfl, hs, hp⟩ := h
      exact ⟨y, s'.node, rfl, .cons hs .nil, matchedOption_toList hp⟩
  | _ => cases hf

/-- What is gathered from trees that are matched is related if it is so tree by tree. -/
theorem rel_flatMap_of_matched {α : Type} {S : Pairing} {T : α → α → Prop} {gather : Expr → List α}
    {cs cs' : List Expr} (h : List.Forall₂ (Matched S) cs cs')
    (ih : ∀ c ∈ cs, ∀ c', c.Matched S c' → List.Forall₂ T (gather c) (gather c')) :
    List.Forall₂ T (cs.flatMap gather) (cs'.flatMap gather) :=
  List.rel_flatMap ((List.forall₂_and_left cs cs').mpr ⟨ih, h⟩) fun _ c' hc => hc.1 c' hc.2

theorem flatMap_ids_of_matched {S : Pairing} {cs cs' : List Expr}
    (h : List.Forall₂ (Matched S) cs cs') (ih : ∀ c ∈ cs, ∀ c', c.Matched S c' → c'.ids = c.ids) :
    cs'.flatMap ids = cs.flatMap ids := by
  have hsame : List.Forall₂ Eq (cs.flatMap ids) (cs'.flatMap ids) := by
    refine rel_flatMap_of_matched h fun c hc c' hcc => ?_
    rw [ih c hc c' hcc, List.forall₂_eq_eq_eq]
  rw [List.forall₂_eq_eq_eq] at hsame
  exact hsame.symm

/-- Names are no ids. -/
theorem Matched.ids_eq (h : e.Matched R e') : e'.ids = e.ids := by
  induction e using children_induction generalizing R e' with
  | node e ih =>
      have hid : e'.id = e.id := congrArg Node.id h.node_eq
      by_cases href : ∃ n x, e = reference n x
      · obtain ⟨n, x, rfl⟩ := href
        obtain ⟨x', rfl, -⟩ := h
        rfl
      have hnot : ∀ n x, e ≠ reference n x := fun n x heq => href ⟨n, x, heq⟩
      rw [Expr.ids_eq, Expr.ids_eq, ownIds, ownIds, hid, bound_eq, bound_eq]
      cases hf : e.filter? with
      | none =>
          obtain ⟨hf', -, hchildren⟩ := h.of_filter_none hf hnot
          have hids := flatMap_ids_of_matched hchildren fun c hc c' hcc => ih c hc hcc
          rw [hf', hids]
      | some f =>
          obtain ⟨y, l', hf', hout, hin⟩ := h.of_filter hf
          have houtside := flatMap_ids_of_matched hout fun c hc c' hcc =>
            ih c (mem_children_of_outside hc) hcc
          have hinside := flatMap_ids_of_matched hin fun c hc c' hcc =>
            ih c (mem_children_of_within hc) hcc
          rw [hf', children_eq e', children_eq e, List.flatMap_append, List.flatMap_append, houtside,
            hinside]
          rfl

/-- Names that are paired inside of two filters, and are none of the filters' own, are paired
outside. -/
theorem forall₂_filter_bind {x y : String} {xs ys : List String}
    (h : List.Forall₂ (R.bind x y) xs ys) :
    List.Forall₂ R (xs.filter (· ≠ x)) (ys.filter (· ≠ y)) := by
  induction h with
  | nil => exact .nil
  | @cons z z' xs ys hz _ ih =>
      rcases hz with ⟨hx, hy⟩ | ⟨hx, hy, hpaired⟩
      · simpa [hx, hy] using ih
      · simpa [hx, hy] using List.Forall₂.cons hpaired ih

/-- The free names of a filter. -/
theorem freeNames_of_filter {f : Filter} (h : e.filter? = some f) :
    e.freeNames =
      e.outside.flatMap Expr.freeNames ++
        (e.within.flatMap Expr.freeNames).filter (· ≠ f.bound.name) := by
  have hroot : Place.freeReference? ⟨e, []⟩ = none := by
    cases e with
    | reference n x => cases h
    | _ => rfl
  have hbinds : ∀ x, (!e.binds x) = decide (x ≠ f.bound.name) := by
    intro x
    by_cases hx : x = f.bound.name
    · simp [binds, h, hx]
    · have hx' : f.bound.name ≠ x := fun heq => hx heq.symm
      simp [binds, h, hx, hx']
  have hnames : ∀ cs : List Expr,
      cs.flatMap Expr.freeNames = (cs.flatMap freeReferences).map (·.2) :=
    fun cs => (List.map_flatMap ..).symm
  rw [hnames, hnames, List.filter_map, Expr.freeNames, freeReferences_eq, hroot]
  simp only [Option.toList_none, List.nil_append, List.map_append, hbinds]
  rfl

/-- **The free names of trees that are matched are paired**, one by one. -/
theorem Matched.freeNames (h : e.Matched R e') : List.Forall₂ R e.freeNames e'.freeNames := by
  induction e using children_induction generalizing R e' with
  | node e ih =>
      by_cases href : ∃ n x, e = reference n x
      · obtain ⟨n, x, rfl⟩ := href
        obtain ⟨x', rfl, hpaired⟩ := h
        rw [freeNames_reference, freeNames_reference]
        exact .cons hpaired .nil
      have hnot : ∀ n x, e ≠ reference n x := fun n x heq => href ⟨n, x, heq⟩
      cases hf : e.filter? with
      | none =>
          obtain ⟨hf', hnot', hchildren⟩ := h.of_filter_none hf hnot
          rw [freeNames_of_filter_none hf hnot, freeNames_of_filter_none hf' hnot']
          exact rel_flatMap_of_matched hchildren fun c hc c' hcc => ih c hc hcc
      | some f =>
          obtain ⟨y, l', hf', hout, hin⟩ := h.of_filter hf
          have houtside := rel_flatMap_of_matched hout fun c hc c' hcc =>
            ih c (mem_children_of_outside hc) hcc
          have hinside := rel_flatMap_of_matched hin fun c hc c' hcc =>
            ih c (mem_children_of_within hc) hcc
          rw [freeNames_of_filter hf, freeNames_of_filter hf']
          exact List.rel_append houtside (forall₂_filter_bind hinside)

end Expr
end QueryTyping
