import QueryTyping.Proofs.Expr.Place

/-!
# The names an expression reads are its free names

A scan threads the names found so far through the tree and starts anew at every filter.  What it
adds to the names found are the names of the free references, apart from those that are hidden where
the scan started.

Main statement: `mem_dependencies_iff` says that the names an expression reads from its surroundings
are the names of its free references.
-/

namespace QueryTyping

namespace Scan

/-- A step of a scan adds some names, as far as they are not hidden, and hides no more than was
hidden. -/
def Finds (step : Scan → Scan) (names : List String) : Prop :=
  ∀ a, (step a).hidden = a.hidden ∧
    ∀ x, x ∈ (step a).found ↔ x ∈ a.found ∨ (x ∈ names ∧ x ∉ a.hidden)

theorem finds_nothing : Finds (fun a => a) [] := by
  intro a
  simp

theorem finds_read (x : String) : Finds (·.read x) [x] := by
  intro a
  by_cases h : x ∈ a.hidden
  · have hread : a.read x = a := by simp [read, h]
    dsimp only
    rw [hread]
    refine ⟨rfl, fun y => ?_⟩
    constructor
    · exact Or.inl
    · rintro (hy | ⟨hy, hnot⟩)
      · exact hy
      · rw [List.mem_singleton.mp hy] at hnot
        exact absurd h hnot
  · have hread : a.read x = { a with found := a.found.insert x } := by simp [read, h]
    dsimp only
    rw [hread]
    refine ⟨rfl, fun y => ?_⟩
    simp only [NameSet.mem_insert, List.mem_singleton]
    constructor
    · rintro (rfl | hy)
      · exact Or.inr ⟨rfl, h⟩
      · exact Or.inl hy
    · rintro (hy | ⟨hy, -⟩)
      · exact Or.inr hy
      · exact Or.inl hy

theorem Finds.andThen {f g : Scan → Scan} {xs ys : List String} (hf : Finds f xs)
    (hg : Finds g ys) : Finds (fun a => g (f a)) (xs ++ ys) := by
  intro a
  obtain ⟨hhidden, hfound⟩ := hf a
  obtain ⟨hhidden', hfound'⟩ := hg (f a)
  refine ⟨hhidden'.trans hhidden, fun x => ?_⟩
  rw [hfound', hfound, hhidden, List.mem_append]
  tauto

/-- Steps for the members of a list, one after the other. -/
theorem finds_foldl {α : Type} (step : Scan → α → Scan) (names : α → List String) {cs : List α}
    (h : ∀ c ∈ cs, Finds (step · c) (names c)) :
    Finds (fun a => cs.foldl step a) (cs.flatMap names) := by
  induction cs with
  | nil => exact finds_nothing
  | cons c cs ih =>
      have hc := h c List.mem_cons_self
      have hcs := ih fun d hd => h d (List.mem_cons_of_mem _ hd)
      exact hc.andThen hcs

theorem finds_readAll (names : NameSet) : Finds (·.readAll names) names.toList := by
  have hall : Finds (·.readAll names) (names.toList.flatMap fun x => [x]) :=
    finds_foldl read (fun x => [x]) fun x _ => finds_read x
  simpa using hall

end Scan

namespace Expr

/-- **A scan from the root down.** -/
theorem scan_eq (e : Expr) (a : Scan) :
    e.scan a = Scan.visit e a (scanAll e.children) := by
  rw [scan_eq_fold, fold_eq]
  congr 1
  funext a
  rw [scanAll_eq_foldl]
  simp only [scan_eq_fold]

theorem finds_scanAll {cs : List Expr} {names : Expr → List String}
    (h : ∀ c ∈ cs, Scan.Finds c.scan (names c)) : Scan.Finds (scanAll cs) (cs.flatMap names) := by
  have hfold := Scan.finds_foldl (fun a (c : Expr) => c.scan a) names h
  intro a
  rw [scanAll_eq_foldl]
  exact hfold a

/-- A scan goes on through the children of a node that binds nothing. -/
theorem scan_of_filter_none {e : Expr} (h : e.filter? = none)
    (href : ∀ n x, e ≠ reference n x) (a : Scan) :
    e.scan a = scanAll e.children a := by
  rw [scan_eq]
  cases e with
  | reference n x => exact absurd rfl (href n x)
  | comprehension n b s p q => cases h
  | quantified n k b s p => cases h
  | _ => rfl

/-- At a filter a scan reads what another scan finds, which hides the bound name behind the
list. -/
theorem scan_of_filter {e : Expr} {f : Filter} (h : e.filter? = some f) (a : Scan) :
    e.scan a =
      a.readAll (scanAll e.within ((scanAll e.outside .start).hide f.bound.name)).found := by
  rw [scan_eq]
  cases e with
  | comprehension n b s p q =>
      cases h
      simp [Scan.visit, bound?, children, within, outside, scanAll_eq_foldl]
  | quantified n k b s p =>
      cases h
      simp [Scan.visit, bound?, children, within, outside, scanAll_eq_foldl]
  | _ => cases h

/-- The names of the free references. -/
def freeNames (e : Expr) : List String := e.freeReferences.map (·.2)

theorem freeNames_reference (n : Node) (x : String) : (reference n x).freeNames = [x] := by
  simp [freeNames, freeReferences, places, Place.freeReference?]

theorem freeNames_of_filter_none {e : Expr} (h : e.filter? = none)
    (href : ∀ n x, e ≠ reference n x) : e.freeNames = e.children.flatMap freeNames := by
  have hroot : Place.freeReference? ⟨e, []⟩ = none := by
    cases e with
    | reference n x => exact absurd rfl (href n x)
    | _ => rfl
  have hwithin : e.within = [] := within_of_filter_none h
  rw [freeNames, freeReferences_eq, hroot, children_eq, hwithin]
  simp only [List.flatMap_nil, List.filter_nil, List.append_nil, Option.toList_none,
    List.nil_append, List.map_flatMap]
  rfl

theorem mem_freeNames_of_filter {e : Expr} {f : Filter} (h : e.filter? = some f) {x : String} :
    x ∈ e.freeNames ↔
      x ∈ e.outside.flatMap freeNames ∨ (x ∈ e.within.flatMap freeNames ∧ x ≠ f.bound.name) := by
  have hroot : Place.freeReference? ⟨e, []⟩ = none := by
    cases e with
    | reference n x => cases h
    | _ => rfl
  rw [freeNames, freeReferences_eq, hroot]
  simp only [Option.toList_none, List.nil_append, List.map_append, List.mem_append, List.mem_map,
    List.mem_flatMap, List.mem_filter, binds, h, Option.any_some, freeNames, Bool.not_eq_true',
    beq_eq_false_iff_ne]
  constructor
  · rintro (⟨r, ⟨c, hc, hr⟩, rfl⟩ | ⟨r, ⟨⟨c, hc, hr⟩, hne⟩, rfl⟩)
    · exact Or.inl ⟨c, hc, r, hr, rfl⟩
    · exact Or.inr ⟨⟨c, hc, r, hr, rfl⟩, fun e => hne e.symm⟩
  · rintro (⟨c, hc, r, hr, rfl⟩ | ⟨⟨c, hc, r, hr, rfl⟩, hne⟩)
    · exact Or.inl ⟨r, ⟨c, hc, hr⟩, rfl⟩
    · exact Or.inr ⟨r, ⟨⟨c, hc, hr⟩, fun e => hne e.symm⟩, rfl⟩

/-- **What a scan finds.**  A scan of a tree adds the names of its free references that are not
hidden. -/
theorem finds_scan (e : Expr) : Scan.Finds e.scan e.freeNames := by
  induction e using children_induction with
  | node e ih =>
      have hout : Scan.Finds (scanAll e.outside) (e.outside.flatMap freeNames) :=
        finds_scanAll fun c hc => ih c (mem_children_of_outside hc)
      have hin : Scan.Finds (scanAll e.within) (e.within.flatMap freeNames) :=
        finds_scanAll fun c hc => ih c (mem_children_of_within hc)
      intro a
      cases hf : e.filter? with
      | some f =>
          rw [scan_of_filter hf]
          have hstart : (scanAll e.outside .start).hidden = [] := (hout .start).1
          have houter : ∀ x, x ∈ (scanAll e.outside .start).found ↔
              x ∈ e.outside.flatMap freeNames := by
            intro x
            rw [(hout .start).2]
            simp [Scan.start]
          obtain ⟨-, hinner⟩ := hin ((scanAll e.outside .start).hide f.bound.name)
          have hown : ∀ x,
              x ∈ (scanAll e.within ((scanAll e.outside .start).hide f.bound.name)).found ↔
                x ∈ e.freeNames := by
            intro x
            rw [hinner, mem_freeNames_of_filter hf]
            simp only [Scan.hide, hstart, houter, List.mem_singleton]
          obtain ⟨hhidden, hfound⟩ := Scan.finds_readAll _ a
          refine ⟨hhidden, fun x => ?_⟩
          rw [hfound, ← NameSet.mem_def, hown]
      | none =>
          by_cases href : ∃ n x, e = reference n x
          · obtain ⟨n, x, rfl⟩ := href
            rw [freeNames_reference]
            have hscan : (reference n x).scan a = a.read x := by rw [scan]
            rw [hscan]
            exact Scan.finds_read x a
          · have hnot : ∀ n x, e ≠ reference n x := fun n x h => href ⟨n, x, h⟩
            rw [scan_of_filter_none hf hnot, freeNames_of_filter_none hf hnot]
            exact finds_scanAll ih a

/-- **The names read are the free names.** -/
theorem mem_dependencies_iff {e : Expr} {x : String} :
    x ∈ e.dependencies ↔ x ∈ e.freeNames := by
  obtain ⟨-, hfound⟩ := finds_scan e .start
  rw [dependencies, hfound]
  simp [Scan.start]

end Expr
end QueryTyping
