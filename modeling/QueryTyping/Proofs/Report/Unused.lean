import QueryTyping.Proofs.Json.RoundTrip
import QueryTyping.Proofs.Report.Independence
import QueryTyping.Proofs.Typing.Composition
import QueryTyping.Proofs.Typing.Uses

/-!
# Variables that are warned of

A document is warned of its variables that no expression reads.  Reading is told from the trees,
without any state, but it comes to the same as being resolved: as long as the ids drawn for
variables are apart from those of the expressions, a variable is warned of if and only if no
reference in any expression is bound to its symbol.  It does not count that a filter binds a name
that is spelled alike.

Main statements: `rootOf_declared` says what the analyses start from, `resolves_iff` that a variable
is resolved if and only if it is read, and `unused_check` which warnings a report has and where they
stand.
-/

namespace QueryTyping

open Json

namespace Document

variable {d : Document} {settings : Settings} {base : State} {first last : NodeId}

/-- The root is the only scope.  In it stand the names that the document or the settings declare,
each once, with the types that the document gives where both do. -/
structure RootOf (d : Document) (settings : Settings) (s : State) : Prop where
  alone : s.scopes.outer = []
  once : (s.scopes.inner.map Symbol.name).Nodup
  names : ∀ x, x ∈ s.scopes.inner.map Symbol.name ↔
    x ∈ d.declared.keys ∨ x ∈ settings.declared.keys
  types : ∀ x, s.env x = ((d.declared.get? x).or (settings.declared.get? x)).map Declared.types

/-- Some reference in an expression is bound to the symbol that a name has in the state from which
the analyses start. -/
def Resolves (d : Document) (base : State) (ctx : Context) (x : String) : Prop :=
  ∃ symbol, base.symbol? x = some symbol ∧ ∃ e ∈ d.expressions, ∃ n y,
    .reference n y ∈ e.nodes ∧ (base.analyze ctx e).state.bindingOf? n.id = some symbol.binding

/-- After the declarations, their symbols are all there is in the scope. -/
theorem inner_eq
    (hrun : State.initial.declareAll (d.allVariables settings).declarations first =
      some (.ok base, last)) :
    base.scopes.inner = State.symbolsFrom first (d.allVariables settings).declarations :=
  State.inner_declareAll hrun

/-- **What the analyses start from.** -/
theorem rootOf_declared
    (hrun : State.initial.declareAll (d.allVariables settings).declarations first =
      some (.ok base, last))
    (hbase : base.Declares first (d.allVariables settings).declarations) :
    d.RootOf settings base := by
  have hnames : base.scopes.inner.map Symbol.name = (d.allVariables settings).keys := by
    rw [inner_eq hrun, State.names_symbolsFrom, Variables.names_declarations]
  have hget : ∀ x, (d.allVariables settings).get? x =
      (d.declared.get? x).or (settings.declared.get? x) :=
    NameMap.get_extend settings.declared d.declared
  refine ⟨hbase.outer, ?_, fun x => ?_, fun x => ?_⟩
  · rw [hnames]
    exact (d.allVariables settings).keys_increasing.nodup
  · rw [hnames, NameMap.mem_keys_iff, NameMap.mem_keys_iff, NameMap.mem_keys_iff, hget,
      Option.isSome_or, Bool.or_eq_true]
  · rw [hbase.env, Variables.lookup_declarations, hget]

/-- A name means a symbol of its own declaration. -/
theorem mem_symbols
    (hrun : State.initial.declareAll (d.allVariables settings).declarations first =
      some (.ok base, last))
    (hbase : base.Declares first (d.allVariables settings).declarations) {x : String}
    {symbol : Symbol} (hsymbol : base.symbol? x = some symbol) :
    symbol ∈ State.symbolsFrom first (d.allVariables settings).declarations ∧ symbol.name = x := by
  rw [← inner_eq hrun]
  exact State.mem_inner_of_symbol hbase.outer hsymbol

/-- The variables of the document mean something. -/
theorem RootOf.exists_symbol (hroot : d.RootOf settings base) {x : String}
    (hx : x ∈ d.declared.keys) : ∃ symbol, base.symbol? x = some symbol := by
  have htypes : (base.env x).isSome = true := by
    rw [hroot.types, Option.isSome_map, Option.isSome_or, NameMap.mem_keys_iff.mp hx, Bool.true_or]
  rw [State.env, Option.isSome_map] at htypes
  exact Option.isSome_iff_exists.mp htypes

/-- The binding of a variable is not an id of an expression. -/
theorem Apart.binding_not_mem (hapart : d.Apart settings first) {symbol : Symbol}
    (hmem : symbol ∈ State.symbolsFrom first (d.allVariables settings).declarations) :
    ∀ e ∈ d.expressions, symbol.binding ∉ e.ids := by
  intro e he hi
  obtain ⟨hle, hlt⟩ := State.binding_mem_range hmem
  rcases hapart e he _ hi with hbefore | hafter
  · exact absurd hle (Nat.not_le_of_lt hbefore)
  · exact absurd hafter (Nat.not_le_of_lt hlt)

/-- **Resolving and reading.**  If a variable is declared, then some reference is bound to its
symbol if and only if an expression reads its name. -/
theorem resolves_iff (hapart : d.Apart settings first)
    (hrun : State.initial.declareAll (d.allVariables settings).declarations first =
      some (.ok base, last))
    (hbase : base.Declares first (d.allVariables settings).declarations)
    (hunseen : ∀ e ∈ d.expressions, e.Unseen base) (ctx : Context) {x : String}
    (hx : x ∈ d.declared.keys) : d.Resolves base ctx x ↔ x ∈ d.dependencies := by
  obtain ⟨symbol, hsymbol⟩ := (rootOf_declared hrun hbase).exists_symbol hx
  obtain ⟨hmem, hname⟩ := mem_symbols hrun hbase hsymbol
  have honly : ∀ y other, base.symbol? y = some other → other.binding = symbol.binding → y = x := by
    intro y other hother hbinding
    obtain ⟨hmem', hname'⟩ := mem_symbols hrun hbase hother
    rw [← hname', ← hname, State.eq_of_binding_eq hmem hmem' hbinding]
  have hreads : ∀ e ∈ d.expressions, (x ∈ e.dependencies ↔ ∃ n y, .reference n y ∈ e.nodes ∧
      (base.analyze ctx e).state.bindingOf? n.id = some symbol.binding) := fun e he =>
    Expr.mem_dependencies_iff_bound ctx (hunseen e he) (fun i _ => hbase.unbound i) hsymbol
      (hapart.binding_not_mem hmem e he) honly
  rw [mem_dependencies]
  constructor
  · rintro ⟨other, hother, e, he, hbound⟩
    obtain rfl := Option.some.inj (hsymbol.symm.trans hother)
    exact ⟨e, he, (hreads e he).mpr hbound⟩
  · rintro ⟨e, he, hread⟩
    exact ⟨symbol, hsymbol, e, he, (hreads e he).mp hread⟩

/-- What an analysis reports are errors, and none of them is a warning about a variable. -/
theorem isError_of_analysis {e : Expr} (hunseen : e.Unseen base) (ctx : Context) (file : String)
    {w : Diagnostic} (hw : w ∈ (base.analyze ctx e).problems.map (·.diagnostic (some file))) :
    w.isError = true ∧ w.code ≠ Code.unusedVariable.text := by
  obtain ⟨p, hp, rfl⟩ := List.mem_map.mp hw
  rw [(State.analyze_eq hunseen ctx).1] at hp
  refine ⟨rfl, ?_⟩
  have hcode : (p.diagnostic (some file)).code = p.code := rfl
  rw [hcode]
  rcases Expr.code_judge e ctx base.env p hp with h | h | h
  · rw [h]
    decide
  · rw [h]
    decide
  · exact Problem.code_ne_of_isFormal h (c := .unusedVariable) (by decide)

/-- **Warnings are exact.**  A text that can be read is checked, whatever the settings are: all
variables are declared in the root scope, and each expression is analysed from there.  The report has
first the errors of these analyses, expression by expression, and then the warnings.  As long as the
ids drawn for variables are apart, there is one warning for each variable of the document to whose
symbol no reference is bound, in the order of the names. -/
theorem unused_check {text : String} {start stop : NodeId}
    (hread : read text start = some (d, stop)) (settings : Settings) (context : Option Context)
    (file : String) (hapart : d.Apart settings first) :
    let ctx := context.getD settings.context
    let errors (base : State) : List Diagnostic := d.expressions.flatMap fun e =>
      (base.analyze ctx e).problems.map (·.diagnostic (some file))
    let warnings : List Diagnostic := d.unused.map fun x =>
      { code := "W0001", severity := .warning, span := .unknown, file := some file, notes := []
        message := "Variable `" ++ x ++ "` is declared but never used" }
    ∃ base last,
      State.initial.declareAll (d.allVariables settings).declarations first =
        some (.ok base, last) ∧
      d.check settings context file first = some (.ok (d.reportOn base ctx file), last) ∧
      d.RootOf settings base ∧
      (d.reportOn base ctx file).diagnostics = errors base ++ warnings ∧
      (d.reportOn base ctx file).types =
        d.expressions.map (fun e => (base.analyze ctx e).rootTypes) ∧
      (∀ w ∈ errors base, w.isError = true ∧ w.code ≠ "W0001") ∧
      Increasing d.unused ∧
      ∀ x, x ∈ d.unused ↔ x ∈ d.declared.keys ∧ ¬ d.Resolves base ctx x := by
  intro ctx errors warnings
  obtain ⟨base, last, hrun, hbase, hcheck⟩ := d.check_eq settings context file first
  have hnodup : ∀ e ∈ d.expressions, e.ids.Nodup := by
    obtain ⟨v, -, hv⟩ := Draw.lift_bind_eq_some hread
    exact fun e he => nodup_ids hv he
  have hunseen := unseen_of_apart hapart hnodup hbase
  have hdiagnostics : (d.reportOn base ctx file).diagnostics = errors base ++ warnings := by
    rw [reportOn, List.flatMap_map]
    rfl
  refine ⟨base, last, hrun, hcheck, rootOf_declared hrun hbase, hdiagnostics, List.map_map,
    fun w hw => ?_, ?_, fun x => ?_⟩
  · obtain ⟨e, he, hw⟩ := List.mem_flatMap.mp hw
    exact isError_of_analysis (hunseen e he) ctx file hw
  · exact List.Pairwise.filter _ d.declared.keys_increasing
  · rw [mem_unused]
    exact and_congr_right fun hx =>
      not_congr (resolves_iff hapart hrun hbase hunseen ctx hx).symm

/-- A filter binds a name that is spelled like a variable of the document.  Its list is another one,
which the settings declare as well, and a name that nobody declares is an error. -/
theorem unused_check_filter :
    let name (x : String) : List (String × Json) :=
      [("type", .string "Variable"), ("name", .string x)]
    let doc : Json := .object
      [("variables", .object [("x", .string "String"), ("xs", .string "List<Integer>")]),
        ("expressions", .array [.object [("type", .string "ListComprehension"),
          ("variable", .object [("name", .string "x")]), ("list", .object (name "xs")),
          ("projection", .object (name "x"))], .object (name "y")])]
    let settings : Settings := ⟨.simple, .ofList [("xs", .one .string), ("z", .one .float)]⟩
    ∃ d first, read doc.render 1 = some (d, first) ∧ d.Apart settings first ∧
      ∃ base last,
        d.check settings none "q.json" first =
          some (.ok (d.reportOn base .simple "q.json"), last) ∧
        (d.reportOn base .simple "q.json").diagnostics =
          (d.expressions.flatMap fun e =>
            (base.analyze .simple e).problems.map (·.diagnostic (some "q.json"))) ++
          [⟨"W0001", .warning, "Variable `x` is declared but never used", .unknown, some "q.json",
            []⟩] ∧
        (d.reportOn base .simple "q.json").diagnostics.map (fun w => (w.code, w.severity, w.message)) =
          [("E1002", .error, "Variable `y` not defined"),
            ("W0001", .warning, "Variable `x` is declared but never used")] ∧
        base.env "xs" = some (.covariant (.list .integer)) ∧
        d.Resolves base .simple "xs" ∧ ¬ d.Resolves base .simple "x" := by
  intro name doc settings
  have hreadable : doc.Readable := by
    simp [doc, name, Readable, ReadableFields, ReadableItems]
  have hv : readStrict? doc.render = some doc := readStrict_render hreadable (by decide)
  have hchecked : ((read doc.render 1).any fun r => decide (r.1.Apart settings r.2) &&
      (r.1.declared.get? "xs" == some (.one (.list .integer)) &&
        (r.1.declared.keys == ["x", "xs"] && r.1.unused == ["x"])) &&
      ((r.1.check settings none "q.json" r.2).any fun outcome => outcome.1.toOption.any fun report =>
        report.diagnostics.map (fun w => (w.code, w.severity, w.message)) ==
          [("E1002", .error, "Variable `y` not defined"),
            ("W0001", .warning, "Variable `x` is declared but never used")])) = true := by
    rw [read_eq hv]
    decide +kernel
  obtain ⟨⟨d, first⟩, hread, hd⟩ := (Option.any_eq_true _ _).mp hchecked
  simp only [Bool.and_eq_true, decide_eq_true_eq, beq_iff_eq] at hd
  obtain ⟨⟨hapart, hget, hkeys, hunused⟩, hrun⟩ := hd
  obtain ⟨base, last, -, hcheck, hroot, hdiagnostics, -, -, -, hwarned⟩ :=
    unused_check hread settings none "q.json" hapart
  have hxs : d.Resolves base .simple "xs" := by
    by_contra hnot
    have hmem := (hwarned "xs").mpr ⟨by simp [hkeys], hnot⟩
    simp [hunused] at hmem
  have hx : ¬ d.Resolves base .simple "x" := ((hwarned "x").mp (by simp [hunused])).2
  rw [hunused] at hdiagnostics
  rw [hcheck] at hrun
  refine ⟨d, first, hread, hapart, base, last, hcheck, hdiagnostics, ?_, ?_, hxs, hx⟩
  · exact beq_iff_eq.mp hrun
  · rw [hroot.types, hget]
    rfl

end Document
end QueryTyping
