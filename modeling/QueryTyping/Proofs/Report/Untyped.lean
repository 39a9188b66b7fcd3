import QueryTyping.Proofs.Report.Independence
import QueryTyping.Proofs.Typing.Blame
import QueryTyping.Proofs.Typing.Uses

/-!
# Nodes without types that are not reported

An expectation that leaves a node without types is reported, so a report without errors should be
about nodes that all have types.  It is, if the names have types to begin with.  But a variable may
be declared with an empty list of alternatives: it has no types, a reference to it has none either,
and no expectation has failed that could be reported.

Nothing else gets around the reports.  A free reference to such a variable keeps no types, whatever
is expected of it later, so on a report without errors the nodes tell exactly whether an expression
reads one.

Main statements: `isEmpty_of_dependency` is about names without types, `isEmpty_of_silent` about
names that have some, and `types_check` puts both together for the check of a document.
-/

namespace QueryTyping

open Json

/-- A declaration gives types unless it is an empty list of alternatives. -/
theorem Declared.isEmpty_types {t : Declared} : t.types.isEmpty = true ↔ t = .alternatives [] := by
  cases t with
  | one ty => simp [types]
  | alternatives tys =>
      cases tys with
      | nil => exact ⟨fun _ => rfl, fun _ => rfl⟩
      | cons ty tys => simp [types, TypeSet.isEmpty_unions]

/-- None of the names is declared with an empty list of alternatives. -/
def Variables.Typed (vars : Variables) (names : NameSet) : Prop :=
  ∀ x ∈ names, vars.get? x ≠ some (.alternatives [])

/-- What is left of a node is among what was specified. -/
theorem TypeInfo.isEmpty_actual {info : TypeInfo} (h : info.specified.isEmpty = true) :
    info.actual.isEmpty = true := by
  rw [TypeSet.isEmpty_iff] at h ⊢
  intro t ht
  cases hexpected : info.expected with
  | none => exact h t (by simpa [actual, hexpected] using ht)
  | some expected =>
      rw [actual, hexpected] at ht
      exact h t (TypeSet.mem_inter.mp ht).1

namespace Expr

variable {e : Expr} {s : State}

/-- **A name without types.**  An expression that reads one has a node without types, whatever else
is reported. -/
theorem isEmpty_of_dependency (ctx : Context) (hunseen : e.Unseen s)
    (hunbound : ∀ i ∈ e.ids, s.bindingOf? i = none) {x : String} (hx : x ∈ e.dependencies)
    {types : TypeSet} (henv : s.env x = some types) (hempty : types.isEmpty = true) :
    ∃ c ∈ e.nodes, ((s.analyze ctx e).types c).isEmpty = true := by
  obtain ⟨symbol, hsymbol, rfl⟩ := Option.map_eq_some_iff.mp henv
  obtain ⟨n, hnode, -, info, hinfo, hsame⟩ :=
    reference_of_dependency ctx hunseen hunbound hx hsymbol
  refine ⟨reference n x, hnode, ?_⟩
  have hid : (reference n x).id = n.id := rfl
  rw [Analysis.types_analyze, hid, State.types, hinfo]
  exact TypeInfo.isEmpty_actual (hsame ▸ hempty)

/-- **Names with types.**  If nothing is reported, every node has types. -/
theorem isEmpty_of_silent (ctx : Context) (hunseen : e.Unseen s) (hnames : e.NamesTyped s.env)
    (hsilent : (s.analyze ctx e).problems = []) :
    ∀ c ∈ e.nodes, ((s.analyze ctx e).types c).isEmpty = false := by
  intro c hc
  rw [Analysis.types_analyze]
  obtain ⟨hproblems, hshows⟩ := run_judge e ctx s hunseen
  have haccount := (judge_accounted e ctx hnames).perm
  rw [← hproblems, ← hshows.infos, emptied_items] at haccount
  have hblamed : blamed ((e.check ctx).run s).problems = [] := congrArg blamed hsilent
  rw [hblamed] at haccount
  have hnobody := List.map_eq_nil_iff.mp haccount.symm.eq_nil
  simpa using List.filter_eq_nil_iff.mp hnobody c hc

/-- Where nothing is reported, the nodes tell whether the names have types. -/
theorem isEmpty_nodes_iff (ctx : Context) (hunseen : e.Unseen s)
    (hunbound : ∀ i ∈ e.ids, s.bindingOf? i = none)
    (hsilent : (s.analyze ctx e).problems = []) :
    (∀ c ∈ e.nodes, ((s.analyze ctx e).types c).isEmpty = false) ↔ e.NamesTyped s.env := by
  constructor
  · intro hnodes x hx types henv
    rw [← Bool.not_eq_true]
    intro hempty
    obtain ⟨c, hc, hnone⟩ :=
      isEmpty_of_dependency ctx hunseen hunbound (mem_dependencies_iff.mpr hx) henv hempty
    rw [hnodes c hc] at hnone
    cases hnone
  · intro hnames
    exact isEmpty_of_silent ctx hunseen hnames hsilent

end Expr

namespace Document

variable {d : Document} {settings : Settings} {base : State} {first : NodeId}

/-- A report has no errors if the expressions have no problems. -/
theorem hasErrors_reportOn (d : Document) (base : State) (ctx : Context) (file : String) :
    (d.reportOn base ctx file).diagnostics.hasErrors = false ↔
      ∀ e ∈ d.expressions, (base.analyze ctx e).problems = [] := by
  have hwarnings : (d.unused.map (unusedWarning file)).any Diagnostic.isError = false := by
    rw [List.any_eq_false]
    intro w hw
    obtain ⟨x, -, rfl⟩ := List.mem_map.mp hw
    exact Bool.false_ne_true
  have hproblems : ∀ ps : List Problem,
      (ps.map (·.diagnostic (some file))).any Diagnostic.isError = false ↔ ps = [] := by
    intro ps
    cases ps with
    | nil => exact ⟨fun _ => rfl, fun _ => rfl⟩
    | cons p ps => exact ⟨nofun, nofun⟩
  rw [reportOn, Bag.hasErrors, List.any_append, hwarnings, Bool.or_false, List.any_flatMap,
    List.any_map, List.any_eq_false]
  refine forall₂_congr fun e _ => ?_
  rw [Bool.not_eq_true]
  exact hproblems _

/-- The expressions read names with types if no variable that they read is declared without. -/
theorem namesTyped_iff (hbase : base.Declares first (d.allVariables settings).declarations) :
    (∀ e ∈ d.expressions, e.NamesTyped base.env) ↔
      (d.allVariables settings).Typed d.dependencies := by
  have henv : ∀ x types, base.env x = some types ↔
      ∃ t, (d.allVariables settings).get? x = some t ∧ t.types = types := by
    intro x types
    rw [hbase.env, Variables.lookup_declarations, Option.map_eq_some_iff]
  constructor
  · intro hnames x hx hget
    obtain ⟨e, he, hxe⟩ := mem_dependencies.mp hx
    have hmeant := (henv x _).mpr ⟨_, hget, rfl⟩
    have htypes := hnames e he x (Expr.mem_dependencies_iff.mp hxe) _ hmeant
    rw [Declared.isEmpty_types.mpr rfl] at htypes
    cases htypes
  · intro htyped e he x hx types hx'
    obtain ⟨t, hget, rfl⟩ := (henv x types).mp hx'
    rw [← Bool.not_eq_true, Declared.isEmpty_types]
    rintro rfl
    exact htyped x (mem_dependencies.mpr ⟨e, he, Expr.mem_dependencies_iff.mpr hx⟩) hget

/-- **No errors, and types everywhere.**  A text that can be read is checked, whatever the settings
are.  As long as the ids drawn for variables are apart, a report without errors is about nodes that
all have types, unless an expression reads a variable that is declared with an empty list of
alternatives, and then some node has none.  If no expression reads one, then no expression is
reported to have no types, with errors or without. -/
theorem types_check {text : String} {start stop : NodeId}
    (hread : read text start = some (d, stop)) (settings : Settings) (context : Option Context)
    (file : String) (hapart : d.Apart settings first) :
    let vars := d.allVariables settings
    let ctx := context.getD settings.context
    ∃ base report last,
      State.initial.declareAll vars.declarations first = some (.ok base, last) ∧
      d.check settings context file first = some (.ok report, last) ∧
      (report.diagnostics.hasErrors = false →
        ((∀ e ∈ d.expressions, ∀ c ∈ e.nodes, ((base.analyze ctx e).types c).isEmpty = false) ↔
          vars.Typed d.dependencies)) ∧
      (vars.Typed d.dependencies → ∀ types ∈ report.types, types.isEmpty = false) := by
  intro vars ctx
  obtain ⟨base, last, hdeclared, hbase, hcheck⟩ := d.check_eq settings context file first
  have hnodup : ∀ e ∈ d.expressions, e.ids.Nodup := by
    obtain ⟨v, -, hv⟩ := Draw.lift_bind_eq_some hread
    exact fun e he => nodup_ids hv he
  have hunseen := unseen_of_apart hapart hnodup hbase
  refine ⟨base, _, last, hdeclared, hcheck, fun hsilent => ?_, fun htyped types ht => ?_⟩
  · rw [hasErrors_reportOn] at hsilent
    rw [← namesTyped_iff hbase]
    refine forall₂_congr fun e he => ?_
    exact Expr.isEmpty_nodes_iff ctx (hunseen e he) (fun i _ => hbase.unbound i) (hsilent e he)
  · rw [reportOn, List.map_map, List.mem_map] at ht
    obtain ⟨e, he, rfl⟩ := ht
    have hnames := (namesTyped_iff hbase).mpr htyped e he
    rw [Function.comp_apply, (State.analyze_eq (hunseen e he) ctx).2]
    exact Expr.judge_types_nonempty e ctx hnames

/-- All is well with a list of a variable that has two alternatives. -/
theorem types_check_alternatives :
    let doc : Json := .object
      [("variables", .object [("x", .array [.string "Integer", .string "String"])]),
        ("expressions", .array [.object [("type", .string "ListLit"),
          ("items", .array [.object [("type", .string "Variable"), ("name", .string "x")]])]])]
    ∃ d first, read doc.render 1 = some (d, first) ∧ d.Apart .default first ∧
      (d.allVariables .default).Typed d.dependencies ∧
      ∃ base report last,
        State.initial.declareAll (d.allVariables .default).declarations first =
          some (.ok base, last) ∧
        d.check .default none "q.json" first = some (.ok report, last) ∧
        report.diagnostics.hasErrors = false ∧
        (∀ e ∈ d.expressions, ∀ c ∈ e.nodes, ((base.analyze .simple e).types c).isEmpty = false) ∧
        ∀ types ∈ report.types, types.isEmpty = false := by
  intro doc
  have hv : readStrict? doc.render = some doc := by decide +kernel
  have hchecked : ((read doc.render 1).any fun r => decide (r.1.Apart .default r.2) &&
      ((r.1.dependencies.toList.all fun x =>
        (r.1.allVariables .default).get? x != some (.alternatives [])) &&
      (r.1.check .default none "q.json" r.2).any fun c => match c.1 with
        | .ok report => !report.diagnostics.hasErrors
        | .error _ => false)) = true := by
    rw [read_eq hv]
    decide +kernel
  obtain ⟨⟨d, first⟩, hread, hd⟩ := (Option.any_eq_true _ _).mp hchecked
  simp only [Bool.and_eq_true, decide_eq_true_eq] at hd
  obtain ⟨hapart, hall, hreport⟩ := hd
  have htyped : (d.allVariables .default).Typed d.dependencies := by
    intro x hx
    simpa using List.all_eq_true.mp hall x hx
  obtain ⟨base, report, last, hdeclared, hcheck, hnodes, htypes⟩ :=
    types_check hread .default none "q.json" hapart
  have hsilent : report.diagnostics.hasErrors = false := by
    rw [hcheck] at hreport
    simpa using hreport
  exact ⟨d, first, hread, hapart, htyped, base, report, last, hdeclared, hcheck, hsilent,
    (hnodes hsilent).mpr htyped, htypes htyped⟩

/-- A variable without alternatives has no types, and nothing is reported. -/
theorem untyped_without_error :
    let doc : Json := .object [("variables", .object [("x", .array [])]),
      ("expressions", .array [.object [("type", .string "Variable"), ("name", .string "x")]])]
    readStrict? doc.render = some doc ∧
      ∃ d first report last, read doc.render 1 = some (d, first) ∧ d.Apart .default first ∧
        d.check .default none "q.json" first = some (.ok report, last) ∧
        report.diagnostics.hasErrors = false ∧ report.types = [.empty] := by
  intro doc
  have hv : readStrict? doc.render = some doc := by decide +kernel
  refine ⟨hv, ?_⟩
  have hchecked : ((read doc.render 1).any fun r => decide (r.1.Apart .default r.2) &&
      (r.1.check .default none "q.json" r.2).any fun c => match c.1 with
        | .ok report => !report.diagnostics.hasErrors && report.types == [.empty]
        | .error _ => false) = true := by
    rw [read_eq hv]
    decide +kernel
  obtain ⟨⟨d, first⟩, hread, hd⟩ := (Option.any_eq_true _ _).mp hchecked
  obtain ⟨hapart, hreport⟩ := (Bool.and_eq_true _ _).mp hd
  obtain ⟨⟨report | report, last⟩, hcheck, hfound⟩ := (Option.any_eq_true _ _).mp hreport
  · cases hfound
  · obtain ⟨herrors, htypes⟩ := (Bool.and_eq_true _ _).mp hfound
    refine ⟨d, first, report, last, hread, of_decide_eq_true hapart, hcheck, ?_, ?_⟩
    · simpa using herrors
    · simpa using htypes

end Document
end QueryTyping
