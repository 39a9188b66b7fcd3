import QueryTyping.Proofs.Reading.Drawn
import QueryTyping.Proofs.Report.Declared
import QueryTyping.Proofs.Typing.Independence

/-!
# Reports and ids

The ids of a document come from its text, from the fresh ones that are drawn while it is read, and
from numbering anew; the variables that it may use draw theirs afterwards.  An expression has
distinct ids for itself, but nothing keeps an id of an expression apart from the id of a variable.
As long as they are apart, a report has nothing to do with ids.

Main statements: `check_eq` says that a check always gives a report, `check_of_idless` that the
report about a text without ids is the same wherever the fresh ones start, and `check_of_reid` that
it stays the same when ids are replaced or left off, as long as the variables' are apart.
-/

namespace QueryTyping

open Json

/-- What an analysis finds is the verdict on the expression. -/
theorem State.analyze_eq {e : Expr} {s : State} (h : e.Unseen s) (ctx : Context) :
    (s.analyze ctx e).problems = (e.judge ctx s.env).problems ∧
      (s.analyze ctx e).rootTypes = (e.judge ctx s.env).types := by
  obtain ⟨hproblems, hshows⟩ := Expr.run_judge e ctx s h
  exact ⟨hproblems, hshows.types⟩

/-- What is said about each of some expressions is the same if it is for any two that are equal but
for their ids. -/
theorem map_alike {β : Type} {es es' : List Expr} (halike : AlikeAll es es') {f f' : Expr → β}
    (h : ∀ e ∈ es, ∀ e' ∈ es', e.Alike e' → f' e' = f e) : es'.map f' = es.map f := by
  induction es generalizing es' with
  | nil =>
      cases es' with
      | nil => rfl
      | cons e' es' => cases halike
  | cons e es ih =>
      cases es' with
      | nil => cases halike
      | cons e' es' =>
          rw [AlikeAll, withoutIdsAll, withoutIdsAll] at halike
          obtain ⟨he, hes⟩ := List.cons.inj halike
          have hrest := ih hes fun d hd d' hd' =>
            h d (List.mem_cons_of_mem _ hd) d' (List.mem_cons_of_mem _ hd')
          rw [List.map_cons, List.map_cons, hrest,
            h e List.mem_cons_self e' List.mem_cons_self he]

namespace Document

/-- No id that is drawn for a variable is the id of a node or a binding of the document. -/
def Apart (d : Document) (settings : Settings) (first : NodeId) : Prop :=
  ∀ e ∈ d.expressions, ∀ i ∈ e.ids,
    i < first ∨ first + (d.allVariables settings).declarations.length ≤ i

instance (d : Document) (settings : Settings) (first : Nat) : Decidable (d.Apart settings first) :=
  inferInstanceAs (Decidable (∀ e ∈ d.expressions, ∀ i ∈ e.ids,
    i < first ∨ first + (d.allVariables settings).declarations.length ≤ i))

variable {d d' : Document}

/-- Which names are read has nothing to do with ids. -/
theorem dependencies_alike (h : d.Alike d') : d'.dependencies = d.dependencies := by
  have hnames : d'.expressions.map Expr.dependencies = d.expressions.map Expr.dependencies := by
    refine map_alike h.expressions fun e _ e' _ he => ?_
    rw [← e'.dependencies_withoutIds, he, e.dependencies_withoutIds]
  have hfold : ∀ es : List Expr,
      es.foldl (fun names e => names.union e.dependencies) NameSet.empty =
        (es.map Expr.dependencies).foldl NameSet.union .empty := by
    intro es
    rw [List.foldl_map]
  rw [dependencies, dependencies, hfold, hfold, hnames]

/-- **Two reports.**  What is reported on new ids has nothing to do with them. -/
theorem reportOn_alike (h : d.Alike d') {base base' : State} (henv : base'.env = base.env)
    (hunseen : ∀ e ∈ d.expressions, e.Unseen base)
    (hunseen' : ∀ e ∈ d'.expressions, e.Unseen base') (ctx : Context) (file : String) :
    d'.reportOn base' ctx file = d.reportOn base ctx file := by
  have hverdict : ∀ e e' : Expr, e.Alike e' → e'.judge ctx base'.env = e.judge ctx base.env :=
    fun e e' he => Expr.judge_alike he ctx fun x _ => congrFun henv x
  have hproblems : d'.expressions.map (fun e => (base'.analyze ctx e).problems) =
      d.expressions.map fun e => (base.analyze ctx e).problems := by
    refine map_alike h.expressions fun e he e' he' halike => ?_
    rw [(State.analyze_eq (hunseen' e' he') ctx).1, (State.analyze_eq (hunseen e he) ctx).1,
      hverdict e e' halike]
  have htypes : d'.expressions.map (fun e => (base'.analyze ctx e).rootTypes) =
      d.expressions.map fun e => (base.analyze ctx e).rootTypes := by
    refine map_alike h.expressions fun e he e' he' halike => ?_
    rw [(State.analyze_eq (hunseen' e' he') ctx).2, (State.analyze_eq (hunseen e he) ctx).2,
      hverdict e e' halike]
  have hdiagnostics : ∀ (d : Document) (base : State),
      (d.expressions.map (base.analyze ctx)).flatMap
          (fun a => a.problems.map (·.diagnostic (some file))) =
        (d.expressions.map fun e => (base.analyze ctx e).problems).flatMap
          fun problems => problems.map (·.diagnostic (some file)) := by
    intro d base
    rw [List.flatMap_map, List.flatMap_map]
  have hunused : d'.unused = d.unused := by
    rw [unused, unused, dependencies_alike h, h.declared]
  simp only [reportOn, hdiagnostics, hproblems, hunused, List.map_map, dependencies_alike h]
  congr 1

/-- **A check always gives a report**, on a state in which just the variables are declared. -/
theorem check_eq (d : Document) (settings : Settings) (context : Option Context) (file : String)
    (first : NodeId) :
    ∃ base stop,
      State.initial.declareAll (d.allVariables settings).declarations first =
        some (.ok base, stop) ∧
      base.Declares first (d.allVariables settings).declarations ∧
      d.check settings context file first =
        some (.ok (d.reportOn base (context.getD settings.context) file), stop) := by
  obtain ⟨base, hrun, hdeclares⟩ :=
    State.declareAll_initial (d.allVariables settings).nodup_declarations first
  refine ⟨base, first + (d.allVariables settings).declarations.length, hrun, hdeclares, ?_⟩
  rw [check]
  simp only [bind, StateT.bind, Option.bind, hrun]
  rfl

/-- Nothing is known about the ids of the expressions if they are apart from the variables'. -/
theorem unseen_of_apart {settings : Settings} {first : NodeId} (h : d.Apart settings first)
    (hnodup : ∀ e ∈ d.expressions, e.ids.Nodup) {base : State}
    (hbase : base.Declares first (d.allVariables settings).declarations) :
    ∀ e ∈ d.expressions, e.Unseen base :=
  fun e he => ⟨hnodup e he, fun i hi => hbase.unknown i (h e he i hi)⟩

theorem read_eq {text : String} {v : Json} (hv : Json.readStrict? text = some v) (start : NodeId) :
    read text start = ofJson v start := by
  rw [read, hv]
  rfl

/-- Documents that are equal but for ids are checked alike: there is always a report, the names
that are read are the same, and so is everything else if the ids drawn for variables are apart. -/
theorem check_alike (halike : d.Alike d') (hnodup : ∀ e ∈ d.expressions, e.ids.Nodup)
    (hnodup' : ∀ e ∈ d'.expressions, e.ids.Nodup) (settings : Settings) (context : Option Context)
    (file : String) (first first' : NodeId) :
    ∃ report report' last last',
      d.check settings context file first = some (.ok report, last) ∧
      d'.check settings context file first' = some (.ok report', last') ∧
      report'.dependencies = report.dependencies ∧
      (d.Apart settings first → d'.Apart settings first' → report' = report) := by
  obtain ⟨base, last, -, hbase, hcheck⟩ := d.check_eq settings context file first
  obtain ⟨base', last', -, hbase', hcheck'⟩ := d'.check_eq settings context file first'
  refine ⟨_, _, last, last', hcheck, hcheck', dependencies_alike halike, ?_⟩
  intro hapart hapart'
  have hvars : d'.allVariables settings = d.allVariables settings := by
    rw [allVariables, allVariables, halike.declared]
  have henv : base'.env = base.env := by
    funext x
    rw [hbase'.env, hbase.env, hvars]
  have hunseen := unseen_of_apart hapart hnodup hbase
  have hunseen' := unseen_of_apart hapart' hnodup' hbase'
  exact reportOn_alike halike henv hunseen hunseen' _ file

/-- Ids that are drawn later are apart from the ids of a document whose text gives none. -/
theorem apart_of_idless {v : Json} (h : Idless .document v) {start stop first : Nat}
    (hread : ofJson v start = some (d, stop)) (hle : stop ≤ first) (settings : Settings) :
    d.Apart settings first := by
  intro e he i hi
  have hrange := (ofJson_drawn h start d stop hread).range i (List.mem_flatMap.mpr ⟨e, he, hi⟩)
  exact Or.inl (Nat.lt_of_lt_of_le hrange.2 hle)

/-- **Texts without ids.**  The report about a document whose text gives no ids is the same wherever
the fresh ones start, as long as variables draw theirs after the document has been read. -/
theorem check_of_idless {text : String} {v : Json} (hv : readStrict? text = some v)
    (h : Idless .document v) {start stop : NodeId} (hread : read text start = some (d, stop))
    (start' : NodeId) :
    ∃ d' stop', read text start' = some (d', stop') ∧
      ∀ (settings : Settings) (context : Option Context) (file : String) (first first' : NodeId),
        stop ≤ first → stop' ≤ first' →
          ∃ report last last',
            d.check settings context file first = some (.ok report, last) ∧
            d'.check settings context file first' = some (.ok report, last') := by
  rw [read_eq hv] at hread
  obtain ⟨d', stop', hread', halike⟩ :=
    ofJson_follows (.same .document v) start d stop hread start'
  refine ⟨d', stop', (read_eq hv start').trans hread', ?_⟩
  intro settings context file first first' hfirst hfirst'
  obtain ⟨report, report', last, last', hcheck, hcheck', -, hsame⟩ :=
    check_alike halike (fun _ he => nodup_ids hread he) (fun _ he => nodup_ids hread' he) settings
      context file first first'
  rw [hsame (apart_of_idless h hread hfirst settings)
    (apart_of_idless h hread' hfirst' settings)] at hcheck'
  exact ⟨report, last, last', hcheck, hcheck'⟩

/-- **Ids and reports.**  When ids in the text of a document are replaced or left off, and wherever
the fresh ids start, the text is still read, its check still gives a report, and the same names are
read.  The whole report is the same if the ids drawn for variables are apart from the others. -/
theorem check_of_reid {text text' : String} {v v' : Json} (hv : readStrict? text = some v)
    (hv' : readStrict? text' = some v') (hreid : Reid .document v v')
    {start stop : NodeId} (hread : read text start = some (d, stop)) (start' : NodeId) :
    ∃ d' stop', read text' start' = some (d', stop') ∧
      ∀ (settings : Settings) (context : Option Context) (file : String) (first first' : NodeId),
        ∃ report report' last last',
          d.check settings context file first = some (.ok report, last) ∧
          d'.check settings context file first' = some (.ok report', last') ∧
          report'.dependencies = report.dependencies ∧
          (d.Apart settings first → d'.Apart settings first' → report' = report) := by
  rw [read_eq hv] at hread
  obtain ⟨d', stop', hread', halike⟩ := ofJson_follows hreid start d stop hread start'
  refine ⟨d', stop', (read_eq hv' start').trans hread', ?_⟩
  exact check_alike halike (fun _ he => nodup_ids hread he) (fun _ he => nodup_ids hread' he)

/-- A list with a given id, and the same one without it in a document that is read later on. -/
theorem check_of_reid_list :
    let own := [("items", Json.array [.object [("type", .string "Variable"), ("name", .string "x")]])]
    let doc (fields : List (String × Json)) : Json :=
      .object [("variables", .object [("x", .string "Integer")]),
        ("expressions", .array [.object (("type", .string "ListLit") :: fields)])]
    ∃ d stop d' stop', read (doc (("id", .int 9) :: own)).render 1 = some (d, stop) ∧
      read (doc own).render 5 = some (d', stop') ∧
      d.Apart .default stop ∧ d'.Apart .default stop' ∧
      ∃ report last last', d.check .default none "q.json" stop = some (.ok report, last) ∧
        d'.check .default none "q.json" stop' = some (.ok report, last') := by
  intro own doc
  have hv : readStrict? (doc (("id", .int 9) :: own)).render = some (doc (("id", .int 9) :: own)) := by
    decide +kernel
  have hv' : readStrict? (doc own).render = some (doc own) := by decide +kernel
  have hdoc : Reid .document (doc (("id", .int 9) :: own)) (doc own) := by
    refine .document (.cons (.same _ _) (.cons (.nodes (.cons ?_ (.nil _))) (.nil _)))
    exact .node (k := .list) (by decide) (.cons (.same _ _) (.leave (.same _ own)))
  have happart : ((read (doc (("id", .int 9) :: own)).render 1).any fun r =>
      decide (r.1.Apart .default r.2)) = true := by rw [read_eq hv]; decide +kernel
  have happart' : ((read (doc own).render 5).any fun r =>
      decide (r.1.Apart .default r.2)) = true := by rw [read_eq hv']; decide +kernel
  obtain ⟨⟨d, stop⟩, hread, hd⟩ := (Option.any_eq_true _ _).mp happart
  obtain ⟨⟨e, after⟩, hread', he⟩ := (Option.any_eq_true _ _).mp happart'
  obtain ⟨d', stop', hd', hall⟩ := check_of_reid hv hv' hdoc hread 5
  obtain ⟨rfl, rfl⟩ : e = d' ∧ after = stop' := by simpa using hread'.symm.trans hd'
  obtain ⟨report, report', last, last', hcheck, hcheck', -, hsame⟩ :=
    hall .default none "q.json" stop after
  rw [hsame (of_decide_eq_true hd) (of_decide_eq_true he)] at hcheck'
  exact ⟨d, stop, e, after, hread, hread', of_decide_eq_true hd, of_decide_eq_true he, report, last,
    last', hcheck, hcheck'⟩

/-- The given id of a string is drawn again for a variable, and the two conflict. -/
theorem conflict_of_given_id :
    let doc (fields : List (String × Json)) : Json :=
      .object [("variables", .object [("x", .string "Integer")]),
        ("expressions", .array [.object (("type", .string "StringLit") :: fields)])]
    let given := doc [("id", .int 1), ("value", .string "a")]
    let left := doc [("value", .string "a")]
    let codes (v : Json) : Option (List String) := do
      let (d, first) ← read v.render 1
      let (checked, _) ← d.check .default none "q.json" first
      return (← checked.toOption).diagnostics.map (·.code)
    readStrict? given.render = some given ∧ readStrict? left.render = some left ∧
      Reid .document given left ∧
      codes given = some ["E1004", "W0001"] ∧ codes left = some ["W0001"] := by
  intro doc given left codes
  have hgiven : readStrict? given.render = some given := by decide +kernel
  have hleft : readStrict? left.render = some left := by decide +kernel
  have hreid : Reid .document given left := by
    refine .document (.cons (.same _ _) (.cons (.nodes (.cons ?_ (.nil _))) (.nil _)))
    exact .node (k := .string) (by decide) (.cons (.same _ _) (.leave (.same _ _)))
  refine ⟨hgiven, hleft, hreid, ?_, ?_⟩
  · simp only [codes, read_eq hgiven]
    decide +kernel
  · simp only [codes, read_eq hleft]
    decide +kernel

end Document
end QueryTyping
