import QueryTyping.Proofs.Typing.Undefined

/-!
# Recovery from undefined names

A reference to a name that nobody has declared is reported, and from there on it is treated as a
value that may be of any type.  So a check reports the same, the undefined names apart, and finds the
same types if such a name is declared with all types before the check starts.

Verdicts on the two sides differ in what is missing: where nothing is known about a reference to
nothing, the declared name has an entry with all types.  To complete a verdict fills in such entries
and drops the reports of undefined names, and every way to put verdicts together commutes with it.

Main statements: `judge_complete` says that an environment in which every name has types gives the
completed verdict, `exists_declared` that names without a meaning can be declared, and
`check_recovers` compares the checks before and after that.
-/

namespace QueryTyping

/-- The problems that do not report an undefined name. -/
def besidesUndefined (ps : List Problem) : List Problem := ps.filter fun p => !p.isUndefined

theorem besidesUndefined_append (ps qs : List Problem) :
    besidesUndefined (ps ++ qs) = besidesUndefined ps ++ besidesUndefined qs :=
  List.filter_append ps qs

/-- Nothing is left out where no undefined name is reported. -/
theorem besidesUndefined_eq_self {ps : List Problem} (h : ps.filter Problem.isUndefined = []) :
    besidesUndefined ps = ps := by
  rw [besidesUndefined, List.filter_eq_self]
  intro p hp
  have hp' := List.filter_eq_nil_iff.mp h p hp
  simpa using hp'

/-- The environment in which every name has types. -/
def Env.complete (env : Env) : Env := fun x => some ((env x).getD .all)

theorem Env.complete_bind (env : Env) (x : String) (types : TypeSet) :
    (env.bind x types).complete = env.complete.bind x types := by
  funext y
  unfold Env.complete Env.bind
  by_cases hy : y = x
  · rw [if_pos hy, if_pos hy]
    rfl
  · rw [if_neg hy, if_neg hy]

namespace Verdict

/-- The verdict with an entry for everything and without reports of undefined names. -/
def complete (v : Verdict) : Verdict :=
  ⟨v.span, some (.known v.root), v.below.map fun info => some (.known info),
    besidesUndefined v.problems⟩

variable {n : Node} {remarks : List Problem}

theorem infos_complete (v : Verdict) :
    v.complete.infos = v.infos.map fun info => some (.known info) := rfl

theorem types_complete (v : Verdict) : v.complete.types = v.types := by
  unfold types complete TypeInfo.known
  cases v.root <;> rfl

theorem elementTypes_complete (v : Verdict) : v.complete.elementTypes = v.elementTypes := by
  rw [elementTypes, types_complete, elementTypes]

theorem expect_complete (v : Verdict) (possible : TypeSet) :
    v.complete.expect possible = (v.expect possible).complete := rfl

theorem blame_complete (v : Verdict) (possible : TypeSet) (cause : TypeSet → TypeSet → Cause) :
    v.complete.blame possible cause = v.blame possible cause := by
  rw [blame, expect_complete, types_complete, types_complete]
  rfl

theorem report_complete (v : Verdict) (ps : List Problem) :
    (v.report ps).complete = v.complete.report (besidesUndefined ps) := by
  unfold report complete
  rw [besidesUndefined_append]

theorem expecting_complete {possible : TypeSet} {cause : TypeSet → TypeSet → Cause}
    (hcause : ∀ a b, (cause a b).code ≠ Code.undefinedVariable.text) (v : Verdict) :
    v.complete.expecting possible cause = (v.expecting possible cause).complete := by
  rw [expecting, expecting, report_complete, expect_complete, blame_complete,
    besidesUndefined_eq_self (undefined_blame hcause)]

theorem flatMap_infos_complete (vs : List Verdict) :
    (vs.map complete).flatMap infos =
      (vs.flatMap infos).map fun info => some (.known info) := by
  rw [List.flatMap_map, List.map_flatMap]
  rfl

theorem flatMap_problems_complete (vs : List Verdict) :
    (vs.map complete).flatMap problems = besidesUndefined (vs.flatMap problems) := by
  rw [List.flatMap_map, besidesUndefined, List.filter_flatMap]
  rfl

theorem above_complete (hremarks : remarks.filter Problem.isUndefined = []) (vs : List Verdict)
    (types : TypeSet) :
    above n remarks (vs.map complete) types = (above n remarks vs types).complete := by
  simp only [above, complete, flatMap_infos_complete, flatMap_problems_complete,
    besidesUndefined_append, besidesUndefined_eq_self hremarks]
  rfl

/-- To be of any type is what becomes of a reference to nothing. -/
theorem undefined_complete (n : Node) (x : String) :
    (undefined n x).complete = above n [] [] .all := rfl

/-- Narrowing finds the same in completed arguments. -/
theorem narrow_complete (vs : List Verdict) (alive : List Signature) :
    narrow (vs.map complete) alive =
      ⟨(narrow vs alive).parts.map complete, (narrow vs alive).problems, (narrow vs alive).alive⟩ := by
  induction vs generalizing alive with
  | nil => rfl
  | cons v vs ih =>
      cases alive with
      | nil => rfl
      | cons g gs =>
          simp only [List.map_cons, narrow, expect_complete, types_complete, blame_complete, ih]

theorem invocation_complete (hremarks : remarks.filter Problem.isUndefined = [])
    (vs : List Verdict) (signatures : List Signature) :
    invocation n remarks (vs.map complete) signatures =
      (invocation n remarks vs signatures).complete := by
  simp only [invocation, complete, List.length_map, narrow_complete, flatMap_infos_complete,
    flatMap_problems_complete, besidesUndefined_append, besidesUndefined_eq_self hremarks,
    besidesUndefined_eq_self (undefined_narrow _ _)]
  rfl

theorem filter_complete (source : Verdict) (predicate projection : Option Verdict)
    (types : TypeSet) :
    filter n source.complete (predicate.map complete) (projection.map complete) types =
      (filter n source predicate projection types).complete := by
  have hparts : source.complete :: ((predicate.map complete).toList ++
      (projection.map complete).toList) =
        (source :: (predicate.toList ++ projection.toList)).map complete := by
    cases predicate <;> cases projection <;> rfl
  simp only [filter, hparts, elementTypes_complete, flatMap_infos_complete,
    flatMap_problems_complete]
  rfl

theorem listTypes_complete (vs : List Verdict) : listTypes (vs.map complete) = listTypes vs := by
  cases vs with
  | nil => rfl
  | cons v vs => simp [listTypes, types_complete, Function.comp_def]

theorem comprehensionTypes_complete (source : Verdict) (projection : Option Verdict) :
    comprehensionTypes source.complete (projection.map complete) =
      comprehensionTypes source projection := by
  cases projection <;> simp [comprehensionTypes, types_complete]

end Verdict

namespace Expr

variable {env : Env}

/-- Trees in a row, each of which comes to the completed verdict. -/
theorem judgeAll_complete {es : List Expr} {ctx : Context}
    (h : ∀ c ∈ es, c.judge ctx env.complete = (c.judge ctx env).complete) :
    judgeAll es ctx env.complete = (judgeAll es ctx env).map Verdict.complete := by
  rw [judgeAll_eq, judgeAll_eq, List.map_map]
  exact List.map_congr_left h

theorem judgeOption_complete {p : Option Expr}
    (h : ∀ c ∈ p.toList, c.judge .simple env.complete = (c.judge .simple env).complete) :
    judgeOption p env.complete = (judgeOption p env).map Verdict.complete := by
  cases p with
  | none => rw [judgeOption, judgeOption]; rfl
  | some c => rw [judgeOption, judgeOption, h c (by simp)]; rfl

/-- A predicate is expected to be a truth value once it has come to its verdict. -/
theorem predicate_complete {p : Option Expr}
    (h : ∀ c ∈ p.toList, c.judge .simple env.complete = (c.judge .simple env).complete) :
    (judgeOption p env.complete).map (·.expecting truth .mismatch) =
      ((judgeOption p env).map (·.expecting truth .mismatch)).map Verdict.complete := by
  rw [judgeOption_complete h, Option.map_map, Option.map_map]
  congr 1
  funext v
  exact Verdict.expecting_complete Verdict.mismatch_code v

/-- **A reference to nothing may be anything.**  If every name has types, and those without a meaning
have all types, then the verdict is the completed one. -/
theorem judge_complete (e : Expr) (ctx : Context) (env : Env) :
    e.judge ctx env.complete = (e.judge ctx env).complete := by
  induction e using children_induction generalizing ctx env with
  | node e ih =>
      have hall : ∀ ctx, judgeAll e.children ctx env.complete =
          (judgeAll e.children ctx env).map Verdict.complete :=
        fun ctx => judgeAll_complete fun c hc => ih c hc ctx env
      have hsource : ∀ l ∈ e.children, (l.judge ctx env.complete).expecting anyList .mismatch =
          ((l.judge ctx env).expecting anyList .mismatch).complete := by
        intro l hl
        rw [ih l hl, Verdict.expecting_complete Verdict.mismatch_code]
      cases e with
      | literal n v => rw [judge, judge]; rfl
      | parameter n x => rw [judge, judge]; rfl
      | countStar n =>
          rw [judge, judge]
          exact Verdict.above_complete (undefined_aggregation n "count(*)" ctx) [] _
      | reference n x =>
          rw [judge, judge, Env.complete]
          cases env x with
          | none => exact Verdict.undefined_complete n x
          | some types => rfl
      | list n es =>
          have hes : judgeAll es ctx env.complete = _ := hall ctx
          rw [judge, judge, hes, Verdict.listTypes_complete]
          exact Verdict.above_complete rfl (judgeAll es ctx env) _
      | property n m k =>
          rw [judge, judge, ih m (by simp [children]),
            Verdict.expecting_complete fun _ actual => Verdict.noMap_code actual]
          exact Verdict.above_complete rfl
            [(m.judge ctx env).expecting anyMap fun _ actual => .noMap actual] _
      | unary n op e =>
          rw [judge, judge, ih e (by simp [children])]
          exact Verdict.invocation_complete rfl [e.judge ctx env] _
      | binary n op l r =>
          rw [judge, judge, ih l (by simp [children]), ih r (by simp [children])]
          exact Verdict.invocation_complete rfl [l.judge ctx env, r.judge ctx env] _
      | call n name distinct es =>
          have hes : ∀ ctx, judgeAll es ctx env.complete = _ := hall
          rw [judge, judge]
          cases Function.lookup? name with
          | none =>
              dsimp only
              rw [hes, Verdict.above_complete rfl, Verdict.report_complete]
              rfl
          | some f =>
              dsimp only
              rw [hes]
              exact Verdict.invocation_complete
                (undefined_callRules n f distinct es.length ctx) _ _
      | comprehension n b l p q =>
          have hp : ∀ c ∈ p.toList, c ∈ (comprehension n b l p q).children :=
            fun c hc => List.mem_cons_of_mem _ (List.mem_append_left _ hc)
          have hq : ∀ c ∈ q.toList, c ∈ (comprehension n b l p q).children :=
            fun c hc => List.mem_cons_of_mem _ (List.mem_append_right _ hc)
          simp only [judge, hsource l List.mem_cons_self, Verdict.elementTypes_complete,
            ← Env.complete_bind, predicate_complete fun c hc => ih c (hp c hc) .simple _,
            judgeOption_complete fun c hc => ih c (hq c hc) .simple _,
            Verdict.comprehensionTypes_complete]
          exact Verdict.filter_complete _ _ _ _
      | quantified n k b l p =>
          have hp : ∀ c ∈ p.toList, c ∈ (quantified n k b l p).children :=
            fun c hc => List.mem_cons_of_mem _ hc
          have hmissing := undefined_of_allFormal (allFormal_missing k p n.span)
          simp only [judge, hsource l List.mem_cons_self, Verdict.elementTypes_complete,
            ← Env.complete_bind, predicate_complete fun c hc => ih c (hp c hc) .simple _,
            Verdict.report_complete, besidesUndefined_eq_self hmissing]
          rw [← Verdict.filter_complete]
          rfl

end Expr

namespace State

variable {s : State} {bs : List Binding}

/-- One declaration with all types, in the names that are visible. -/
theorem env_define {b : Binding} (h : s.symbol? b.name = none) (types : TypeSet) :
    (s.define b types).env = s.env.bind b.name types := by
  funext x
  rw [env, symbol_define (inner_find_of_symbol h), Env.bind]
  split <;> rfl

/-- **Names without a meaning can be declared.**  If nothing is known about the ids of the bindings,
then all of them are declared, they have all types, and nothing else has changed. -/
theorem exists_declared (hnames : ∀ b ∈ bs, s.symbol? b.name = none)
    (hinfos : ∀ b ∈ bs, s.info? b.id = none) (hdistinct : (bs.map Binding.name).Nodup)
    (hids : (bs.map Binding.id).Nodup) :
    ∃ t, bs.foldlM (fun s b => s.declare b .all) s = .ok t ∧
      (∀ x, t.env x = if x ∈ bs.map Binding.name then some .all else s.env x) ∧
      ∀ i, i ∉ bs.map Binding.id → t.info? i = s.info? i := by
  induction bs generalizing s with
  | nil => exact ⟨s, rfl, fun x => by simp, fun i _ => rfl⟩
  | cons b bs ih =>
      rw [List.map_cons, List.nodup_cons] at hdistinct hids
      have hb := hnames b List.mem_cons_self
      have hdeclare : s.declare b .all = .ok (s.define b .all) :=
        declare_of_unknown (inner_find_of_symbol hb) (hinfos b List.mem_cons_self) .all
      have hnames' : ∀ c ∈ bs, (s.define b .all).symbol? c.name = none := by
        intro c hc
        have hne : c.name ≠ b.name := fun h => hdistinct.1 (h ▸ List.mem_map_of_mem hc)
        rw [symbol_define (inner_find_of_symbol hb), if_neg hne]
        exact hnames c (List.mem_cons_of_mem _ hc)
      have hinfos' : ∀ c ∈ bs, (s.define b .all).info? c.id = none := by
        intro c hc
        have hne : c.id ≠ b.id := fun h => hids.1 (h ▸ List.mem_map_of_mem hc)
        rw [info_define, if_neg hne]
        exact hinfos c (List.mem_cons_of_mem _ hc)
      obtain ⟨t, ht, henv, hinfo⟩ := ih hnames' hinfos' hdistinct.2 hids.2
      refine ⟨t, ?_, fun x => ?_, fun i hi => ?_⟩
      · rw [List.foldlM_cons, hdeclare]
        exact ht
      · rw [henv, env_define hb, Env.bind, List.map_cons]
        by_cases hx : x = b.name
        · simp [hx]
        · simp [hx]
      · rw [List.map_cons, List.mem_cons, not_or] at hi
        rw [hinfo i hi.2, info_define, if_neg hi.1]

end State

namespace Expr

variable {e : Expr} {s s' : State} {bs : List Binding}

theorem Unseen.declared (h : e.Unseen s) (hfresh : ∀ b ∈ bs, b.id ∉ e.ids ∧ s.info? b.id = none)
    (hinfo : ∀ i, i ∉ bs.map Binding.id → s'.info? i = s.info? i) : e.Unseen s' := by
  refine ⟨h.distinct, fun i hi => ?_⟩
  have hother : i ∉ bs.map Binding.id := by
    intro hmem
    obtain ⟨b, hb, rfl⟩ := List.mem_map.mp hmem
    exact (hfresh b hb).1 hi
  rw [hinfo i hother, h.unknown i hi]

/-- Only names that the tree reads are declared, so the environments agree on its free names. -/
theorem env_declared (hnames : ∀ x, x ∈ bs.map Binding.name ↔ x ∈ e.dependencies ∧ s.symbol? x = none)
    (henv : ∀ x, s'.env x = if x ∈ bs.map Binding.name then some .all else s.env x) :
    ∀ x ∈ e.freeNames, s'.env x = s.env.complete x := by
  intro x hx
  rw [henv, Env.complete]
  cases hsymbol : s.symbol? x with
  | none =>
      have hdeclared := (hnames x).mpr ⟨mem_dependencies_iff.mpr hx, hsymbol⟩
      simp [hdeclared, State.env, hsymbol]
  | some symbol =>
      have hnot : x ∉ bs.map Binding.name := by
        intro hmem
        rw [((hnames x).mp hmem).2] at hsymbol
        cases hsymbol
      rw [if_neg hnot]
      simp [State.env, hsymbol]

/-- **Undefined names are recovered from.**  Let the names that a tree reads and nobody has declared
be declared with all types, by bindings with new ids.  Then the check of the tree reports the same in
the same order, the undefined names apart, and finds the same types for all nodes and bound names. -/
theorem check_recovers (ctx : Context) (hunseen : e.Unseen s)
    (hnames : ∀ x, x ∈ bs.map Binding.name ↔ x ∈ e.dependencies ∧ s.symbol? x = none)
    (hdistinct : (bs.map Binding.name).Nodup) (hids : (bs.map Binding.id).Nodup)
    (hfresh : ∀ b ∈ bs, b.id ∉ e.ids ∧ s.info? b.id = none) :
    ∃ s', bs.foldlM (fun s b => s.declare b .all) s = .ok s' ∧
      ((e.check ctx).run s').problems =
        ((e.check ctx).run s).problems.filter (·.code != Code.undefinedVariable.text) ∧
      ∀ i ∈ e.ids, ((e.check ctx).run s').state.types i = ((e.check ctx).run s).state.types i := by
  obtain ⟨s', hdeclare, henv, hinfo⟩ := State.exists_declared
    (fun b hb => ((hnames b.name).mp (List.mem_map_of_mem hb)).2) (fun b hb => (hfresh b hb).2)
    hdistinct hids
  have hverdict : e.judge ctx s'.env = (e.judge ctx s.env).complete :=
    (judge_congr e ctx (env_declared hnames henv)).trans (judge_complete e ctx s.env)
  obtain ⟨hproblems, hshows⟩ := run_judge e ctx s hunseen
  obtain ⟨hproblems', hshows'⟩ := run_judge e ctx s' (hunseen.declared hfresh hinfo)
  refine ⟨s', hdeclare, ?_, fun i hi => ?_⟩
  · rw [hproblems', hproblems, hverdict]
    rfl
  · have hinfos := hshows'.infos
    rw [hverdict, Verdict.infos_complete, ← hshows.infos, List.map_map] at hinfos
    have hi' := List.map_inj_left.mp hinfos i hi
    rw [State.types_eq_known, hi', State.types_eq_known]
    rfl

/-- In `[x in xs | y | -'a']` neither `xs` nor `y` is declared.  If they are, then all that is left
to report is the operand of the projection. -/
theorem check_recovers_comprehension :
    let e := comprehension ⟨1, .unknown⟩ ⟨2, .unknown, "x"⟩ (reference ⟨3, .unknown⟩ "xs")
      (some (reference ⟨4, .unknown⟩ "y"))
      (some (unary ⟨5, .unknown⟩ .negate (literal ⟨6, ⟨16, 19, 1, 17⟩⟩ (.string "a"))))
    let bs : List Binding := [⟨8, .unknown, "y"⟩, ⟨7, .unknown, "xs"⟩]
    e.Unseen .initial ∧
      ∃ s', bs.foldlM (fun s b => s.declare b .all) State.initial = .ok s' ∧
        (((e.check .simple).run s').problems.map fun p => (p.code, p.span)) =
          [("E1001", ⟨16, 19, 1, 17⟩)] ∧
        ∀ i ∈ e.ids, ((e.check .simple).run s').state.types i =
          ((e.check .simple).run .initial).state.types i := by
  intro e bs
  have hunseen : e.Unseen .initial := ⟨by decide, by decide⟩
  have hfree : e.freeNames = ["xs", "y"] := by decide
  have hnames : ∀ x, x ∈ bs.map Binding.name ↔
      x ∈ e.dependencies ∧ State.initial.symbol? x = none := by
    intro x
    have hnothing : State.initial.symbol? x = none := rfl
    rw [mem_dependencies_iff, hfree]
    simp [bs, hnothing, or_comm]
  obtain ⟨s', hdeclare, hproblems, htypes⟩ :=
    check_recovers .simple hunseen hnames (by decide) (by decide) (by decide)
  refine ⟨hunseen, s', hdeclare, ?_, htypes⟩
  rw [hproblems]
  decide

end Expr
end QueryTyping
