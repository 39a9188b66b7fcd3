import QueryTyping.Proofs.Expr.FreeNames
import QueryTyping.Proofs.Typing.Stages

/-!
# Verdicts

A verdict is what the check of a tree comes to when ids, scopes and tables are left out: what is
known about each node in the end, and what is reported.  It is found by one recursion over the tree
in which the names in scope are a plain assignment of types to names.

Main statements: `judge_congr` says that a verdict depends only on the types of the free names.
-/

namespace QueryTyping

/-- The types of the names in scope. -/
abbrev Env := String → Option TypeSet

/-- The same names, and one that hides an earlier one of its name. -/
def Env.bind (env : Env) (x : String) (types : TypeSet) : Env :=
  fun y => if y = x then some types else env y

/-- The types of the names that are visible in a state. -/
def State.env (s : State) : Env := fun x => (s.symbol? x).map Symbol.types

/-- What is known about a tree: the entry of its root, the entries below in the order of the ids,
and what has been reported. -/
structure Verdict where
  span : Span
  root : Option TypeInfo
  below : List (Option TypeInfo)
  problems : List Problem

namespace Verdict

/-- All entries, the root's first. -/
def infos (v : Verdict) : List (Option TypeInfo) := v.root :: v.below

/-- The actual types of the root. -/
def types (v : Verdict) : TypeSet :=
  match v.root with
  | some info => info.actual
  | none => .all

/-- The types of the elements of a list. -/
def elementTypes (v : Verdict) : TypeSet := v.types.unwrap.orElse .all

/-- The place of the root accepts only the given types. -/
def expect (v : Verdict) (possible : TypeSet) : Verdict :=
  { v with root := some ((v.root.getD ⟨.all, none⟩).narrow possible) }

/-- What is reported when the place of the root accepts only the given types. -/
def blame (v : Verdict) (possible : TypeSet) (cause : TypeSet → TypeSet → Cause) : List Problem :=
  if (v.expect possible).types.isEmpty then [⟨cause possible v.types, v.span⟩] else []

/-- More is reported. -/
def report (v : Verdict) (problems : List Problem) : Verdict :=
  { v with problems := v.problems ++ problems }

/-- The place of the root accepts only the given types, and it is reported if there are none. -/
def expecting (v : Verdict) (possible : TypeSet) (cause : TypeSet → TypeSet → Cause) : Verdict :=
  (v.expect possible).report (v.blame possible cause)

/-- A node of known types over its parts. -/
def above (n : Node) (remarks : List Problem) (parts : List Verdict) (types : TypeSet) : Verdict :=
  ⟨n.span, some ⟨types, none⟩, parts.flatMap infos, remarks ++ parts.flatMap problems⟩

/-- A reference to nothing. -/
def undefined (n : Node) (x : String) : Verdict := ⟨n.span, none, [], [⟨.undefined x, n.span⟩]⟩

/-- The types of a list with the given parts as elements. -/
def listTypes (parts : List Verdict) : TypeSet :=
  match parts with
  | [] => anyList
  | _ => (TypeSet.joins (parts.map types)).wrap

/-- Arguments after narrowing, with what has been reported and the signatures that remain. -/
structure Narrowed where
  parts : List Verdict
  problems : List Problem
  alive : List Signature

/-- Narrow signatures argument by argument. -/
def narrow : List Verdict → List Signature → Narrowed
  | [], alive => ⟨[], [], alive⟩
  | v :: vs, [] => ⟨v :: vs, [], []⟩
  | v :: vs, g :: gs =>
      let alive := g :: gs
      let possible := TypeSet.unions (alive.map Signature.accepted)
      let after := v.expect possible
      let left := (alive.filter fun g => after.types.meets g.accepted).map Signature.rest
      let others := narrow vs left
      ⟨after :: others.parts, v.blame possible .mismatch ++ others.problems, others.alive⟩

/-- An invocation of something with the given signatures. -/
def invocation (n : Node) (remarks : List Problem) (parts : List Verdict)
    (signatures : List Signature) : Verdict :=
  let narrowed := narrow parts (signatures.filter (·.arity == parts.length))
  ⟨n.span, some ⟨State.outputs narrowed.alive, none⟩, narrowed.parts.flatMap infos,
    remarks ++ parts.flatMap problems ++ narrowed.problems⟩

/-- A filter over its parts: between the root and the parts stands the name that it binds. -/
def filter (n : Node) (source : Verdict) (predicate projection : Option Verdict)
    (types : TypeSet) : Verdict :=
  let parts := source :: (predicate.toList ++ projection.toList)
  ⟨n.span, some ⟨types, none⟩, some ⟨source.elementTypes, none⟩ :: parts.flatMap infos,
    parts.flatMap problems⟩

/-- The types of a comprehension: lists of what is projected, or else what is filtered. -/
def comprehensionTypes (source : Verdict) (projection : Option Verdict) : TypeSet :=
  (match projection with
    | some v => v.types.wrap
    | none => source.types).orElse anyList

end Verdict

mutual

/-- The verdict on a tree in a context. -/
def Expr.judge : Expr → Context → Env → Verdict
  | .literal n v, _, _ => .above n [] [] v.types
  | .parameter n _, _, _ => .above n [] [] .all
  | .reference n x, _, env =>
      match env x with
      | some types => .above n [] [] types
      | none => .undefined n x
  | .countStar n, ctx, _ =>
      .above n (Check.aggregation n "count(*)" ctx).reports [] (.exact .integer)
  | .list n es, ctx, env => .above n [] (judgeAll es ctx env) (Verdict.listTypes (judgeAll es ctx env))
  | .property n m _, ctx, env =>
      .above n [] [(m.judge ctx env).expecting anyMap fun _ actual => .noMap actual] .all
  | .unary n op e, ctx, env => .invocation n [] [e.judge ctx env] op.signatures
  | .binary n op l r, ctx, env =>
      .invocation n [] [l.judge ctx env, r.judge ctx env] op.signatures
  | .call n name distinct es, ctx, env =>
      match Function.lookup? name with
      | none =>
          (Verdict.above n [] (judgeAll es ctx env) .all).report [⟨.unknownFunction name, n.span⟩]
      | some f =>
          .invocation n (Check.callRules n f distinct es.length ctx).reports
            (judgeAll es (f.argumentContext ctx) env) f.signatures
  | .comprehension n b l p q, ctx, env =>
      let source := (l.judge ctx env).expecting anyList .mismatch
      let inner := env.bind b.name source.elementTypes
      let projection := judgeOption q inner
      .filter n source ((judgeOption p inner).map (·.expecting truth .mismatch)) projection
        (Verdict.comprehensionTypes source projection)
  | .quantified n k b l p, ctx, env =>
      let source := (l.judge ctx env).expecting anyList .mismatch
      let inner := env.bind b.name source.elementTypes
      (Verdict.filter n source ((judgeOption p inner).map (·.expecting truth .mismatch)) none
        (.exact .boolean)).report (if p.isNone then [⟨.missingPredicate k, n.span⟩] else [])

/-- The verdicts on trees in a row. -/
def judgeAll : List Expr → Context → Env → List Verdict
  | [], _, _ => []
  | e :: es, ctx, env => e.judge ctx env :: judgeAll es ctx env

/-- The verdict on a tree in the binding of a filter, which may be missing. -/
def judgeOption : Option Expr → Env → Option Verdict
  | none, _ => none
  | some e, env => some (e.judge .simple env)

end

theorem judgeAll_eq (es : List Expr) (ctx : Context) (env : Env) :
    judgeAll es ctx env = es.map (·.judge ctx env) := by
  induction es with
  | nil => rw [judgeAll, List.map_nil]
  | cons e es ih => rw [judgeAll, ih, List.map_cons]

theorem judgeOption_eq (p : Option Expr) (env : Env) :
    judgeOption p env = p.map (·.judge .simple env) := by
  cases p <;> rw [judgeOption] <;> rfl

namespace Expr

/-- Free names of a child outside of the binding are free in the tree. -/
theorem freeNames_of_outside {e c : Expr} (hc : c ∈ e.outside) {x : String}
    (hx : x ∈ c.freeNames) : x ∈ e.freeNames := by
  rw [freeNames, freeReferences_eq, List.map_append, List.map_append, List.mem_append,
    List.mem_append, List.map_flatMap, List.mem_flatMap]
  exact Or.inr (Or.inl ⟨c, hc, hx⟩)

/-- Free names of a child in the binding are free in the tree, unless it binds them. -/
theorem freeNames_of_within {e c : Expr} {f : Filter} (hf : e.filter? = some f)
    (hc : c ∈ e.within) {x : String} (hx : x ∈ c.freeNames) (hne : x ≠ f.bound.name) :
    x ∈ e.freeNames := by
  rw [mem_freeNames_of_filter hf]
  exact Or.inr ⟨List.mem_flatMap.mpr ⟨c, hc, hx⟩, hne⟩

/-- Assignments that agree on the free names of a filter agree, with the bound name, on those of
the children in its binding. -/
theorem bind_congr {e c : Expr} {f : Filter} (hf : e.filter? = some f) (hc : c ∈ e.within)
    {env env' : Env} (h : ∀ x ∈ e.freeNames, env x = env' x) (types : TypeSet) :
    ∀ x ∈ c.freeNames, env.bind f.bound.name types x = env'.bind f.bound.name types x := by
  intro x hx
  by_cases hbound : x = f.bound.name
  · simp [Env.bind, hbound]
  · simp [Env.bind, hbound, h x (freeNames_of_within hf hc hx hbound)]

/-- **A verdict depends only on the types of the free names.** -/
theorem judge_congr (e : Expr) (ctx : Context) {env env' : Env}
    (h : ∀ x ∈ e.freeNames, env x = env' x) : e.judge ctx env = e.judge ctx env' := by
  induction e using children_induction generalizing ctx env env' with
  | node e ih =>
      have hout : ∀ c ∈ e.outside, ∀ ctx, c.judge ctx env = c.judge ctx env' := fun c hc ctx =>
        ih c (mem_children_of_outside hc) ctx fun x hx => h x (freeNames_of_outside hc hx)
      have hall : ∀ cs : List Expr, (∀ c ∈ cs, c ∈ e.outside) → ∀ ctx,
          judgeAll cs ctx env = judgeAll cs ctx env' := by
        intro cs hcs ctx
        rw [judgeAll_eq, judgeAll_eq]
        exact List.map_congr_left fun c hc => hout c (hcs c hc) ctx
      have hin : ∀ f, e.filter? = some f → ∀ p : Option Expr, (∀ c ∈ p.toList, c ∈ e.within) →
          ∀ types, judgeOption p (env.bind f.bound.name types) =
            judgeOption p (env'.bind f.bound.name types) := by
        intro f hf p hp types
        cases p with
        | none => rw [judgeOption, judgeOption]
        | some c =>
            have hc : c ∈ e.within := hp c (by simp)
            rw [judgeOption, judgeOption,
              ih c (mem_children_of_within hc) .simple (bind_congr hf hc h types)]
      cases e with
      | literal n v => rw [judge, judge]
      | parameter n x => rw [judge, judge]
      | countStar n => rw [judge, judge]
      | reference n x =>
          have hx : env x = env' x := h x (by rw [freeNames_reference]; simp)
          rw [judge, judge, hx]
      | list n es => rw [judge, judge, hall es (fun _ hc => hc) ctx]
      | property n m k => rw [judge, judge, hout m (by simp [outside, children]) ctx]
      | unary n op e => rw [judge, judge, hout e (by simp [outside, children]) ctx]
      | binary n op l r =>
          rw [judge, judge, hout l (by simp [outside, children]) ctx,
            hout r (by simp [outside, children]) ctx]
      | call n name distinct es =>
          rw [judge, judge]
          cases Function.lookup? name with
          | none => simp only [hall es (fun _ hc => hc) ctx]
          | some f => simp only [hall es (fun _ hc => hc) (f.argumentContext ctx)]
      | comprehension n b l p q =>
          have hl := hout l (by simp [outside]) ctx
          have hp := hin ⟨b, l.node⟩ rfl p fun c hc => by simp [within, Option.mem_toList.mp hc]
          have hq := hin ⟨b, l.node⟩ rfl q fun c hc => by simp [within, Option.mem_toList.mp hc]
          simp only [judge, hl, hp, hq]
      | quantified n k b l p =>
          have hl := hout l (by simp [outside]) ctx
          have hp := hin ⟨b, l.node⟩ rfl p fun c hc => by simp [within, Option.mem_toList.mp hc]
          simp only [judge, hl, hp]

end Expr
end QueryTyping
