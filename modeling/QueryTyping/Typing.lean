import QueryTyping.Catalog.Function
import QueryTyping.Check.Basic
import QueryTyping.Context

/-!
# Typing rules

The check of an expression: the children first, from left to right, then what the node expects of
them and what it is itself.  Every rule goes on after a problem, so each node gets its types
whatever is wrong below it.

A filter checks its list where the filter stands.  Its predicate and projection are checked in a
scope of their own, in which the bound name has the types of the list's elements.

Main statement: `checkAll_eq` says that a list of expressions is checked one after the other.
-/

namespace QueryTyping

/-- The types of a constant.  The missing value may have any type. -/
def Literal.types : Literal → TypeSet
  | .integer _ => .exact .integer
  | .float _ => .exact .float
  | .string _ => .exact .string
  | .boolean _ => .exact .boolean
  | .null => .all

/-- Lists of anything. -/
def anyList : TypeSet := .covariant (.list .any)

/-- Maps of any kind. -/
def anyMap : TypeSet := .covariant .map

/-- Truth values. -/
def truth : TypeSet := .covariant .boolean

/-- The types of a list with the given elements. -/
def listTypes (elements : List Node) (s : State) : TypeSet :=
  match elements with
  | [] => anyList
  | _ => (TypeSet.joins (elements.map fun n => s.types n.id)).wrap

/-- The types of the elements of a list.  If nothing is known of them they may be anything. -/
def elementTypes (source : Node) (s : State) : TypeSet :=
  (s.types source.id).unwrap.orElse .all

/-- The types of a comprehension: lists of what is projected, or else what is filtered. -/
def comprehensionTypes (source : Node) (projection : Option Node) (s : State) : TypeSet :=
  (match projection with
    | some n => (s.types n.id).wrap
    | none => s.types source.id).orElse anyList

namespace Check

/-- An aggregation is reported where it is not allowed. -/
def aggregation (n : Node) (invocation : String) (ctx : Context) : Check :=
  .when (ctx = .simple) (.report ⟨.aggregation invocation, n.span⟩)

/-- A call of a function with an impossible number of arguments is reported. -/
def argumentCount (n : Node) (f : Function) (count : Nat) : Check :=
  if count < f.minArity then .report ⟨.tooFewArguments f.name, n.span⟩
  else if f.maxArity < count then .report ⟨.tooManyArguments f.name, n.span⟩
  else .done

/-- What a call of a known function may do wrong before its arguments are looked at. -/
def callRules (n : Node) (f : Function) (distinct : Bool) (count : Nat) (ctx : Context) : Check :=
  .all
    [.when f.aggregate (aggregation n (f.name ++ "(...)") ctx),
     .when (distinct && !f.aggregate) (.report ⟨.distinct f.name, n.span⟩),
     argumentCount n f count]

end Check

/-- The place of the arguments of a function.  What is aggregated cannot aggregate itself. -/
def Function.argumentContext (f : Function) (ctx : Context) : Context :=
  if f.aggregate then .simple else ctx

mutual

/-- The check of an expression in a context. -/
def Expr.check : Expr → Context → Check
  | .literal n v, _ => .fixed n v.types
  | .parameter n _, _ => .fixed n .all
  | .reference n x, _ => .resolve x n
  | .countStar n, ctx => .all [.aggregation n "count(*)" ctx, .fixed n (.exact .integer)]
  | .list n es, ctx => .all [checkAll es ctx, .specify n (listTypes (es.map Expr.node))]
  | .property n m _, ctx =>
      .all
        [m.check ctx,
         .expect m.node anyMap fun _ actual => .noMap actual,
         .fixed n .all]
  | .unary n op e, ctx => .all [e.check ctx, .invoke n [e.node] op.signatures]
  | .binary n op l r, ctx =>
      .all [l.check ctx, r.check ctx, .invoke n [l.node, r.node] op.signatures]
  | .call n name distinct es, ctx =>
      match Function.lookup? name with
      | none => .all [checkAll es ctx, .report ⟨.unknownFunction name, n.span⟩, .fixed n .all]
      | some f =>
          .all
            [.callRules n f distinct es.length ctx,
             checkAll es (f.argumentContext ctx),
             .invoke n (es.map Expr.node) f.signatures]
  | .comprehension n b s p q, ctx =>
      .all
        [s.check ctx,
         .expect s.node anyList .mismatch,
         .inScope <| .all
          [.declare b (elementTypes s.node),
           checkPredicate p,
           checkProjection q,
           .specify n (comprehensionTypes s.node (q.map Expr.node))]]
  | .quantified n k b s p, ctx =>
      .all
        [s.check ctx,
         .expect s.node anyList .mismatch,
         .inScope <| .all [.declare b (elementTypes s.node), checkPredicate p],
         .when p.isNone (.report ⟨.missingPredicate k, n.span⟩),
         .fixed n (.exact .boolean)]

/-- The checks of expressions, one after the other. -/
def checkAll : List Expr → Context → Check
  | [], _ => .done
  | e :: es, ctx => .andThen (e.check ctx) (checkAll es ctx)

/-- The check of a predicate, which has to be a truth value. -/
def checkPredicate : Option Expr → Check
  | none => .done
  | some e => .all [e.check .simple, .expect e.node truth .mismatch]

/-- The check of a projection. -/
def checkProjection : Option Expr → Check
  | none => .done
  | some e => e.check .simple

end

theorem checkAll_eq (es : List Expr) (ctx : Context) :
    checkAll es ctx = .all (es.map (·.check ctx)) := by
  induction es with
  | nil => rw [checkAll]; rfl
  | cons e es ih => rw [checkAll, ih]; rfl

end QueryTyping
