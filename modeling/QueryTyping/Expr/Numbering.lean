import QueryTyping.Expr.Fold

/-!
# Numbering

The analysis keeps one entry per id, so the ids of a tree have to differ.  A tree in which two of
them are equal is numbered anew from 1, a node before its binding and both before its children.

Main statement: `distinct_of_nodup` says that a tree whose ids differ already is left as it is.
-/

namespace QueryTyping

mutual

/-- Number a tree from `next` on; the next number after it. -/
def Expr.renumber : Expr → NodeId → Expr × NodeId
  | .literal n v, next => (.literal { n with id := next } v, next + 1)
  | .reference n x, next => (.reference { n with id := next } x, next + 1)
  | .parameter n x, next => (.parameter { n with id := next } x, next + 1)
  | .countStar n, next => (.countStar { n with id := next }, next + 1)
  | .list n es, next =>
      let (es, after) := renumberAll es (next + 1)
      (.list { n with id := next } es, after)
  | .property n m k, next =>
      let (m, after) := m.renumber (next + 1)
      (.property { n with id := next } m k, after)
  | .unary n op e, next =>
      let (e, after) := e.renumber (next + 1)
      (.unary { n with id := next } op e, after)
  | .binary n op l r, next =>
      let (l, middle) := l.renumber (next + 1)
      let (r, after) := r.renumber middle
      (.binary { n with id := next } op l r, after)
  | .call n f d es, next =>
      let (es, after) := renumberAll es (next + 1)
      (.call { n with id := next } f d es, after)
  | .comprehension n b s p q, next =>
      let (s, middle) := s.renumber (next + 2)
      let (p, late) := renumberOption p middle
      let (q, after) := renumberOption q late
      (.comprehension { n with id := next } { b with id := next + 1 } s p q, after)
  | .quantified n k b s p, next =>
      let (s, middle) := s.renumber (next + 2)
      let (p, after) := renumberOption p middle
      (.quantified { n with id := next } k { b with id := next + 1 } s p, after)

/-- Number trees one after the other. -/
def renumberAll : List Expr → NodeId → List Expr × NodeId
  | [], next => ([], next)
  | e :: es, next =>
      let (e, middle) := e.renumber next
      let (es, after) := renumberAll es middle
      (e :: es, after)

/-- Number a tree that may be missing. -/
def renumberOption : Option Expr → NodeId → Option Expr × NodeId
  | none, next => (none, next)
  | some e, next =>
      let (e, after) := e.renumber next
      (some e, after)

end

/-- No id occurs twice in the tree. -/
def Expr.hasDistinctIds (e : Expr) : Bool := decide e.ids.Nodup

/-- A tree with distinct ids, and whether it had to be numbered anew for that. -/
def Expr.distinct (e : Expr) : Expr × Bool :=
  if e.hasDistinctIds then (e, false) else ((e.renumber 1).1, true)

theorem Expr.distinct_of_nodup {e : Expr} (h : e.ids.Nodup) : e.distinct = (e, false) := by
  simp [distinct, hasDistinctIds, h]

end QueryTyping
