import QueryTyping.Expr.Fold
import QueryTyping.Names.Set

/-!
# The names an expression reads

An expression reads a name from its surroundings where it refers to the name outside the predicate
and the projection of every filter that binds it.  The list of a filter is read outside of its
binding.

A scan goes through a tree with the names found so far and the names that are hidden where it
stands.  What a filter reads is found by a scan of its own, which starts from nothing, hides the
bound name behind the list, and is then read by the scan around it.

Main statement: `scan_eq_fold` says that a scan is a fold that does not go on below filters.
-/

namespace QueryTyping

/-- The names found so far, and the names that are hidden, the innermost first. -/
structure Scan where
  found : NameSet
  hidden : List String

namespace Scan

/-- Nothing is found and nothing is hidden. -/
def start : Scan := ⟨.empty, []⟩

/-- Read a name, unless it is hidden. -/
def read (a : Scan) (x : String) : Scan :=
  if a.hidden.contains x then a else { a with found := a.found.insert x }

/-- Read each name of a set. -/
def readAll (a : Scan) (names : NameSet) : Scan := names.toList.foldl read a

/-- Hide a name. -/
def hide (a : Scan) (x : String) : Scan := { a with hidden := x :: a.hidden }

end Scan

mutual

/-- Scan a tree. -/
def Expr.scan : Expr → Scan → Scan
  | .literal .., a | .parameter .., a | .countStar _, a => a
  | .reference _ x, a => a.read x
  | .list _ es, a | .call _ _ _ es, a => scanAll es a
  | .property _ m _, a => m.scan a
  | .unary _ _ e, a => e.scan a
  | .binary _ _ l r, a => r.scan (l.scan a)
  | .comprehension _ b s p q, a =>
      a.readAll (scanOption q (scanOption p ((s.scan .start).hide b.name))).found
  | .quantified _ _ b s p, a => a.readAll (scanOption p ((s.scan .start).hide b.name)).found

/-- Scan trees, one after the other. -/
def scanAll : List Expr → Scan → Scan
  | [], a => a
  | e :: es, a => scanAll es (e.scan a)

/-- Scan a tree that may be missing. -/
def scanOption : Option Expr → Scan → Scan
  | none, a => a
  | some e, a => e.scan a

end

/-- The names that an expression reads from its surroundings. -/
def Expr.dependencies (e : Expr) : NameSet := (e.scan .start).found

theorem scanAll_eq_foldl (es : List Expr) (a : Scan) :
    scanAll es a = es.foldl (fun a e => e.scan a) a := by
  induction es generalizing a with
  | nil => rw [scanAll, List.foldl_nil]
  | cons e es ih => rw [scanAll, ih, List.foldl_cons]

theorem scanOption_eq_foldl (p : Option Expr) (a : Scan) :
    scanOption p a = p.toList.foldl (fun a e => e.scan a) a := by
  cases p with
  | none => rw [scanOption, Option.toList_none, List.foldl_nil]
  | some e => rw [scanOption, Option.toList_some, List.foldl_cons, List.foldl_nil]

/-- What a scan does at a node.  A filter is scanned on its own: its list, and then what stands
inside of its binding. -/
def Scan.visit (e : Expr) (a : Scan) (go : Scan → Scan) : Scan :=
  match e with
  | .reference _ x => a.read x
  | _ =>
      match e.bound?, e.children with
      | some b, source :: body =>
          a.readAll (body.foldl (fun a e => e.scan a) ((source.scan .start).hide b.name)).found
      | _, _ => go a

/-- **A scan is a fold.**  It goes on through the children of every node but a filter. -/
theorem Expr.scan_eq_fold (e : Expr) (a : Scan) : e.scan a = e.fold Scan.visit a := by
  induction e using children_induction generalizing a with
  | node e ih =>
      have children : ∀ cs : List Expr, (∀ c ∈ cs, c ∈ e.children) → ∀ a : Scan,
          cs.foldl (fun a c => c.scan a) a = cs.foldl (fun a c => c.fold Scan.visit a) a := by
        intro cs
        induction cs with
        | nil => simp
        | cons c cs ihs =>
            intro hcs a
            rw [List.foldl_cons, List.foldl_cons, ih c (hcs c List.mem_cons_self),
              ihs fun d hd => hcs d (List.mem_cons_of_mem _ hd)]
      rw [fold_eq]
      cases e <;> rw [scan] <;>
        simp only [Scan.visit, bound?, Expr.children, List.foldl_nil, List.foldl_cons,
          List.foldl_append, scanAll_eq_foldl, scanOption_eq_foldl]
      case list n es => exact children es (fun _ h => h) a
      case call n f d es => exact children es (fun _ h => h) a
      case property n m k => exact ih m (by simp [Expr.children]) a
      case unary n op e => exact ih e (by simp [Expr.children]) a
      case binary n op l r =>
        rw [ih l (by simp [Expr.children]), ih r (by simp [Expr.children])]

end QueryTyping
