import QueryTyping.Check.Overload

/-!
# Signatures of operators

What the operators accept and give.
-/

namespace QueryTyping

/-- A signature with exactly one output type. -/
def Signature.returning (parameters : List Ty) (output : Ty) : Signature :=
  ⟨parameters, .exact output⟩

open Signature Ty

/-- The signatures of an operator with one operand. -/
def UnaryOp.signatures : UnaryOp → List Signature
  | .not => [returning [boolean] boolean]
  | .negate | .plus => [returning [integer] integer, returning [float] float]
  | .isNull | .isNotNull => [returning [any] boolean]

/-- Arithmetic on integers gives an integer; where a float takes part it gives a float. -/
def arithmetic : List Signature :=
  [returning [integer, integer] integer, returning [integer, float] float,
   returning [float, integer] float, returning [float, float] float]

/-- The signatures of an operator with two operands. -/
def BinaryOp.signatures : BinaryOp → List Signature
  | .and | .or | .xor => [returning [boolean, boolean] boolean]
  | .eq | .notEq | .lt | .ltEq | .gt | .gtEq => [returning [any, any] boolean]
  | .add =>
      arithmetic ++
        [returning [string, string] string,
         ⟨[list any, list any], .covariant (list any)⟩]
  | .sub | .mul | .div | .mod => arithmetic
  | .pow => [returning [float, float] float]
  | .startsWith | .endsWith | .contains => [returning [string, string] boolean]
  | .isIn => [returning [any, list any] boolean]

end QueryTyping
