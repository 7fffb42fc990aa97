import Pipeline.Value.Basic

/-!
# Expressions

The tree of an expression.  A plus sign before an operand changes nothing and leaves no node.
-/

namespace Pipeline

/-- Operators that take the values of both sides. -/
inductive BinaryOp where
  | power | times | divided | modulo | plus | minus
  | atMost | atLeast | less | greater | equal | notEqual
  deriving DecidableEq, Repr

/-- An expression. -/
inductive Expr where
  | number (x : Binary64)
  | literal (v : Value)
  | name (s : String)
  | list (members : List Expr)
  | object (fields : List (String × Expr))
  | negate (e : Expr)
  | not (e : Expr)
  | binary (op : BinaryOp) (left right : Expr)
  | both (left right : Expr)
  | either (left right : Expr)
  | member (target : Expr) (key : String)
  | index (target position : Expr)
  | call (target : Expr) (method : String) (args : List Expr)
  deriving Inhabited, Repr

end Pipeline
