import Concolic.Linear

/-!
# Arithmetic terms

Comparisons whose sides are not linear sums, such as products of two inputs, are kept as expression
trees over 64-bit words. Substitution folds a node as soon as both of its sides are constants.
-/

namespace Concolic

inductive Arith where
  | const (value : Int64)
  | var (key : Variable)
  | add (left right : Arith)
  | sub (left right : Arith)
  | mul (left right : Arith)
  deriving DecidableEq, Inhabited

namespace Arith

def const? : Arith → Option Int64
  | .const value => some value
  | _ => none

/-- The variables in reading order, repeats kept. -/
def vars : Arith → List Variable
  | .const _ => []
  | .var key => [key]
  | .add left right | .sub left right | .mul left right => left.vars ++ right.vars

/-- Computes a node with two constant sides, and builds it otherwise. -/
def fold (compute : Int64 → Int64 → Int64) (build : Arith → Arith → Arith) (left right : Arith) :
    Arith :=
  match left, right with
  | .const first, .const second => .const (compute first second)
  | left, right => build left right

/-- Replaces bound variables by their values and folds the nodes that become constant. -/
def substitute (assignment : Assignment) : Arith → Arith
  | .const value => .const value
  | .var key =>
      match assignment.get? key with
      | some value => .const value
      | none => .var key
  | .add left right => fold (· + ·) .add (left.substitute assignment) (right.substitute assignment)
  | .sub left right => fold (· - ·) .sub (left.substitute assignment) (right.substitute assignment)
  | .mul left right => fold (· * ·) .mul (left.substitute assignment) (right.substitute assignment)

/-- The term of a linear sum: the constant, then one product for each variable. -/
def ofLinear (sum : Linear) : Arith :=
  sum.coefficients.entries.foldl
    (fun term entry => .add term (.mul (.var entry.1) (.const entry.2))) (.const sum.constant)

/-- The term as a solver formula writes it. -/
def text : Arith → String
  | .const value =>
      if value < 0 then "(" ++ Numeral.text value.toInt ++ ")" else Numeral.text value.toInt
  | .var key => key.name
  | .add left right => "(" ++ left.text ++ " + " ++ right.text ++ ")"
  | .sub left right => "(" ++ left.text ++ " - " ++ right.text ++ ")"
  | .mul left right => "(" ++ left.text ++ " * " ++ right.text ++ ")"

end Arith

end Concolic
