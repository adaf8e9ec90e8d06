import Concolic.VarMap

/-!
# Linear sums

A linear sum is `Σ coefficient · variable + constant` over 64-bit words, all arithmetic wrapping
around. Adding terms drops a coefficient that becomes zero; scaling does not, so a product that
wraps around to zero stays stored. So does a zero in a sum read from a stored form, until an
addition or a substitution visits it.
-/

namespace Concolic

/-- A linear sum over variables. -/
structure Linear where
  /-- The coefficient of each variable that occurs. -/
  coefficients : VarMap Int64
  constant : Int64
  deriving DecidableEq

namespace Linear

def ofConstant (value : Int64) : Linear where
  coefficients := ∅
  constant := value

instance : Inhabited Linear where
  default := ofConstant 0

def addTerm (sum : Linear) (var : Variable) (coefficient : Int64) : Linear :=
  let total := (sum.coefficients.get? var).getD 0 + coefficient
  { sum with
    coefficients :=
      if total = 0 then sum.coefficients.erase var else sum.coefficients.insert var total }

def term (var : Variable) (coefficient : Int64) : Linear :=
  (ofConstant 0).addTerm var coefficient

def ofVar (var : Variable) : Linear :=
  term var 1

def plusConstant (sum : Linear) (value : Int64) : Linear :=
  { sum with constant := sum.constant + value }

def plus (first second : Linear) : Linear :=
  (second.coefficients.entries.foldl (fun sum entry => sum.addTerm entry.1 entry.2) first)
    |>.plusConstant second.constant

def scaled (sum : Linear) (factor : Int64) : Linear :=
  if factor = 0 then ofConstant 0
  else
    -- A wrapped product may be zero. It is stored all the same.
    { coefficients := sum.coefficients.mapValues (· * factor)
      constant := sum.constant * factor }

def minus (first second : Linear) : Linear :=
  first.plus (second.scaled (-1))

def isConstant (sum : Linear) : Bool :=
  sum.coefficients.isEmpty

/-- The variables that occur, in ascending order. -/
def vars (sum : Linear) : List Variable :=
  sum.coefficients.keys

/-- Takes one term over into a sum: its value if the variable is bound, the term itself if not. -/
def absorb (assignment : Assignment) (sum : Linear) (entry : Variable × Int64) : Linear :=
  match assignment.get? entry.1 with
  | some value => sum.plusConstant (entry.2 * value)
  | none => sum.addTerm entry.1 entry.2

def substitute (sum : Linear) (assignment : Assignment) : Linear :=
  sum.coefficients.entries.foldl (absorb assignment) (ofConstant sum.constant)

/-- The value of the sum, if substitution leaves no variable. -/
def evaluate? (sum : Linear) (assignment : Assignment) : Option Int64 :=
  let rest := sum.substitute assignment
  if rest.isConstant then some rest.constant else none

def termText (entry : Variable × Int64) : String :=
  entry.1.name ++ "*(" ++ Numeral.text entry.2.toInt ++ ")"

/-- The sum as a solver formula writes it. -/
def text (sum : Linear) : String :=
  if sum.coefficients.isEmpty then
    "(" ++ Numeral.text sum.constant.toInt ++ ")"
  else
    String.intercalate " + " (sum.coefficients.entries.map termText) ++
      (if sum.constant = 0 then "" else "+(" ++ Numeral.text sum.constant.toInt ++ ")")

end Linear

end Concolic
