/-!
# Relations to zero

Every atomic condition compares an integer with zero. The six relations are closed under negation.
-/

namespace Concolic

/-- A comparison of a number with zero. -/
inductive Relation where
  | eq
  | ne
  | le
  | lt
  | ge
  | gt
  deriving DecidableEq, Repr

namespace Relation

/-- The relation that holds exactly when the given one does not. -/
def negate : Relation → Relation
  | .eq => .ne
  | .ne => .eq
  | .le => .gt
  | .gt => .le
  | .lt => .ge
  | .ge => .lt

/-- Whether an integer stands in the relation to zero. -/
def holds (relation : Relation) (value : Int) : Bool :=
  match relation with
  | .eq => value == 0
  | .ne => value != 0
  | .le => value ≤ 0
  | .lt => value < 0
  | .ge => value ≥ 0
  | .gt => value > 0

/-- The sign of the relation in solver formulas. -/
def sign : Relation → String
  | .eq => "="
  | .ne => "/="
  | .le => "<="
  | .lt => "<"
  | .ge => ">="
  | .gt => ">"

@[simp]
theorem negate_negate (relation : Relation) : relation.negate.negate = relation := by
  cases relation <;> rfl

@[simp]
theorem holds_negate (relation : Relation) (value : Int) :
    relation.negate.holds value = !relation.holds value := by
  cases relation <;> simp only [negate, holds, bne] <;> grind

end Relation

end Concolic
