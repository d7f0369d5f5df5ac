import BraceScript.Value.Basic

/-! # Comparing values

    Numbers of any kind compare by their exact value, and texts by their characters.  What cannot
    be ordered can still be told apart. -/

namespace BraceScript

namespace Value

/-- Whether an integer and a binary64 value are the same number. -/
def sameIntFloat (n : Int) (x : Float) : Bool := Number.compareInt n x == some .eq

/-- Whether two numbers are the same. -/
def sameQuantity : Quantity → Quantity → Bool
  | .int m, .int n => m = n
  | .int m, .float y => sameIntFloat m y
  | .float x, .int n => sameIntFloat n x
  | .float x, .float y => x == y
  | .int m, .complex z => z.im == 0.0 && sameIntFloat m z.re
  | .complex z, .int n => z.im == 0.0 && sameIntFloat n z.re
  | .float x, .complex z => z.im == 0.0 && x == z.re
  | .complex z, .float y => z.im == 0.0 && z.re == y
  | .complex z, .complex w => z.equal w

/-- Whether two values are equal. -/
def equal : Value → Value → Bool
  | .text s, .text t => s = t
  | .nothing, .nothing => true
  | .given v, .given w => equal v w
  | v, w =>
      match v.quantity?, w.quantity? with
      | some a, some b => sameQuantity a b
      | _, _ => false

/-- Whether a value is zero. -/
def isZero (v : Value) : Bool := v.equal (.int 0)

/-- How two binary64 values compare; nothing compares with what is not a number. -/
def orderFloats (x y : Float) : Option Ordering :=
  if x < y then some .lt else if y < x then some .gt else if x == y then some .eq else none

/-- How two values compare: none if values of their kinds have no order, and an inner none if
    one of them is not a number. -/
def order? (v w : Value) : Option (Option Ordering) :=
  match v, w with
  | .text s, .text t =>
      some (some (if s < t then .lt else if t < s then .gt else .eq))
  | _, _ =>
      match v.quantity?, w.quantity? with
      | some (.int m), some (.int n) => some (some (compare m n))
      | some (.int m), some (.float y) => some (Number.compareInt m y)
      | some (.float x), some (.int n) => some ((Number.compareInt n x).map Ordering.swap)
      | some (.float x), some (.float y) => some (orderFloats x y)
      | _, _ => none

/-- The ordering comparisons. -/
inductive Relation where
  | less | greater | lessEqual | greaterEqual
  deriving DecidableEq, Repr

/-- How an ordering comparison is written. -/
def Relation.symbol : Relation → String
  | .less => "<"
  | .greater => ">"
  | .lessEqual => "<="
  | .greaterEqual => ">="

/-- Whether an ordering comparison holds of values that compare so. -/
def Relation.holds : Relation → Ordering → Bool
  | .less, o => o == .lt
  | .greater, o => o == .gt
  | .lessEqual, o => o != .gt
  | .greaterEqual, o => o != .lt

/-- Whether an ordering comparison holds. -/
def related (v : Value) (r : Relation) (w : Value) : Except Fault Bool :=
  match v.order? w with
  | some (some o) => .ok (r.holds o)
  | some none => .ok false
  | none => .error (.unordered r.symbol v.kindName w.kindName)

/-- The outcome of a written comparison. -/
def compareBy (comparator : String) (v w : Value) : Except Fault Bool :=
  if comparator = "==" then .ok (v.equal w)
  else if comparator = "!=" then .ok (!v.equal w)
  else if comparator = "<" then v.related .less w
  else if comparator = ">" then v.related .greater w
  else if comparator = "<=" then v.related .lessEqual w
  else if comparator = ">=" then v.related .greaterEqual w
  else .error (.unknownComparison comparator)

end Value

end BraceScript
