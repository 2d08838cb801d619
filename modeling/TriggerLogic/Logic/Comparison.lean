import TriggerLogic.Logic.SumOfProducts

namespace TriggerLogic

def thresholdBound : Nat := 0x100000000

inductive Comparator where
  | above
  | equal
  deriving DecidableEq, Repr

def Comparator.symbol : Comparator → Text
  | .above => ['>']
  | .equal => ['=']

inductive ComparisonFault where
  | unsupported (comparator : Comparator) (threshold : Nat)
  | empty
  deriving DecidableEq, Repr

namespace Comparison

def upperBits (first width skipped : Nat) : List Nat :=
  List.range' (first + skipped) (width - skipped)

theorem mem_upperBits (first width skipped bit : Nat) :
    bit ∈ upperBits first width skipped ↔ first + skipped ≤ bit ∧ bit < first + max skipped width := by
  simp only [upperBits, List.mem_range'_1]
  omega

def anyHigh (bits : List Nat) : SumOfProducts :=
  bits.map fun bit => [Literal.high bit]

def above (first width threshold : Nat) : Except ComparisonFault SumOfProducts :=
  let sum? : Option SumOfProducts := match threshold with
    | 0 => some (anyHigh (upperBits first width 0))
    | 1 => some (anyHigh (upperBits first width 1))
    | 2 =>
      let both := if 2 ≤ width then [[Literal.high first, Literal.high (first + 1)]] else []
      some (both ++ anyHigh (upperBits first width 2))
    | 3 => some (anyHigh (upperBits first width 2))
    | _ => none
  match sum? with
  | none => .error (.unsupported .above threshold)
  | some [] => .error .empty
  | some sum => .ok sum

def allLow (bits : List Nat) : Product :=
  bits.map Literal.low

/-- The product for a field equal to `threshold`. For two it is contradictory. -/
def equal (first width threshold : Nat) : Except ComparisonFault Product :=
  if width = 0 then .error .empty
  else match threshold with
    | 0 => .ok (Literal.low first :: allLow (upperBits first width 1))
    | 1 => .ok (Literal.high first :: allLow (upperBits first width 1))
    | 2 => .ok (Literal.low first :: Literal.high first :: allLow (upperBits first width 1))
    | _ => .error (.unsupported .equal threshold)

def sum (comparator : Comparator) (first width threshold : Nat) :
    Except ComparisonFault SumOfProducts :=
  match comparator with
  | .above => above first width threshold
  | .equal => (equal first width threshold).map fun product => [product]

end Comparison

end TriggerLogic
