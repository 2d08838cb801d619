import TriggerLogic.Proofs.AssignmentOrder
import TriggerLogic.Proofs.InputBits

namespace TriggerLogic

namespace Comparison

theorem length_above_le {first width threshold : Nat} {sum : SumOfProducts}
    (found : above first width threshold = .ok sum) : sum.length ≤ width := by
  obtain ⟨-, ⟨-, rfl⟩ | ⟨-, rfl⟩ | ⟨-, rfl⟩ | ⟨-, rfl⟩⟩ := above_eq_ok found
  · rw [length_anyHigh_upperBits]
    omega
  · rw [length_anyHigh_upperBits]
    omega
  · rw [List.length_append, length_anyHigh_upperBits]
    split
    · rw [List.length_singleton]
      omega
    · rw [List.length_nil]
      omega
  · rw [length_anyHigh_upperBits]
    omega

end Comparison

def Demand.isAbove : Demand → Bool
  | .compare .above _ _ => true
  | .compare .equal _ _ => false
  | .literal _ => false

section Bound

variable {layout : Layout} {bits : Nat}

theorem Clause.length_sum_le {clause : Clause} {sum : SumOfProducts}
    (narrow : ∀ field ∈ layout.fields, field.width ≤ 2 ^ bits)
    (inLayout : clause.demand.InLayout layout) (found : clause.sum = .ok sum) :
    sum.length ≤ 2 ^ (bits * if clause.demand.isAbove then 1 else 0) := by
  rcases Clause.sum_eq_ok found with ⟨literal, demanded, rfl⟩ |
    ⟨comparator, field, threshold, demanded, expanded⟩
  · rw [demanded]
    exact Nat.le_refl 1
  · rw [demanded] at inLayout ⊢
    rcases Comparison.sum_eq_ok expanded with ⟨rfl, above⟩ | ⟨rfl, product, -, rfl⟩
    · show sum.length ≤ 2 ^ (bits * 1)
      rw [Nat.mul_one]
      exact Nat.le_trans (Comparison.length_above_le above) (narrow field inLayout)
    · exact Nat.le_refl 1

theorem combinationCount_le {clauses : List Clause} {sums : List SumOfProducts}
    (narrow : ∀ field ∈ layout.fields, field.width ≤ 2 ^ bits)
    (inLayout : ∀ clause ∈ clauses, clause.demand.InLayout layout)
    (expanded : List.Forall₂ (fun clause sum => Clause.sum clause = .ok sum) clauses sums) :
    Dealing.combinationCount sums ≤
      2 ^ (bits * clauses.countP fun clause => clause.demand.isAbove) := by
  induction expanded with
  | nil => exact Nat.le_refl 1
  | @cons clause sum clauses sums found _ ih =>
    rw [List.forall_mem_cons] at inLayout
    have first := Clause.length_sum_le narrow inLayout.1 found
    have others := ih inLayout.2
    rw [List.countP_cons, Nat.mul_add, Nat.pow_add, Nat.mul_comm (2 ^ _)]
    exact Nat.mul_le_mul first others

end Bound

theorem DecisionTable.decided_of_accepted {markers : Markers} {source : Text} {unit : DesignUnit}
    {table : DecisionTable} (scanned : DesignUnit.read markers source = .ok unit)
    (accepted : ofSource markers source = .ok table) {statement : Statement}
    (listed : statement ∈ unit.statements)
    (named : statement.target ∈ unit.outputs.map OutputDeclaration.name) :
    ∃ decision, Decision.ofStatement table.layout statement = .ok decision := by
  obtain ⟨found, again, built⟩ := ofSource_eq_ok accepted
  cases scanned.symm.trans again
  obtain ⟨layout, -, -, all, rfl⟩ := ofUnit_eq_ok_iff.mp built
  exact all _ named statement (List.mem_filter.mpr ⟨listed, decide_eq_true rfl⟩)

namespace Decision

variable {layout : Layout} {statement : Statement} {clauses : List Clause} {sums : List SumOfProducts}

theorem ofStatement_cases (condition : Condition.read layout statement = .ok clauses)
    (expanded : clauses.mapM Clause.sum = .ok sums) :
    (Dealing.combinationCount sums < indexBound ∧
      ∃ sum, ofStatement layout statement = .ok ⟨clauses, sum⟩ ∧
        sum.length = Dealing.combinationCount sums ∧ sum ≠ []) ∨
    (indexBound ≤ Dealing.combinationCount sums ∧
      ofStatement layout statement = .error .overflow) := by
  have nonempty : ∀ sum ∈ sums, sum ≠ [] := fun sum member =>
    (over_sums (mapM_eq_ok_iff.mp expanded) sum member).1
  have counted := Dealing.counted_iff nonempty
  by_cases small : Dealing.combinationCount sums < indexBound
  · have dealt := SumOfProducts.conjoin?_eq_some_iff.mpr ⟨counted.mpr small, rfl⟩
    refine .inl ⟨small, _, ofStatement_eq_ok_iff.mpr ⟨condition, sums, expanded, dealt⟩, ?_,
      SumOfProducts.conjoin?_ne_nil dealt nonempty⟩
    rw [List.length_map, List.length_range]
  · have failed := SumOfProducts.conjoin?_eq_none_iff.mpr (mt counted.mp small)
    refine .inr ⟨Nat.not_lt.mp small, ?_⟩
    rw [ofStatement]
    simp only [condition, expanded, failed]

/-- The products of a condition whose clauses can all be read and expanded are counted in 64 bits: it
is decided, by at least one product, below 2^64 of them and overflows from there on. So no accepted
source has such a condition. Fewer than 64 / `bits` comparisons by `>` with fields of at most 2^`bits`
bits stay below. -/
theorem products_counted_in_64_bits (condition : Condition.read layout statement = .ok clauses)
    (expanded : clauses.mapM Clause.sum = .ok sums) :
    (Dealing.combinationCount sums < indexBound ↔
      ∃ sum, ofStatement layout statement = .ok ⟨clauses, sum⟩ ∧
        sum.length = Dealing.combinationCount sums ∧ sum ≠ []) ∧
    (indexBound ≤ Dealing.combinationCount sums ↔
      ofStatement layout statement = .error .overflow) ∧
    (∀ markers source unit table, DesignUnit.read markers source = .ok unit →
      DecisionTable.ofSource markers source = .ok table → table.layout = layout →
      statement ∈ unit.statements → statement.target ∈ unit.outputs.map OutputDeclaration.name →
      Dealing.combinationCount sums < indexBound) ∧
    ∀ bits, (∀ field ∈ layout.fields, field.width ≤ 2 ^ bits) →
      bits * clauses.countP (fun clause => clause.demand.isAbove) < 64 →
      Dealing.combinationCount sums < indexBound := by
  have cases := ofStatement_cases condition expanded
  refine ⟨?_, ?_, ?_, ?_⟩
  · rcases cases with ⟨small, sum, found⟩ | ⟨large, failed⟩
    · exact iff_of_true small ⟨sum, found⟩
    · rw [failed]
      exact iff_of_false (Nat.not_lt.mpr large) (by simp)
  · rcases cases with ⟨small, sum, found, -⟩ | ⟨large, failed⟩
    · rw [found]
      exact iff_of_false (Nat.not_le.mpr small) (by simp)
    · exact iff_of_true large failed
  · rintro markers source unit table scanned accepted rfl listed named
    obtain ⟨decision, decided⟩ :=
      DecisionTable.decided_of_accepted scanned accepted listed named
    rcases cases with ⟨small, -⟩ | ⟨-, failed⟩
    · exact small
    · rw [decided] at failed
      cases failed
  · intro bits narrow few
    have inLayout := (Condition.clauses_of_read condition).2
    exact Nat.lt_of_le_of_lt (combinationCount_le narrow inLayout (mapM_eq_ok_iff.mp expanded))
      (Nat.pow_lt_pow_right Nat.one_lt_two few)

end Decision

namespace DecisionTable

def sampleStatement : Statement :=
  ⟨"zzx".toList, " '1' when full>1 and short>0 else '0'".toList, ⟨266, 303⟩, ⟨260, 304⟩⟩

def sampleSums : List SumOfProducts :=
  [[[.high 1], [.high 2]], [[.high 3], [.high 4], [.high 5]]]

theorem sampleStatement_counted :
    Condition.read sampleTable.layout sampleStatement = .ok sampleAbove.clauses ∧
      sampleAbove.clauses.mapM Clause.sum = .ok sampleSums ∧
      ∃ sum, Decision.ofStatement sampleTable.layout sampleStatement = .ok ⟨sampleAbove.clauses, sum⟩ ∧
        sum.length = 6 ∧ sum ≠ [] := by
  have condition : Condition.read sampleTable.layout sampleStatement = .ok sampleAbove.clauses := by
    decide +kernel
  have expanded : sampleAbove.clauses.mapM Clause.sum = .ok sampleSums := by decide +kernel
  obtain ⟨decides, -, -, bounded⟩ := Decision.products_counted_in_64_bits condition expanded
  exact ⟨condition, expanded, decides.mp (bounded 2 (by decide) (by decide))⟩

def crowdedLines : List Text :=
  ["-- Inputs\n".toList, "signal a : std_logic_vector(15 downto 0);\n".toList,
    "-- Outputs\n".toList, "signal y : std_logic;\n".toList, "begin\n".toList,
    "y <= a>0".toList ++ (List.replicate 15 " and a>0".toList).flatten ++ ";\n".toList]

def crowdedUnit : DesignUnit where
  inputs := [⟨['a'], 16, ⟨10, 51⟩⟩]
  outputs := [⟨['y'], ⟨63, 84⟩⟩]
  statements := [⟨['y'], " a>0".toList ++ (List.replicate 15 " and a>0".toList).flatten, ⟨95, 219⟩,
    ⟨91, 220⟩⟩]

def crowdedClauses : List Clause :=
  (List.range 16).map fun index =>
    ⟨.compare .above ⟨['a'], 0, 16⟩ 0, "a>0".toList, ⟨96 + 8 * index, 99 + 8 * index⟩⟩

def crowdedSums : List SumOfProducts :=
  List.replicate 16 ((List.range 16).map fun bit => [.high bit])

/-- All clauses can be read and expanded, but there are 16^16 products. -/
theorem crowdedLines_overflow :
    DesignUnit.read {} crowdedLines.flatten = .ok crowdedUnit ∧
      (∀ statement ∈ crowdedUnit.statements,
        Condition.read ⟨[⟨['a'], 0, 16⟩]⟩ statement = .ok crowdedClauses) ∧
      crowdedClauses.mapM Clause.sum = .ok crowdedSums ∧
      Dealing.combinationCount crowdedSums = indexBound ∧
      ofSource {} crowdedLines.flatten = .error .overflow := by
  decide +kernel

end DecisionTable

end TriggerLogic
