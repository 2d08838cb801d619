import TriggerLogic.Proofs.Dealing
import TriggerLogic.Proofs.DecisionOrigin
import TriggerLogic.Proofs.FieldValue

namespace TriggerLogic

def Field.value (field : Field) (input : List Bool) : Nat :=
  Comparison.fieldValue field.start field.width input

/-- What a demand means for an input. No field is taken to equal two. -/
def Demand.Holds (input : List Bool) : Demand → Prop
  | .literal asked => input.getD asked.bit false = !asked.negated
  | .compare .above field threshold => threshold < field.value input
  | .compare .equal field threshold => threshold < 2 ∧ field.value input = threshold

instance (input : List Bool) (demand : Demand) : Decidable (demand.Holds input) :=
  match demand with
  | .literal _ => inferInstanceAs (Decidable (_ = _))
  | .compare .above _ _ => inferInstanceAs (Decidable (_ < _))
  | .compare .equal _ _ => inferInstanceAs (Decidable (_ ∧ _))

def Clause.alternativeCount (clause : Clause) : Nat :=
  match clause.sum with
  | .ok sum => sum.length
  | .error _ => 0

theorem Comparison.sum_eq_ok {comparator : Comparator} {first width threshold : Nat}
    {sum : SumOfProducts} (found : Comparison.sum comparator first width threshold = .ok sum) :
    comparator = .above ∧ Comparison.above first width threshold = .ok sum ∨
      comparator = .equal ∧ ∃ product,
        Comparison.equal first width threshold = .ok product ∧ sum = [product] := by
  cases comparator with
  | above => exact .inl ⟨rfl, found⟩
  | equal =>
    obtain ⟨product, single, rfl⟩ := map_eq_ok_iff.mp found
    exact .inr ⟨rfl, product, single, rfl⟩

theorem Clause.sum_eq_ok {clause : Clause} {sum : SumOfProducts} (found : clause.sum = .ok sum) :
    (∃ literal, clause.demand = .literal literal ∧ sum = [[literal]]) ∨
      ∃ comparator field threshold, clause.demand = .compare comparator field threshold ∧
        Comparison.sum comparator field.start field.width threshold = .ok sum := by
  unfold Clause.sum at found
  split at found
  · rename_i literal demanded
    cases found
    exact .inl ⟨literal, demanded, rfl⟩
  · rename_i comparator field threshold demanded
    split at found
    · rename_i expanded
      cases found
      exact .inr ⟨comparator, field, threshold, demanded, expanded⟩
    · cases found
    · cases found

/-- The sum of a clause holds exactly where the clause does. -/
theorem Clause.holds_sum_iff {clause : Clause} {sum : SumOfProducts} (found : clause.sum = .ok sum)
    (input : List Bool) :
    SumOfProducts.holds sum input = true ↔ clause.demand.Holds input := by
  rcases Clause.sum_eq_ok found with ⟨literal, demanded, rfl⟩ |
    ⟨comparator, field, threshold, demanded, expanded⟩
  · rw [demanded]
    cases negated : literal.negated <;>
      simp [SumOfProducts.holds, Product.holds, Literal.holds, Demand.Holds, negated]
  · rw [demanded]
    rcases Comparison.sum_eq_ok expanded with ⟨rfl, above⟩ | ⟨rfl, product, equal, rfl⟩
    · exact Comparison.holds_above_iff above input
    · have single : SumOfProducts.holds [product] input = Product.holds product input := by
        simp [SumOfProducts.holds]
      rw [single]
      exact Comparison.holds_equal_iff equal input

section Expansion

variable {clauses : List Clause} {sums : List SumOfProducts}

theorem alternativeCounts_eq
    (expanded : List.Forall₂ (fun clause sum => Clause.sum clause = .ok sum) clauses sums) :
    clauses.map Clause.alternativeCount = sums.map List.length := by
  induction expanded with
  | nil => rfl
  | cons found _ ih =>
    rw [List.map_cons, List.map_cons, ih, Clause.alternativeCount, found]

theorem forall_holds_sums_iff
    (expanded : List.Forall₂ (fun clause sum => Clause.sum clause = .ok sum) clauses sums)
    (input : List Bool) :
    (∀ sum ∈ sums, SumOfProducts.holds sum input = true) ↔
      ∀ clause ∈ clauses, clause.demand.Holds input := by
  induction expanded with
  | nil => simp
  | cons found _ ih =>
    rw [List.forall_mem_cons, List.forall_mem_cons, ih, Clause.holds_sum_iff found]

end Expansion

namespace Decision

variable {layout : Layout} {decision : Decision}

theorem clauses_hold_of_holds (expanded : decision.Expanded layout) {input : List Bool}
    (high : decision.holds input = true) : ∀ clause ∈ decision.clauses, clause.demand.Holds input := by
  obtain ⟨sums, steps, dealt⟩ := expanded.dealt
  exact (forall_holds_sums_iff steps input).mp (SumOfProducts.holds_of_holds_conjoin? dealt high)

theorem holds_of_clauses_hold (expanded : decision.Expanded layout) {input : List Bool}
    (coprime : (decision.clauses.map Clause.alternativeCount).Pairwise Nat.Coprime)
    (hold : ∀ clause ∈ decision.clauses, clause.demand.Holds input) :
    decision.holds input = true := by
  obtain ⟨sums, steps, dealt⟩ := expanded.dealt
  rw [alternativeCounts_eq steps] at coprime
  exact SumOfProducts.holds_conjoin?_of_coprime dealt coprime
    ((forall_holds_sums_iff steps input).mpr hold)

end Decision

/-- An output is high only where all its clauses hold, and wherever they do if their numbers of
alternatives have no common divisors. -/
theorem output_high_iff_clauses_hold {markers : Markers} {source : Text} {table : DecisionTable}
    (accepted : DecisionTable.ofSource markers source = .ok table) {bit : Nat} {name : Text}
    {decision : Decision} (listed : (bit, name, decision) ∈ table.decided) (input : List Bool) :
    ((table.evaluate input)[bit]? = some true →
        ∀ clause ∈ decision.clauses, clause.demand.Holds input) ∧
      ((decision.clauses.map Clause.alternativeCount).Pairwise Nat.Coprime →
        (∀ clause ∈ decision.clauses, clause.demand.Holds input) →
        (table.evaluate input)[bit]? = some true) := by
  have expanded : decision.Expanded table.layout :=
    DecisionTable.expanded_of_decided accepted listed
  rw [DecisionTable.evaluate_decided listed, Option.some.injEq]
  exact ⟨Decision.clauses_hold_of_holds expanded, Decision.holds_of_clauses_hold expanded⟩

theorem sample_high_where_clauses_hold :
    DecisionTable.ofSource {} DecisionTable.sampleSource = .ok DecisionTable.sampleTable ∧
      (0, "zzx".toList, DecisionTable.sampleAbove) ∈ DecisionTable.sampleTable.decided ∧
      (∀ clause ∈ DecisionTable.sampleAbove.clauses,
        clause.demand.Holds [true, false, true, false, true]) ∧
      (DecisionTable.sampleTable.evaluate [true, false, true, false, true])[0]? = some true := by
  have listed : (0, "zzx".toList, DecisionTable.sampleAbove) ∈ DecisionTable.sampleTable.decided := by
    decide
  have meaning := output_high_iff_clauses_hold DecisionTable.ofSource_sample listed
    [true, false, true, false, true]
  have clauses := meaning.1 (by decide)
  exact ⟨DecisionTable.ofSource_sample, listed, clauses, meaning.2 (by decide) clauses⟩

end TriggerLogic
