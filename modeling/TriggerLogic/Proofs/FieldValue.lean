import Mathlib.Data.Nat.Bitwise
import TriggerLogic.Logic.Comparison

namespace TriggerLogic

theorem Literal.holds_high_iff (bit : Nat) (input : List Bool) :
    (Literal.high bit).holds input = true ↔ input.getD bit false = true := by
  simp [Literal.high, Literal.holds]

theorem Literal.holds_low_iff (bit : Nat) (input : List Bool) :
    (Literal.low bit).holds input = true ↔ input.getD bit false = false := by
  simp [Literal.low, Literal.holds]

theorem Product.holds_cons (literal : Literal) (product : Product) (input : List Bool) :
    Product.holds (literal :: product) input =
      (literal.holds input && Product.holds product input) := rfl

theorem SumOfProducts.holds_append (first second : SumOfProducts) (input : List Bool) :
    SumOfProducts.holds (first ++ second) input =
      (SumOfProducts.holds first input || SumOfProducts.holds second input) :=
  List.any_append

namespace Comparison

/-- The number whose bits, lowest first, are the `width` input bits from `first` on. -/
def fieldValue (first width : Nat) (input : List Bool) : Nat :=
  Nat.ofBits fun place : Fin width => input.getD (first + place) false

theorem testBit_fieldValue (first width place : Nat) (input : List Bool) :
    (fieldValue first width input).testBit place = true ↔
      place < width ∧ input.getD (first + place) false = true := by
  rw [fieldValue, Nat.testBit_ofBits]
  split <;> simp_all

/-- A value reaches a power of two exactly when one of the bits from that place on is high. -/
theorem two_pow_le_fieldValue_iff (first width skipped : Nat) (input : List Bool) :
    2 ^ skipped ≤ fieldValue first width input ↔
      ∃ bit ∈ upperBits first width skipped, input.getD bit false = true := by
  constructor
  · intro large
    obtain ⟨place, above, set⟩ := Nat.exists_ge_and_testBit_of_ge_two_pow large
    obtain ⟨inside, high⟩ := (testBit_fieldValue first width place input).mp set
    refine ⟨first + place, ?_, high⟩
    rw [mem_upperBits]
    omega
  · rintro ⟨bit, member, high⟩
    rw [mem_upperBits] at member
    have same : first + (bit - first) = bit := by omega
    have set : (fieldValue first width input).testBit (bit - first) = true := by
      rw [testBit_fieldValue, same]
      exact ⟨by omega, high⟩
    have reached := Nat.ge_two_pow_of_testBit set
    have mono : 2 ^ skipped ≤ 2 ^ (bit - first) := Nat.pow_le_pow_right (by decide) (by omega)
    omega

theorem fieldValue_odd_iff (first width : Nat) (input : List Bool) (nonempty : 0 < width) :
    fieldValue first width input % 2 = 1 ↔ input.getD first false = true := by
  rw [Nat.mod_two_eq_one_iff_testBit_zero, testBit_fieldValue]
  simp [nonempty]

theorem holds_anyHigh_iff (bits : List Nat) (input : List Bool) :
    SumOfProducts.holds (anyHigh bits) input = true ↔ ∃ bit ∈ bits, input.getD bit false = true := by
  simp [SumOfProducts.holds, anyHigh, Product.holds, Literal.high, Literal.holds]

theorem holds_allLow_iff (bits : List Nat) (input : List Bool) :
    Product.holds (allLow bits) input = true ↔ ∀ bit ∈ bits, input.getD bit false = false := by
  simp [allLow, Product.holds, Literal.low, Literal.holds]

theorem two_lt_iff_bits (value : Nat) :
    2 < value ↔ value.testBit 0 = true ∧ value.testBit 1 = true ∨ 2 ^ 2 ≤ value := by
  simp only [Nat.testBit_eq_decide_div_mod_eq, decide_eq_true_eq]
  omega

theorem above_eq_ok {first width threshold : Nat} {sum : SumOfProducts}
    (found : above first width threshold = .ok sum) :
    sum ≠ [] ∧
      (threshold = 0 ∧ sum = anyHigh (upperBits first width 0) ∨
        threshold = 1 ∧ sum = anyHigh (upperBits first width 1) ∨
        threshold = 2 ∧ sum =
          (if 2 ≤ width then [[Literal.high first, Literal.high (first + 1)]] else []) ++
            anyHigh (upperBits first width 2) ∨
        threshold = 3 ∧ sum = anyHigh (upperBits first width 2)) := by
  simp only [above] at found
  split at found
  · cases found
  · cases found
  · rename_i nonempty chosen
    cases found
    refine ⟨nonempty, ?_⟩
    split at chosen
    · exact .inl ⟨rfl, Option.some.inj chosen.symm⟩
    · exact .inr (.inl ⟨rfl, Option.some.inj chosen.symm⟩)
    · exact .inr (.inr (.inl ⟨rfl, Option.some.inj chosen.symm⟩))
    · exact .inr (.inr (.inr ⟨rfl, Option.some.inj chosen.symm⟩))
    · cases chosen

theorem equal_eq_ok {first width threshold : Nat} {product : Product}
    (found : equal first width threshold = .ok product) :
    0 < width ∧
      (threshold = 0 ∧ product = Literal.low first :: allLow (upperBits first width 1) ∨
        threshold = 1 ∧ product = Literal.high first :: allLow (upperBits first width 1) ∨
        threshold = 2 ∧ product =
          Literal.low first :: Literal.high first :: allLow (upperBits first width 1)) := by
  simp only [equal] at found
  split at found
  · cases found
  · rename_i nonempty
    refine ⟨Nat.pos_of_ne_zero nonempty, ?_⟩
    split at found
    · exact .inl ⟨rfl, Except.ok.inj found.symm⟩
    · exact .inr (.inl ⟨rfl, Except.ok.inj found.symm⟩)
    · exact .inr (.inr ⟨rfl, Except.ok.inj found.symm⟩)
    · cases found

theorem holds_anyHigh_upperBits_iff (first width skipped : Nat) (input : List Bool) :
    SumOfProducts.holds (anyHigh (upperBits first width skipped)) input = true ↔
      2 ^ skipped ≤ fieldValue first width input := by
  rw [holds_anyHigh_iff, two_pow_le_fieldValue_iff]

theorem holds_allLow_upperBits_iff (first width skipped : Nat) (input : List Bool) :
    Product.holds (allLow (upperBits first width skipped)) input = true ↔
      fieldValue first width input < 2 ^ skipped := by
  rw [holds_allLow_iff, ← Nat.not_le, two_pow_le_fieldValue_iff]
  simp

theorem holds_lowestPair_iff (first width : Nat) (input : List Bool) :
    SumOfProducts.holds
        (if 2 ≤ width then [[Literal.high first, Literal.high (first + 1)]] else []) input = true ↔
      (fieldValue first width input).testBit 0 = true ∧
        (fieldValue first width input).testBit 1 = true := by
  rw [testBit_fieldValue, testBit_fieldValue]
  split
  · rename_i wide
    have lowest : 0 < width := by omega
    have second : 1 < width := by omega
    simp [SumOfProducts.holds, Product.holds, Literal.high, Literal.holds, lowest, second]
  · rename_i narrow
    constructor
    · intro never
      cases never
    · intro both
      omega

theorem holds_above_iff {first width threshold : Nat} {sum : SumOfProducts}
    (found : above first width threshold = .ok sum) (input : List Bool) :
    SumOfProducts.holds sum input = true ↔ threshold < fieldValue first width input := by
  obtain ⟨-, ⟨rfl, rfl⟩ | ⟨rfl, rfl⟩ | ⟨rfl, rfl⟩ | ⟨rfl, rfl⟩⟩ := above_eq_ok found
  · rw [holds_anyHigh_upperBits_iff]
    omega
  · rw [holds_anyHigh_upperBits_iff]
    omega
  · rw [SumOfProducts.holds_append, Bool.or_eq_true, holds_lowestPair_iff,
      holds_anyHigh_upperBits_iff, two_lt_iff_bits]
  · rw [holds_anyHigh_upperBits_iff]
    omega

theorem holds_equal_iff {first width threshold : Nat} {product : Product}
    (found : equal first width threshold = .ok product) (input : List Bool) :
    Product.holds product input = true ↔
      threshold < 2 ∧ fieldValue first width input = threshold := by
  obtain ⟨nonempty, shape⟩ := equal_eq_ok found
  have upper := holds_allLow_upperBits_iff first width 1 input
  have lowest := fieldValue_odd_iff first width input nonempty
  rcases shape with ⟨rfl, rfl⟩ | ⟨rfl, rfl⟩ | ⟨rfl, rfl⟩
  · rw [Product.holds_cons, Bool.and_eq_true, upper, Literal.holds_low_iff, ← Bool.not_eq_true,
      ← lowest]
    omega
  · rw [Product.holds_cons, Bool.and_eq_true, upper, Literal.holds_high_iff, ← lowest]
    omega
  · rw [Product.holds_cons, Product.holds_cons, Bool.and_eq_true, Bool.and_eq_true,
      Literal.holds_low_iff, Literal.holds_high_iff]
    simp_all

theorem length_anyHigh_upperBits (first width skipped : Nat) :
    (anyHigh (upperBits first width skipped)).length = width - skipped := by
  simp [anyHigh, upperBits]

theorem anyHigh_upperBits_eq_nil_iff (first width skipped : Nat) :
    anyHigh (upperBits first width skipped) = [] ↔ 2 ^ width ≤ 2 ^ skipped := by
  rw [← List.length_eq_zero_iff, length_anyHigh_upperBits, Nat.pow_le_pow_iff_right Nat.one_lt_two]
  omega

/-- A supported comparison is refused only when even the greatest value of the field fails it. -/
theorem above_of_supported (first width : Nat) {threshold : Nat} (supported : threshold ≤ 3) :
    ∃ sum : SumOfProducts, (sum = [] ↔ 2 ^ width ≤ threshold + 1) ∧
      above first width threshold = if sum = [] then .error .empty else .ok sum := by
  have cases : threshold = 0 ∨ threshold = 1 ∨ threshold = 2 ∨ threshold = 3 := by omega
  rcases cases with rfl | rfl | rfl | rfl
  · refine ⟨_, anyHigh_upperBits_eq_nil_iff first width 0, ?_⟩
    rw [above]
    cases anyHigh (upperBits first width 0) <;> rfl
  · refine ⟨_, anyHigh_upperBits_eq_nil_iff first width 1, ?_⟩
    rw [above]
    cases anyHigh (upperBits first width 1) <;> rfl
  · refine ⟨(if 2 ≤ width then [[Literal.high first, Literal.high (first + 1)]] else []) ++
      anyHigh (upperBits first width 2), ?_, ?_⟩
    · by_cases wide : 2 ≤ width
      · have large : 2 ^ 2 ≤ 2 ^ width := Nat.pow_le_pow_right Nat.zero_lt_two wide
        rw [if_pos wide]
        simp only [List.cons_append, List.nil_append, reduceCtorEq, false_iff]
        omega
      · have small : 2 ^ width ≤ 2 ^ 1 := Nat.pow_le_pow_right Nat.zero_lt_two (by omega)
        rw [if_neg wide, List.nil_append, anyHigh_upperBits_eq_nil_iff]
        omega
    · simp only [above]
      generalize (if 2 ≤ width then [[Literal.high first, Literal.high (first + 1)]] else []) ++
        anyHigh (upperBits first width 2) = sum
      cases sum <;> rfl
  · refine ⟨_, anyHigh_upperBits_eq_nil_iff first width 2, ?_⟩
    rw [above]
    cases anyHigh (upperBits first width 2) <;> rfl

theorem above_of_unsupported (first width : Nat) {threshold : Nat} (large : 3 < threshold) :
    above first width threshold = .error (.unsupported .above threshold) := by
  obtain ⟨rest, rfl⟩ : ∃ rest, threshold = rest + 4 := ⟨threshold - 4, by omega⟩
  rfl

theorem above_cases (first width threshold : Nat) :
    3 < threshold ∧ above first width threshold = .error (.unsupported .above threshold) ∨
      (threshold ≤ 3 ∧ 2 ^ width ≤ threshold + 1) ∧ above first width threshold = .error .empty ∨
      (threshold ≤ 3 ∧ threshold + 1 < 2 ^ width) ∧
        ∃ sum, above first width threshold = .ok sum := by
  by_cases supported : threshold ≤ 3
  · obtain ⟨sum, empty, found⟩ := above_of_supported first width supported
    by_cases none : sum = []
    · rw [if_pos none] at found
      exact .inr (.inl ⟨⟨supported, empty.mp none⟩, found⟩)
    · rw [if_neg none] at found
      exact .inr (.inr ⟨⟨supported, Nat.not_le.mp (mt empty.mpr none)⟩, sum, found⟩)
  · have large : 3 < threshold := by omega
    exact .inl ⟨large, above_of_unsupported first width large⟩

theorem equal_cases (first width threshold : Nat) :
    width = 0 ∧ equal first width threshold = .error .empty ∨
      (0 < width ∧ 2 < threshold) ∧
        equal first width threshold = .error (.unsupported .equal threshold) ∨
      (0 < width ∧ threshold ≤ 2) ∧ ∃ product, equal first width threshold = .ok product := by
  by_cases none : width = 0
  · exact .inl ⟨none, if_pos none⟩
  have some : 0 < width := by omega
  have cases : threshold = 0 ∨ threshold = 1 ∨ threshold = 2 ∨ ∃ rest, threshold = rest + 3 := by
    by_cases large : 2 < threshold
    · exact .inr (.inr (.inr ⟨threshold - 3, by omega⟩))
    · omega
  refine .inr ?_
  rcases cases with rfl | rfl | rfl | ⟨rest, rfl⟩
  · exact .inr ⟨⟨some, by omega⟩, _, if_neg none⟩
  · exact .inr ⟨⟨some, by omega⟩, _, if_neg none⟩
  · exact .inr ⟨⟨some, by omega⟩, _, if_neg none⟩
  · exact .inl ⟨⟨some, by omega⟩, if_neg none⟩

theorem fieldValue_lt (first width : Nat) (input : List Bool) :
    fieldValue first width input < 2 ^ width :=
  Nat.ofBits_lt_two_pow _

theorem fieldValue_allHigh (first width : Nat) :
    fieldValue first width (List.replicate (first + width) true) = 2 ^ width - 1 := by
  apply Nat.eq_of_testBit_eq
  intro place
  rw [Nat.testBit_two_pow_sub_one, Bool.eq_iff_iff, testBit_fieldValue, decide_eq_true_eq]
  constructor
  · exact And.left
  · intro inside
    refine ⟨inside, ?_⟩
    rw [List.getD_eq_getElem _ _ (by rw [List.length_replicate]; omega), List.getElem_replicate]

theorem two_pow_le_succ_iff (first width threshold : Nat) :
    2 ^ width ≤ threshold + 1 ↔ ∀ input, fieldValue first width input ≤ threshold := by
  constructor
  · intro small input
    have bound := fieldValue_lt first width input
    omega
  · intro reached
    have greatest := reached (List.replicate (first + width) true)
    rw [fieldValue_allHigh] at greatest
    omega

/-- Comparisons are those of the binary number in the field, the lowest bit first. -/
theorem comparisons_read_binary_values (first width threshold : Nat) :
    (above first width threshold = .error (.unsupported .above threshold) ↔ 3 < threshold) ∧
      (above first width threshold = .error .empty ↔ threshold ≤ 3 ∧ 2 ^ width ≤ threshold + 1) ∧
      (2 ^ width ≤ threshold + 1 ↔ ∀ input, fieldValue first width input ≤ threshold) ∧
      (threshold ≤ 3 ∧ threshold + 1 < 2 ^ width → ∃ sum, above first width threshold = .ok sum ∧
        ∀ input, SumOfProducts.holds sum input = true ↔ threshold < fieldValue first width input) ∧
      (equal first width threshold = .error .empty ↔ width = 0) ∧
      (equal first width threshold = .error (.unsupported .equal threshold) ↔
        0 < width ∧ 2 < threshold) ∧
      (0 < width ∧ threshold ≤ 2 → ∃ product, equal first width threshold = .ok product ∧
        ∀ input, Product.holds product input = true ↔
          threshold < 2 ∧ fieldValue first width input = threshold) := by
  have greater := above_cases first width threshold
  have same := equal_cases first width threshold
  refine ⟨?_, ?_, two_pow_le_succ_iff first width threshold, ?_, ?_, ?_, ?_⟩
  · rcases greater with ⟨_, found⟩ | ⟨_, found⟩ | ⟨_, sum, found⟩ <;> simp [found] <;> omega
  · rcases greater with ⟨_, found⟩ | ⟨_, found⟩ | ⟨_, sum, found⟩ <;> simp [found] <;> omega
  · intro reached
    rcases greater with ⟨large, -⟩ | ⟨out, -⟩ | ⟨-, sum, found⟩
    · omega
    · omega
    · exact ⟨sum, found, holds_above_iff found⟩
  · rcases same with ⟨_, found⟩ | ⟨_, found⟩ | ⟨_, product, found⟩ <;> simp [found] <;> omega
  · rcases same with ⟨_, found⟩ | ⟨_, found⟩ | ⟨_, product, found⟩ <;> simp [found] <;> omega
  · intro supported
    rcases same with ⟨none, -⟩ | ⟨large, -⟩ | ⟨-, product, found⟩
    · omega
    · omega
    · exact ⟨product, found, holds_equal_iff found⟩

theorem threeBits_compared_with_two :
    (2 ≤ 3 ∧ 2 + 1 < 2 ^ 3) ∧ (0 < 3 ∧ 2 ≤ 2) ∧
      ∃ sum product, above 5 3 2 = .ok sum ∧ equal 5 3 2 = .ok product ∧
        (∀ input, SumOfProducts.holds sum input = true ↔ 2 < fieldValue 5 3 input) ∧
        ∀ input, Product.holds product input = true ↔ 2 < 2 ∧ fieldValue 5 3 input = 2 := by
  obtain ⟨-, -, -, greater, -, -, same⟩ := comparisons_read_binary_values 5 3 2
  obtain ⟨sum, found, exceeds⟩ := greater (by decide)
  obtain ⟨product, alsoFound, equals⟩ := same (by decide)
  exact ⟨by decide, by decide, sum, product, found, alsoFound, exceeds, equals⟩

end Comparison

end TriggerLogic
