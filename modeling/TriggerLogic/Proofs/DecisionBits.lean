import TriggerLogic.Proofs.InputBits

namespace TriggerLogic

def SumOfProducts.bits (sum : SumOfProducts) : List Nat :=
  sum.flatMap fun product => product.map Literal.bit

theorem Product.holds_congr {product : Product} {first second : List Bool}
    (agree : ∀ bit ∈ product.map Literal.bit, first.getD bit false = second.getD bit false) :
    Product.holds product first = Product.holds product second := by
  induction product with
  | nil => rfl
  | cons literal product ih =>
    rw [List.map_cons, List.forall_mem_cons] at agree
    have same : literal.holds first = literal.holds second := by
      rw [Literal.holds, Literal.holds, agree.1]
    rw [Product.holds_cons, Product.holds_cons, same, ih agree.2]

theorem SumOfProducts.holds_congr {sum : SumOfProducts} {first second : List Bool}
    (agree : ∀ bit ∈ sum.bits, first.getD bit false = second.getD bit false) :
    SumOfProducts.holds sum first = SumOfProducts.holds sum second := by
  have each : ∀ product ∈ sum, Product.holds product first = Product.holds product second := by
    intro product listed
    apply Product.holds_congr
    intro bit member
    exact agree bit (List.mem_flatMap.mpr ⟨product, listed, member⟩)
  rw [Bool.eq_iff_iff, SumOfProducts.holds_iff, SumOfProducts.holds_iff]
  constructor
  · rintro ⟨product, listed, high⟩
    exact ⟨product, listed, each product listed ▸ high⟩
  · rintro ⟨product, listed, high⟩
    exact ⟨product, listed, (each product listed).symm ▸ high⟩

namespace Decision.Expanded

variable {layout : Layout} {decision : Decision}

theorem product_ne_nil (expanded : decision.Expanded layout) {product : Product}
    (listed : product ∈ decision.sum) : product ≠ [] :=
  (expanded.sum_over_asked product listed).1

theorem asksAbout_of_mem_bits (expanded : decision.Expanded layout) {bit : Nat}
    (member : bit ∈ decision.sum.bits) : decision.AsksAbout bit := by
  obtain ⟨product, listed, inProduct⟩ := List.mem_flatMap.mp member
  obtain ⟨literal, asked, rfl⟩ := List.mem_map.mp inProduct
  exact (expanded.sum_over_asked product listed).2 literal asked

end Decision.Expanded

namespace DecisionTable

theorem length_evaluate (table : DecisionTable) (input : List Bool) :
    (table.evaluate input).length = table.outputs.length :=
  List.length_map _

theorem exists_declared {unit : DesignUnit} {table : DecisionTable} (built : ofUnit unit = .ok table)
    {bit : Nat} {name : Text} {decision : Decision} (listed : (bit, name, decision) ∈ table.decided) :
    ∃ declared, unit.outputs[bit]? = some declared ∧ declared.name = name := by
  have named : (table.outputs.map Output.name)[bit]? = some name := by
    rw [List.getElem?_map, (mem_decided_iff table bit name decision).mp listed]
    rfl
  rw [names_ofUnit built, List.getElem?_map] at named
  exact Option.map_eq_some_iff.mp named

/-- Inputs have bits, each decision belongs to the declared output at its bit, and what it computes
depends on nothing but bits that its own clauses ask about. -/
theorem decisions_read_own_bits {markers : Markers} {source : Text} {table : DecisionTable}
    (accepted : ofSource markers source = .ok table) :
    ∃ unit, DesignUnit.read markers source = .ok unit ∧
      (∀ input ∈ unit.inputs, 1 ≤ input.width) ∧
      (∀ input, (table.evaluate input).length = unit.outputs.length) ∧
      ∀ bit name decision, (bit, name, decision) ∈ table.decided →
        bit < unit.outputs.length ∧
        (∃ declared, unit.outputs[bit]? = some declared ∧ declared.name = name) ∧
        decision.sum ≠ [] ∧
        (∀ product ∈ decision.sum, product ≠ []) ∧
        (∀ asked ∈ decision.sum.bits,
          (∃ clause ∈ decision.clauses, asked ∈ clause.demand.bits) ∧
            asked < table.layout.totalBits) ∧
        ∀ first second : List Bool,
          (∀ asked ∈ decision.sum.bits, first.getD asked false = second.getD asked false) →
          (table.evaluate first)[bit]? = (table.evaluate second)[bit]? := by
  obtain ⟨unit, scanned, built⟩ := ofSource_eq_ok accepted
  have sameLength : table.outputs.length = unit.outputs.length := by
    have lengths := congrArg List.length (names_ofUnit built)
    rwa [List.length_map, List.length_map] at lengths
  refine ⟨unit, scanned, DesignUnit.width_pos scanned, ?_, ?_⟩
  · intro input
    rw [length_evaluate, sameLength]
  · intro bit name decision listed
    have expanded := expanded_of_decided accepted listed
    obtain ⟨declared, placed, named⟩ := exists_declared built listed
    have inside : bit < unit.outputs.length := (List.getElem?_eq_some_iff.mp placed).1
    refine ⟨inside, ⟨declared, placed, named⟩, expanded.sum_ne_nil,
      fun product member => expanded.product_ne_nil member, ?_, ?_⟩
    · intro asked member
      have asks := expanded.asksAbout_of_mem_bits member
      exact ⟨asks, expanded.bit_lt (placed_of_ofSource accepted) asks⟩
    · intro first second agree
      rw [evaluate_decided listed, evaluate_decided listed, Decision.holds, Decision.holds,
        SumOfProducts.holds_congr agree]

theorem sample_reads_own_bits :
    ofSource {} sampleSource = .ok sampleTable ∧ sampleVetoed.sum.bits = [0, 1, 2, 6] ∧
      (sampleTable.evaluate [true, false, false, true, true, true])[1]? =
        (sampleTable.evaluate [true])[1]? := by
  have bits : sampleVetoed.sum.bits = [0, 1, 2, 6] := by decide
  obtain ⟨unit, -, -, -, each⟩ := decisions_read_own_bits ofSource_sample
  obtain ⟨-, -, -, -, -, dependence⟩ := each 1 "ffy".toList sampleVetoed (by decide)
  refine ⟨ofSource_sample, bits, dependence _ _ ?_⟩
  rw [bits]
  decide

end DecisionTable

end TriggerLogic
