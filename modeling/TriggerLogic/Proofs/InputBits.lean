import TriggerLogic.Proofs.ClauseMeaning

namespace TriggerLogic

theorem rangeWidth_pos {range : Text} {width : Nat} (found : rangeWidth range = .ok width) :
    0 < width := by
  unfold rangeWidth at found
  simp only at found
  split at found
  · cases found
  split at found
  · split at found
    · cases found
    split at found
    · cases found
    split at found
    · cases found
    split at found
    · cases found
    split at found
    · cases found
      exact Nat.succ_pos _
    · cases found
  · cases found

theorem Declaration.width_pos {code : Text} {offset : Nat} {declaration : Declaration}
    (found : Declaration.read code offset = .ok (some declaration)) : 0 < declaration.width := by
  obtain ⟨type, -, ⟨-, single⟩ | ⟨range, -, ranged⟩⟩ := Declaration.read_eq_ok found
  · rw [single]
    exact Nat.one_pos
  · exact rangeWidth_pos ranged

namespace Reading

def DeclaredOn (lines : List Text) (reading : Reading) : Prop :=
  ∀ input ∈ reading.inputs, ∃ raw ∈ lines, ∃ offset declaration,
    Declaration.read (Line.code raw) offset = .ok (some declaration) ∧
      input.name ∈ declaration.names ∧ input.width = declaration.width

variable {markers : Markers} {lines : List Text} {reading next : Reading} {offset : Nat} {raw : Text}

theorem DeclaredOn.declare {declaration : Declaration} (before : reading.DeclaredOn lines)
    (listed : raw ∈ lines)
    (found : Declaration.read (Line.code raw) offset = .ok (some declaration)) :
    (reading.declare declaration).DeclaredOn lines := by
  unfold Reading.declare
  split
  · intro input member
    rcases List.mem_append.mp member with earlier | added
    · exact before input earlier
    · obtain ⟨name, named, rfl⟩ := List.mem_map.mp added
      exact ⟨raw, listed, offset, declaration, found, named, rfl⟩
  · split
    · exact before
    · exact before
  · exact before
  · exact before

theorem DeclaredOn.step (before : reading.DeclaredOn lines) (listed : raw ∈ lines)
    (stepped : reading.step markers offset raw = .ok next) : next.DeclaredOn lines := by
  rcases step_cases stepped with ⟨-, rfl⟩ | ⟨-, part, rfl⟩ | ⟨-, declaration, declared, rfl⟩
  · exact before
  · exact before
  · exact before.declare listed declared

end Reading

theorem DesignUnit.exists_declaration {markers : Markers} {source : Text} {unit : DesignUnit}
    (found : DesignUnit.read markers source = .ok unit) :
    ∀ input ∈ unit.inputs, ∃ raw ∈ Text.lines source, ∃ offset declaration,
      Declaration.read (Line.code raw) offset = .ok (some declaration) ∧
        input.name ∈ declaration.names ∧ input.width = declaration.width := by
  obtain ⟨reading, stepped, rfl⟩ := DesignUnit.read_eq_ok found
  have kept : reading.DeclaredOn (Text.lines source) := by
    apply Reading.steps_preserves_of_mem _ stepped
    · intro input member
      cases member
    · intro before after offset raw listed stepped declared
      exact declared.step listed stepped
  exact kept

theorem DesignUnit.width_pos {markers : Markers} {source : Text} {unit : DesignUnit}
    (found : DesignUnit.read markers source = .ok unit) : ∀ input ∈ unit.inputs, 0 < input.width := by
  intro input member
  obtain ⟨raw, -, offset, declaration, declared, -, width⟩ := exists_declaration found input member
  rw [width]
  exact Declaration.width_pos declared

namespace Layout

/-- Each field has bits and ends where the input bits do or before. -/
def Placed (layout : Layout) : Prop :=
  ∀ field ∈ layout.fields, 0 < field.width ∧ field.start + field.width ≤ layout.totalBits

theorem stop_le_of_mem_place {start : Nat} {declarations : List InputDeclaration} {field : Field}
    (member : field ∈ place start declarations) :
    field.start + field.width ≤ start + totalBits ⟨place start declarations⟩ := by
  induction declarations generalizing start with
  | nil => cases member
  | cons declaration declarations ih =>
    have total : totalBits ⟨place start (declaration :: declarations)⟩ =
        declaration.width + totalBits ⟨place (start + declaration.width) declarations⟩ := rfl
    rw [total]
    rcases List.mem_cons.mp member with rfl | later
    · simp only
      omega
    · have stop := ih later
      omega

theorem placed_place {declarations : List InputDeclaration}
    (positive : ∀ declaration ∈ declarations, 0 < declaration.width) :
    Placed ⟨place 0 declarations⟩ := by
  intro field member
  constructor
  · have width : field.width ∈ declarations.map InputDeclaration.width :=
      widths_place 0 declarations ▸ List.mem_map_of_mem member
    obtain ⟨declaration, declared, same⟩ := List.mem_map.mp width
    rw [← same]
    exact positive declaration declared
  · have stop := stop_le_of_mem_place member
    omega

end Layout

theorem DecisionTable.placed_of_ofSource {markers : Markers} {source : Text} {table : DecisionTable}
    (accepted : ofSource markers source = .ok table) : table.layout.Placed := by
  obtain ⟨unit, found, built⟩ := ofSource_eq_ok accepted
  rw [(ofUnit_eq_ok built).1]
  exact Layout.placed_place (DesignUnit.width_pos found)

def Product.Over (allowed : Nat → Prop) (product : Product) : Prop :=
  product ≠ [] ∧ ∀ literal ∈ product, allowed literal.bit

def SumOfProducts.Over (allowed : Nat → Prop) (sum : SumOfProducts) : Prop :=
  ∀ product ∈ sum, Product.Over allowed product

theorem SumOfProducts.Over.mono {allowed wider : Nat → Prop} {sum : SumOfProducts}
    (covered : sum.Over allowed) (implies : ∀ bit, allowed bit → wider bit) : sum.Over wider := by
  intro product member
  obtain ⟨nonempty, inside⟩ := covered product member
  exact ⟨nonempty, fun literal listed => implies _ (inside literal listed)⟩

namespace Comparison

def Inside (first width bit : Nat) : Prop :=
  first ≤ bit ∧ bit < first + width

theorem over_anyHigh {allowed : Nat → Prop} {bits : List Nat} (inside : ∀ bit ∈ bits, allowed bit) :
    SumOfProducts.Over allowed (anyHigh bits) := by
  intro product member
  obtain ⟨bit, listed, rfl⟩ := List.mem_map.mp member
  refine ⟨List.cons_ne_nil _ _, ?_⟩
  intro literal single
  rw [List.mem_singleton.mp single]
  exact inside bit listed

theorem inside_of_mem_upperBits {first width skipped bit : Nat}
    (member : bit ∈ upperBits first width skipped) : Inside first width bit := by
  rw [mem_upperBits] at member
  unfold Inside
  omega

theorem over_above {first width threshold : Nat} {sum : SumOfProducts}
    (found : above first width threshold = .ok sum) : sum.Over (Inside first width) := by
  have upper : ∀ skipped, SumOfProducts.Over (Inside first width)
      (anyHigh (upperBits first width skipped)) :=
    fun skipped => over_anyHigh fun bit member => inside_of_mem_upperBits member
  obtain ⟨-, ⟨rfl, rfl⟩ | ⟨rfl, rfl⟩ | ⟨rfl, rfl⟩ | ⟨rfl, rfl⟩⟩ := above_eq_ok found
  · exact upper 0
  · exact upper 1
  · intro product member
    rcases List.mem_append.mp member with lowest | higher
    · split at lowest
      · rename_i wide
        rw [List.mem_singleton.mp lowest]
        simp only [Product.Over, Inside, Literal.high, List.forall_mem_cons]
        exact ⟨List.cons_ne_nil _ _, by omega, by omega, by simp⟩
      · cases lowest
    · exact upper 2 product higher
  · exact upper 2

theorem over_equal {first width threshold : Nat} {product : Product}
    (found : equal first width threshold = .ok product) : product.Over (Inside first width) := by
  obtain ⟨nonempty, shape⟩ := equal_eq_ok found
  have lowest : Inside first width first := by
    unfold Inside
    omega
  have upper : ∀ literal ∈ allLow (upperBits first width 1), Inside first width literal.bit := by
    intro literal member
    obtain ⟨bit, listed, rfl⟩ := List.mem_map.mp member
    exact inside_of_mem_upperBits listed
  rcases shape with ⟨rfl, rfl⟩ | ⟨rfl, rfl⟩ | ⟨rfl, rfl⟩
  · exact ⟨List.cons_ne_nil _ _, List.forall_mem_cons.mpr ⟨lowest, upper⟩⟩
  · exact ⟨List.cons_ne_nil _ _, List.forall_mem_cons.mpr ⟨lowest, upper⟩⟩
  · exact ⟨List.cons_ne_nil _ _,
      List.forall_mem_cons.mpr ⟨lowest, List.forall_mem_cons.mpr ⟨lowest, upper⟩⟩⟩

theorem over_sum {comparator : Comparator} {first width threshold : Nat} {sum : SumOfProducts}
    (found : Comparison.sum comparator first width threshold = .ok sum) :
    sum ≠ [] ∧ sum.Over (Inside first width) := by
  rcases sum_eq_ok found with ⟨-, above⟩ | ⟨-, product, equal, rfl⟩
  · exact ⟨(above_eq_ok above).1, over_above above⟩
  · refine ⟨List.cons_ne_nil _ _, ?_⟩
    intro single member
    rw [List.mem_singleton.mp member]
    exact over_equal equal

end Comparison

def Demand.bits : Demand → List Nat
  | .literal asked => [asked.bit]
  | .compare _ field _ => field.bits

theorem Demand.InLayout.bit_lt {layout : Layout} {demand : Demand} (inLayout : demand.InLayout layout)
    (placed : layout.Placed) {bit : Nat} (asked : bit ∈ demand.bits) : bit < layout.totalBits := by
  cases demand with
  | literal literal =>
    obtain ⟨field, declared, start⟩ := inLayout
    obtain ⟨wide, stop⟩ := placed field declared
    rw [List.mem_singleton.mp asked, start]
    omega
  | compare comparator field threshold =>
    obtain ⟨-, stop⟩ := placed field inLayout
    have inside := List.mem_range'_1.mp asked
    omega

theorem Clause.over_sum {clause : Clause} {sum : SumOfProducts} (found : clause.sum = .ok sum) :
    sum ≠ [] ∧ sum.Over (· ∈ clause.demand.bits) := by
  rcases Clause.sum_eq_ok found with ⟨literal, demanded, rfl⟩ |
    ⟨comparator, field, threshold, demanded, expanded⟩
  · rw [demanded]
    refine ⟨List.cons_ne_nil _ _, ?_⟩
    simp [SumOfProducts.Over, Product.Over, Demand.bits]
  · rw [demanded]
    obtain ⟨nonempty, covered⟩ := Comparison.over_sum expanded
    exact ⟨nonempty, covered.mono fun bit inside => List.mem_range'_1.mpr inside⟩

namespace SumOfProducts

theorem over_conjoin? {allowed : Nat → Prop} {alternatives : List SumOfProducts}
    {sum : SumOfProducts} (found : conjoin? alternatives = some sum) (nonempty : alternatives ≠ [])
    (each : ∀ choices ∈ alternatives, choices ≠ [] ∧ choices.Over allowed) : sum.Over allowed := by
  obtain ⟨-, rfl⟩ := conjoin?_eq_some_iff.mp found
  intro product member
  obtain ⟨slot, -, rfl⟩ := List.mem_map.mp member
  rw [combination_slotPicks]
  have dealt : ∀ choices ∈ alternatives,
      Product.Over allowed (choices.getD (slot % choices.length) []) := fun choices listed =>
    (each choices listed).2 _ (dealt_mem slot (each choices listed).1)
  constructor
  · obtain ⟨choices, more, rfl⟩ := List.exists_cons_of_ne_nil nonempty
    rw [List.flatMap_cons]
    exact List.append_ne_nil_of_left_ne_nil (dealt choices List.mem_cons_self).1 _
  · intro literal taken
    obtain ⟨choices, listed, chosen⟩ := List.mem_flatMap.mp taken
    exact (dealt choices listed).2 literal chosen

theorem conjoin?_ne_nil {alternatives : List SumOfProducts} {sum : SumOfProducts}
    (found : conjoin? alternatives = some sum) (nonempty : ∀ choices ∈ alternatives, choices ≠ []) :
    sum ≠ [] := by
  obtain ⟨-, rfl⟩ := conjoin?_eq_some_iff.mp found
  rw [← List.length_pos_iff, List.length_map, List.length_range]
  exact Dealing.combinationCount_pos_iff.mpr nonempty

end SumOfProducts

theorem over_sums {clauses : List Clause} {sums : List SumOfProducts}
    (expanded : List.Forall₂ (fun clause sum => Clause.sum clause = .ok sum) clauses sums) :
    ∀ sum ∈ sums, sum ≠ [] ∧ sum.Over fun bit => ∃ clause ∈ clauses, bit ∈ clause.demand.bits := by
  induction expanded with
  | nil => simp
  | @cons clause sum clauses sums found _ ih =>
    obtain ⟨nonempty, covered⟩ := Clause.over_sum found
    rw [List.forall_mem_cons]
    refine ⟨⟨nonempty, covered.mono fun bit asked => ⟨clause, List.mem_cons_self, asked⟩⟩, ?_⟩
    intro later member
    obtain ⟨laterNonempty, laterCovered⟩ := ih later member
    refine ⟨laterNonempty, laterCovered.mono ?_⟩
    rintro bit ⟨other, listed, asked⟩
    exact ⟨other, List.mem_cons_of_mem clause listed, asked⟩

namespace Decision

variable {layout : Layout} {decision : Decision}

def AsksAbout (decision : Decision) (bit : Nat) : Prop :=
  ∃ clause ∈ decision.clauses, bit ∈ clause.demand.bits

theorem Expanded.bit_lt (expanded : decision.Expanded layout) (placed : layout.Placed) {bit : Nat}
    (asked : decision.AsksAbout bit) : bit < layout.totalBits := by
  obtain ⟨clause, listed, inClause⟩ := asked
  exact (expanded.inLayout clause listed).bit_lt placed inClause

theorem Expanded.sum_over_asked (expanded : decision.Expanded layout) :
    decision.sum.Over decision.AsksAbout := by
  obtain ⟨sums, steps, dealt⟩ := expanded.dealt
  apply SumOfProducts.over_conjoin? dealt _ (over_sums steps)
  rw [← List.length_pos_iff, ← steps.length_eq, List.length_pos_iff]
  exact expanded.nonempty

theorem Expanded.sum_over (expanded : decision.Expanded layout) (placed : layout.Placed) :
    decision.sum.Over (· < layout.totalBits) :=
  expanded.sum_over_asked.mono fun _ asked => expanded.bit_lt placed asked

theorem Expanded.sum_ne_nil (expanded : decision.Expanded layout) : decision.sum ≠ [] := by
  obtain ⟨sums, steps, dealt⟩ := expanded.dealt
  exact SumOfProducts.conjoin?_ne_nil dealt fun sum member => (over_sums steps sum member).1

end Decision

end TriggerLogic
