import TriggerLogic.Proofs.SlotWalk

namespace TriggerLogic

theorem Product.holds_perm {first second : Product} (perm : first.Perm second) (input : List Bool) :
    Product.holds first input = Product.holds second input :=
  perm.all_eq

namespace SumOfProducts

open Dealing

section Order

variable {alternatives permuted : List SumOfProducts} (perm : alternatives.Perm permuted)

include perm

theorem combinationCount_perm : combinationCount alternatives = combinationCount permuted :=
  (perm.map List.length).prod_eq

theorem combination_perm (slot : Nat) :
    (combination alternatives (slotPicks alternatives slot)).Perm
      (combination permuted (slotPicks permuted slot)) := by
  rw [combination_slotPicks, combination_slotPicks]
  exact perm.flatMap_right _

/-- The slots stay what they are, up to the order of their literals. -/
theorem conjoin?_perm {sum other : SumOfProducts} (found : conjoin? alternatives = some sum)
    (foundToo : conjoin? permuted = some other) : List.Forall₂ List.Perm sum other := by
  obtain ⟨-, rfl⟩ := conjoin?_eq_some_iff.mp found
  obtain ⟨-, rfl⟩ := conjoin?_eq_some_iff.mp foundToo
  rw [combinationCount_perm perm, List.forall₂_map_left_iff, List.forall₂_map_right_iff,
    List.forall₂_same]
  exact fun slot _ => combination_perm perm slot

theorem map_holds_conjoin?_perm {sum other : SumOfProducts}
    (found : conjoin? alternatives = some sum) (foundToo : conjoin? permuted = some other)
    (input : List Bool) :
    (sum.map fun product => Product.holds product input) =
      other.map fun product => Product.holds product input := by
  rw [← List.forall₂_eq_eq_eq, List.forall₂_map_left_iff, List.forall₂_map_right_iff]
  exact (conjoin?_perm perm found foundToo).imp fun _ _ same => Product.holds_perm same input

theorem holds_conjoin?_perm {sum other : SumOfProducts} (found : conjoin? alternatives = some sum)
    (foundToo : conjoin? permuted = some other) (input : List Bool) :
    holds sum input = holds other input := by
  have same := congrArg (List.any · id) (map_holds_conjoin?_perm perm found foundToo input)
  simp only [List.any_map, Function.id_comp] at same
  exact same

theorem counted_perm (nonempty : [] ∉ alternatives) (fits : Counted alternatives) :
    Counted permuted := by
  have each : ∀ choices ∈ permuted, choices ≠ [] := by
    rintro _ listed rfl
    exact nonempty (perm.mem_iff.mpr listed)
  rw [counted_iff each, ← combinationCount_perm perm]
  exact fits.count_lt

/-- The order of the lists changes neither the number of slots nor where each of them holds. Only
where one of the lists is empty can counting fail in one order and not in another, which then has no
slots. -/
theorem order_changes_no_value (input : List Bool) :
    (∀ sum other, conjoin? alternatives = some sum → conjoin? permuted = some other →
      other.length = sum.length ∧
      (∀ slot : Nat, (other[slot]?.map fun product => Product.holds product input) =
        sum[slot]?.map fun product => Product.holds product input) ∧
      holds other input = holds sum input) ∧
    (∀ sum, conjoin? alternatives = some sum → conjoin? permuted = none →
      [] ∈ alternatives ∧ sum = []) ∧
    ([] ∉ alternatives → combinationCount alternatives < indexBound →
      ∃ sum other, conjoin? alternatives = some sum ∧ conjoin? permuted = some other) := by
  refine ⟨?_, ?_, ?_⟩
  · intro sum other found foundToo
    refine ⟨(conjoin?_perm perm found foundToo).length_eq.symm, ?_,
      (holds_conjoin?_perm perm found foundToo input).symm⟩
    intro slot
    rw [← List.getElem?_map, ← List.getElem?_map, map_holds_conjoin?_perm perm found foundToo]
  · intro sum found failed
    obtain ⟨fits, rfl⟩ := conjoin?_eq_some_iff.mp found
    have empty : [] ∈ alternatives := by
      by_contra nonempty
      exact conjoin?_eq_none_iff.mp failed (counted_perm perm nonempty fits)
    rw [combinationCount_eq_zero_iff.mpr empty]
    exact ⟨empty, rfl⟩
  · intro nonempty small
    have fits : Counted alternatives := by
      rw [counted_iff fun choices listed empty => nonempty (empty ▸ listed)]
      exact small
    exact ⟨_, _, conjoin?_eq_some_iff.mpr ⟨fits, rfl⟩,
      conjoin?_eq_some_iff.mpr ⟨counted_perm perm nonempty fits, rfl⟩⟩

end Order

theorem sampleQuadruple_before_samplePair :
    [samplePair, sampleQuadruple].Perm [sampleQuadruple, samplePair] ∧
      ∃ sum other, conjoin? [samplePair, sampleQuadruple] = some sum ∧
        conjoin? [sampleQuadruple, samplePair] = some other ∧
        holds other [false, true] = holds sum [false, true] := by
  have swap : [samplePair, sampleQuadruple].Perm [sampleQuadruple, samplePair] :=
    List.Perm.swap _ _ _
  obtain ⟨agree, -, dealt⟩ := order_changes_no_value swap [false, true]
  obtain ⟨sum, other, found, foundToo⟩ := dealt (by decide) (by decide)
  exact ⟨swap, sum, other, found, foundToo, (agree sum other found foundToo).2.2⟩

/-- An empty list leaves no slots when it comes first, and nothing to be counted when it comes behind
2^64 combinations. -/
theorem nothing_before_manyPairs :
    (manyPairs ++ [[]]).Perm ([] :: manyPairs) ∧ conjoin? ([] :: manyPairs) = some [] ∧
      conjoin? (manyPairs ++ [[]]) = none :=
  ⟨List.perm_append_singleton [] manyPairs, by decide +kernel, by decide +kernel⟩

section Addition

variable {choices : SumOfProducts} {alternatives : List SumOfProducts} {input : List Bool}

theorem slotPicks_mod {period : Nat}
    (whole : ∀ choices ∈ alternatives, choices.length ∣ period) (slot : Nat) :
    slotPicks alternatives (slot % period) = slotPicks alternatives slot :=
  List.map_congr_left fun choices listed => Nat.mod_mod_of_dvd slot (whole choices listed)

theorem holds_conjoin?_of_slot {sum : SumOfProducts} {slot : Nat}
    (nonempty : ∀ choices ∈ alternatives, choices ≠ []) (found : conjoin? alternatives = some sum)
    (satisfied : Product.holds (combination alternatives (slotPicks alternatives slot)) input = true) :
    holds sum input = true := by
  have whole : ∀ choices ∈ alternatives, choices.length ∣ combinationCount alternatives :=
    fun choices listed => List.dvd_prod (List.mem_map_of_mem listed)
  rw [holds_conjoin?_iff found]
  refine ⟨slot % combinationCount alternatives, Nat.mod_lt _ (combinationCount_pos_iff.mpr nonempty), ?_⟩
  rw [slotPicks_mod whole]
  exact satisfied

theorem counted_of_insert {before after : List SumOfProducts}
    (nonempty : ∀ list ∈ before ++ choices :: after, list ≠ [])
    (fewer : ∀ list ∈ before ++ after, list ≠ [])
    (fits : Counted (before ++ choices :: after)) : Counted (before ++ after) := by
  have longer : combinationCount (before ++ choices :: after) =
      choices.length * combinationCount (before ++ after) := by
    rw [combinationCount_perm List.perm_middle, combinationCount, List.map_cons, List.prod_cons]
    rfl
  have positive : 0 < choices.length := List.length_pos_iff.mpr (nonempty choices (by simp))
  have bound := fits.count_lt
  rw [longer] at bound
  exact (counted_iff fewer).mpr (Nat.lt_of_le_of_lt (Nat.le_mul_of_pos_left _ positive) bound)

/-- A list added anywhere raises nothing: wherever the slots with it hold, so do those without it,
which can be counted too, and an alternative of the added list. -/
theorem added_list_raises_nothing {before after : List SumOfProducts} {sum : SumOfProducts}
    (found : conjoin? (before ++ choices :: after) = some sum) (high : holds sum input = true) :
    ∃ fewer, conjoin? (before ++ after) = some fewer ∧ holds fewer input = true ∧
      holds choices input = true := by
  have inside : before ++ after ⊆ before ++ choices :: after :=
    ((List.Sublist.refl before).append (List.sublist_cons_self choices after)).subset
  have nonempty := nonempty_of_holds found high
  have each : ∀ list ∈ before ++ after, list ≠ [] := fun list listed =>
    nonempty list (inside listed)
  obtain ⟨slot, -, satisfied⟩ := (holds_conjoin?_iff found).mp high
  have without : Product.holds (combination (before ++ after) (slotPicks (before ++ after) slot))
      input = true := by
    rw [holds_combination_iff] at satisfied ⊢
    exact fun list listed => satisfied list (inside listed)
  have fits := counted_of_insert nonempty each (conjoin?_eq_some_iff.mp found).1
  have dealt := conjoin?_eq_some_iff.mpr ⟨fits, rfl⟩
  exact ⟨_, dealt, holds_conjoin?_of_slot each dealt without,
    holds_of_holds_conjoin? found high choices (by simp)⟩

end Addition

theorem samplePair_added :
    ∃ sum fewer, conjoin? ([sampleQuadruple] ++ samplePair :: [[[.low 0], [.low 5], [.low 6]]]) =
        some sum ∧ holds sum [false, true] = true ∧
      conjoin? ([sampleQuadruple] ++ [[[.low 0], [.low 5], [.low 6]]]) = some fewer ∧
      holds fewer [false, true] = true := by
  have dealt : ∃ sum, conjoin? ([sampleQuadruple] ++ samplePair :: [[[.low 0], [.low 5], [.low 6]]]) =
      some sum ∧ holds sum [false, true] = true :=
    ⟨_, rfl, by decide +kernel⟩
  obtain ⟨sum, found, high⟩ := dealt
  obtain ⟨fewer, foundToo, highToo, -⟩ := added_list_raises_nothing found high
  exact ⟨sum, fewer, found, high, foundToo, highToo⟩

end SumOfProducts

end TriggerLogic
