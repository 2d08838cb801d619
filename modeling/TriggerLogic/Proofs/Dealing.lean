import Mathlib.Algebra.Order.BigOperators.GroupWithZero.List
import Mathlib.Data.List.Forall2
import Mathlib.Data.List.GetD
import TriggerLogic.Logic.SumOfProducts
import TriggerLogic.Proofs.Residues

namespace TriggerLogic

namespace Dealing

variable {α : Type}

def combinationCount (lists : List (List α)) : Nat :=
  (lists.map List.length).prod

/-- Every product of lengths on the way from the left is below 2^64. -/
def Counted (lists : List (List α)) : Prop :=
  ∀ lengths, lengths <+: lists.map List.length → lengths.prod < indexBound

/-- The number of the item that slot number `slot` takes from each list. -/
def slotPicks (lists : List (List α)) (slot : Nat) : List Nat :=
  lists.map fun choices => slot % choices.length

def picked (lists : List (List α)) (picks : List Nat) : List α :=
  (List.zipWith (fun choices pick => choices[pick]?.toList) lists picks).flatten

def PicksFrom (lists : List (List α)) (picks : List Nat) : Prop :=
  List.Forall₂ (fun choices pick => pick < choices.length) lists picks

instance (lists : List (List α)) (picks : List Nat) : Decidable (PicksFrom lists picks) :=
  inferInstanceAs (Decidable (List.Forall₂ _ lists picks))

def pickResidues (lists : List (List α)) (picks : List Nat) : List (Nat × Nat) :=
  picks.zip (lists.map List.length)

/-- The numbers of the items in their place. -/
def numbered (lists : List (List α)) : List (List Nat) :=
  lists.map fun choices => List.range choices.length

section Counting

variable {lists : List (List α)}

theorem combinationCount_eq_zero_iff : combinationCount lists = 0 ↔ [] ∈ lists := by
  rw [combinationCount, List.prod_eq_zero_iff, List.mem_map]
  simp

theorem combinationCount_pos_iff :
    0 < combinationCount lists ↔ ∀ choices ∈ lists, choices ≠ [] := by
  rw [Nat.pos_iff_ne_zero, Ne, combinationCount_eq_zero_iff]
  exact List.forall_mem_ne'.symm

theorem nonempty_of_slot_lt {slot : Nat} (inside : slot < combinationCount lists) :
    ∀ choices ∈ lists, choices ≠ [] :=
  combinationCount_pos_iff.mp (Nat.zero_lt_of_lt inside)

theorem foldlM_countWith?_eq_some_iff {count total : Nat} (fits : count < indexBound) :
    lists.foldlM countWith? count = some total ↔
      (∀ lengths, lengths <+: lists.map List.length → count * lengths.prod < indexBound) ∧
        count * combinationCount lists = total := by
  induction lists generalizing count with
  | nil => simp [combinationCount, fits]
  | cons choices lists ih =>
    have whole : count * combinationCount (choices :: lists) =
        count * choices.length * combinationCount lists := by
      rw [combinationCount, List.map_cons, List.prod_cons, ← Nat.mul_assoc]
      rfl
    rw [List.foldlM_cons, countWith?, List.map_cons, whole]
    by_cases small : count * choices.length < indexBound
    · rw [if_pos small, Option.bind_eq_bind, Option.bind_some, ih small]
      refine and_congr_left fun _ => ⟨?_, ?_⟩
      · rintro fit lengths ahead
        rcases List.prefix_cons_iff.mp ahead with rfl | ⟨more, rfl, later⟩
        · simpa using fits
        · rw [List.prod_cons, ← Nat.mul_assoc]
          exact fit more later
      · intro fit lengths ahead
        have longer := fit (choices.length :: lengths) (List.prefix_cons_iff.mpr
          (.inr ⟨lengths, rfl, ahead⟩))
        rwa [List.prod_cons, ← Nat.mul_assoc] at longer
    · rw [if_neg small]
      refine iff_of_false (by simp) ?_
      rintro ⟨fit, -⟩
      have first := fit [choices.length] (by simp)
      rw [List.prod_singleton] at first
      exact small first

theorem slotCount?_eq_some_iff {count : Nat} :
    slotCount? lists = some count ↔ Counted lists ∧ combinationCount lists = count := by
  rw [slotCount?, foldlM_countWith?_eq_some_iff (by decide)]
  simp only [Nat.one_mul, Counted]

theorem Counted.count_lt (fits : Counted lists) : combinationCount lists < indexBound :=
  fits _ (List.prefix_refl _)

/-- Only an empty list can make a count small again. -/
theorem counted_iff (nonempty : ∀ choices ∈ lists, choices ≠ []) :
    Counted lists ↔ combinationCount lists < indexBound := by
  refine ⟨Counted.count_lt, ?_⟩
  rintro small lengths ⟨more, same⟩
  have positive : 0 < more.prod := by
    apply List.prod_pos
    intro length later
    have listed : length ∈ lists.map List.length := same ▸ List.mem_append_right lengths later
    obtain ⟨choices, member, rfl⟩ := List.mem_map.mp listed
    exact List.length_pos_iff.mpr (nonempty choices member)
  rw [combinationCount, ← same, List.prod_append] at small
  exact Nat.lt_of_le_of_lt (Nat.le_mul_of_pos_right _ positive) small

end Counting

section Slots

variable {lists slots : List (List α)}

theorem hand_eq_picked (lists : List (List α)) (slot : Nat) :
    hand (lists.map List.toArray) slot = picked lists (slotPicks lists slot) := by
  simp [hand, picked, slotPicks, List.zipWith_map_right, List.flatMap, Function.comp_def]

theorem deal?_eq_some_iff :
    deal? lists = some slots ↔ Counted lists ∧
      (List.range (combinationCount lists)).map (fun slot => picked lists (slotPicks lists slot)) =
        slots := by
  have hands : hand (lists.map List.toArray) = fun slot => picked lists (slotPicks lists slot) :=
    funext (hand_eq_picked lists)
  simp only [deal?, Option.map_eq_some_iff, slotCount?_eq_some_iff, hands, and_assoc,
    exists_and_left, exists_eq_left']

theorem lengths_numbered (lists : List (List α)) :
    (numbered lists).map List.length = lists.map List.length := by
  simp [numbered, Function.comp_def]

theorem picksFrom_slotPicks (slot : Nat) (nonempty : ∀ choices ∈ lists, choices ≠ []) :
    PicksFrom lists (slotPicks lists slot) := by
  induction lists with
  | nil => exact List.Forall₂.nil
  | cons choices lists ih =>
    rw [List.forall_mem_cons] at nonempty
    exact List.Forall₂.cons (Nat.mod_lt slot (List.length_pos_iff.mpr nonempty.1)) (ih nonempty.2)

theorem picked_numbered {picks : List Nat} (inRange : PicksFrom lists picks) :
    picked (numbered lists) picks = picks := by
  induction inRange with
  | nil => rfl
  | cons bound _ ih =>
    simp only [picked, numbered] at ih
    simp [picked, numbered, List.getElem?_range bound, ih]

/-- Numbers are dealt as the items are, so that a slot shows which of them it takes. -/
theorem deal?_numbered (nonempty : ∀ choices ∈ lists, choices ≠ []) (fits : Counted lists) :
    deal? (numbered lists) = some ((List.range (combinationCount lists)).map (slotPicks lists)) := by
  rw [deal?_eq_some_iff, Counted, combinationCount, lengths_numbered]
  refine ⟨fits, List.map_congr_left fun slot _ => ?_⟩
  have picks : slotPicks (numbered lists) slot = slotPicks lists slot := by
    simp [slotPicks, numbered]
  rw [picks, picked_numbered (picksFrom_slotPicks slot nonempty)]

end Slots

section Picks

variable {lists : List (List α)} {picks : List Nat}

theorem PicksFrom.nonempty (inRange : PicksFrom lists picks) : ∀ choices ∈ lists, choices ≠ [] := by
  induction inRange with
  | nil => simp
  | cons bound _ ih =>
    exact List.forall_mem_cons.mpr ⟨List.ne_nil_of_length_pos (Nat.zero_lt_of_lt bound), ih⟩

theorem PicksFrom.moduli (inRange : PicksFrom lists picks) :
    (pickResidues lists picks).map Prod.snd = lists.map List.length := by
  apply List.map_snd_zip
  rw [List.length_map, inRange.length_eq]

theorem PicksFrom.moduli_pos (inRange : PicksFrom lists picks) :
    ∀ residue ∈ pickResidues lists picks, 0 < residue.2 := by
  intro residue member
  have modulus : residue.2 ∈ lists.map List.length :=
    inRange.moduli ▸ List.mem_map_of_mem member
  obtain ⟨choices, listed, same⟩ := List.mem_map.mp modulus
  exact same ▸ List.length_pos_iff.mpr (inRange.nonempty choices listed)

/-- A slot takes the given items exactly when its number has their residues. -/
theorem slotPicks_eq_iff (inRange : PicksFrom lists picks) (slot : Nat) :
    slotPicks lists slot = picks ↔ Residues.Solves (pickResidues lists picks) slot := by
  induction inRange with
  | nil => simp [slotPicks, pickResidues, Residues.Solves]
  | @cons choices pick lists picks bound _ ih =>
    have first : slot % choices.length = pick ↔ slot ≡ pick [MOD choices.length] := by
      rw [Nat.ModEq, Nat.mod_eq_of_lt bound]
    simp only [slotPicks, pickResidues, Residues.Solves] at ih ⊢
    simp only [List.map_cons, List.cons.injEq, List.zip_cons_cons, List.forall_mem_cons, first, ih]

theorem count_map_range (content : Nat → List Nat) (picks : List Nat) (count : Nat) :
    ((List.range count).map content).count picks = Nat.count (fun slot => content slot = picks) count := by
  induction count with
  | zero => rfl
  | succ count ih =>
    rw [List.range_succ, List.map_append, List.count_append, ih, Nat.count_succ, List.map_singleton,
      List.count_singleton]
    simp

theorem count_slotPicks (inRange : PicksFrom lists picks) :
    ((List.range (combinationCount lists)).map (slotPicks lists)).count picks =
      if Residues.Compatible (pickResidues lists picks) then
        combinationCount lists / Residues.commonMultiple (lists.map List.length)
      else 0 := by
  have whole : Residues.commonMultiple ((pickResidues lists picks).map Prod.snd) ∣
      combinationCount lists := by
    rw [inRange.moduli]
    exact Residues.commonMultiple_dvd_prod _
  have counted := Residues.count_solves inRange.moduli_pos whole
  rw [inRange.moduli] at counted
  rw [count_map_range, ← counted]
  simp only [Nat.count_eq_card_filter_range, slotPicks_eq_iff inRange]

theorem count_slotPicks_of_coprime (inRange : PicksFrom lists picks)
    (coprime : (lists.map List.length).Pairwise Nat.Coprime) :
    ((List.range (combinationCount lists)).map (slotPicks lists)).count picks = 1 := by
  have compatible : Residues.Compatible (pickResidues lists picks) := by
    apply Residues.compatible_of_coprime
    rwa [inRange.moduli]
  rw [count_slotPicks inRange, if_pos compatible, Residues.commonMultiple_eq_prod coprime]
  exact Nat.div_self (combinationCount_pos_iff.mpr inRange.nonempty)

end Picks

end Dealing

namespace SumOfProducts

open Dealing

def combination (alternatives : List SumOfProducts) (picks : List Nat) : Product :=
  (picked alternatives picks).flatten

variable {alternatives : List SumOfProducts} {sum : SumOfProducts} {input : List Bool}

theorem combination_slotPicks (alternatives : List SumOfProducts) (slot : Nat) :
    combination alternatives (slotPicks alternatives slot) =
      alternatives.flatMap fun choices => choices.getD (slot % choices.length) [] := by
  have taken : ∀ choices : SumOfProducts,
      choices[slot % choices.length]?.toList.flatten = choices.getD (slot % choices.length) [] := by
    intro choices
    rw [List.getD_eq_getElem?_getD]
    cases choices[slot % choices.length]? <;> simp
  simp only [combination, picked, slotPicks, List.zipWith_map_right, List.zipWith_self, List.flatMap,
    List.flatten_flatten, List.map_map, Function.comp_def, taken]

theorem conjoin?_eq_some_iff :
    conjoin? alternatives = some sum ↔ Counted alternatives ∧
      (List.range (combinationCount alternatives)).map (fun slot =>
        combination alternatives (slotPicks alternatives slot)) = sum := by
  simp only [conjoin?, Option.map_eq_some_iff, deal?_eq_some_iff, and_assoc, exists_and_left,
    exists_eq_left', List.map_map, combination, Function.comp_def]

theorem conjoin?_eq_none_iff : conjoin? alternatives = none ↔ ¬ Counted alternatives := by
  simp [Option.eq_none_iff_forall_ne_some, conjoin?_eq_some_iff]

/-- How often each combination is dealt, told by dealing the numbers of the alternatives in their
place: lists whose lengths share a divisor repeat the combinations that agree modulo it and leave the
others out. From 2^64 combinations on nothing is dealt at all. -/
theorem slots_of_each_combination (alternatives : List SumOfProducts) (picks : List Nat)
    (inRange : PicksFrom alternatives picks) :
    (combinationCount alternatives < indexBound → ∃ slots,
      deal? (numbered alternatives) = some slots ∧
      conjoin? alternatives = some (slots.map (combination alternatives)) ∧
      slots = (List.range (combinationCount alternatives)).map (slotPicks alternatives) ∧
      slots.count picks =
        (if Residues.Compatible (pickResidues alternatives picks) then
          combinationCount alternatives / Residues.commonMultiple (alternatives.map List.length)
        else 0) ∧
      ((alternatives.map List.length).Pairwise Nat.Coprime → slots.count picks = 1)) ∧
    (indexBound ≤ combinationCount alternatives → conjoin? alternatives = none) := by
  constructor
  · intro small
    have fits := (counted_iff inRange.nonempty).mpr small
    refine ⟨_, deal?_numbered inRange.nonempty fits, ?_, rfl, count_slotPicks inRange,
      count_slotPicks_of_coprime inRange⟩
    rw [conjoin?_eq_some_iff, List.map_map]
    exact ⟨fits, rfl⟩
  · intro large
    rw [conjoin?_eq_none_iff, counted_iff inRange.nonempty]
    exact Nat.not_lt.mpr large

def samplePair : SumOfProducts :=
  [[.high 4], [.low 4]]

def sampleQuadruple : SumOfProducts :=
  [[.high 0], [.high 1], [.high 2], [.low 3]]

theorem slots_of_last_pair :
    PicksFrom [samplePair, sampleQuadruple] [1, 3] ∧
      ∃ slots, deal? (numbered [samplePair, sampleQuadruple]) = some slots ∧
        conjoin? [samplePair, sampleQuadruple] =
          some (slots.map (combination [samplePair, sampleQuadruple])) ∧
        slots.count [1, 3] = 2 := by
  have inRange : PicksFrom [samplePair, sampleQuadruple] [1, 3] := by decide
  obtain ⟨slots, dealt, conjoined, -, counted, -⟩ :=
    (slots_of_each_combination _ _ inRange).1 (by decide)
  exact ⟨inRange, slots, dealt, conjoined, counted.trans (by decide)⟩

def manyPairs : List SumOfProducts :=
  List.replicate 64 [[.high 0], [.high 1]]

/-- Half of the 2^64 slots should take the first alternative of each list. -/
theorem manyPairs_not_dealt :
    PicksFrom manyPairs (List.replicate 64 0) ∧
      Residues.Compatible (pickResidues manyPairs (List.replicate 64 0)) ∧
      combinationCount manyPairs / Residues.commonMultiple (manyPairs.map List.length) = 2 ^ 63 ∧
      conjoin? manyPairs = none := by
  decide +kernel

theorem dealt_mem {choices : SumOfProducts} (slot : Nat) (nonempty : choices ≠ []) :
    choices.getD (slot % choices.length) [] ∈ choices := by
  have bound := Nat.mod_lt slot (List.length_pos_iff.mpr nonempty)
  rw [List.getD_eq_getElem _ _ bound]
  exact List.getElem_mem bound

theorem holds_combination_iff (alternatives : List SumOfProducts) (slot : Nat) (input : List Bool) :
    Product.holds (combination alternatives (slotPicks alternatives slot)) input = true ↔
      ∀ choices ∈ alternatives,
        Product.holds (choices.getD (slot % choices.length) []) input = true := by
  rw [combination_slotPicks, Product.holds_flatMap, List.all_eq_true]

theorem holds_conjoin?_iff (found : conjoin? alternatives = some sum) :
    holds sum input = true ↔ ∃ slot < combinationCount alternatives,
      Product.holds (combination alternatives (slotPicks alternatives slot)) input = true := by
  obtain ⟨-, rfl⟩ := conjoin?_eq_some_iff.mp found
  simp only [holds_iff, List.mem_map, List.mem_range, exists_exists_and_eq_and]

theorem nonempty_of_holds (found : conjoin? alternatives = some sum)
    (high : holds sum input = true) : ∀ choices ∈ alternatives, choices ≠ [] := by
  obtain ⟨slot, inside, -⟩ := (holds_conjoin?_iff found).mp high
  exact nonempty_of_slot_lt inside

theorem holds_of_holds_conjoin? (found : conjoin? alternatives = some sum)
    (high : holds sum input = true) : ∀ choices ∈ alternatives, holds choices input = true := by
  obtain ⟨slot, -, satisfied⟩ := (holds_conjoin?_iff found).mp high
  intro choices listed
  have nonempty := nonempty_of_holds found high choices listed
  have chosen := (holds_combination_iff alternatives slot input).mp satisfied choices listed
  exact (holds_iff choices input).mpr ⟨_, dealt_mem slot nonempty, chosen⟩

theorem exists_picks (high : ∀ choices ∈ alternatives, holds choices input = true) :
    ∃ picks, PicksFrom alternatives picks ∧
      Product.holds (combination alternatives picks) input = true := by
  induction alternatives with
  | nil => exact ⟨[], List.Forall₂.nil, rfl⟩
  | cons choices alternatives ih =>
    rw [List.forall_mem_cons] at high
    obtain ⟨picks, inRange, satisfied⟩ := ih high.2
    obtain ⟨product, member, holdsFirst⟩ := (holds_iff choices input).mp high.1
    obtain ⟨pick, bound, rfl⟩ := List.mem_iff_getElem.mp member
    refine ⟨pick :: picks, List.Forall₂.cons bound inRange, ?_⟩
    simp only [combination, picked] at satisfied
    simp [combination, picked, Product.holds_append, holdsFirst, satisfied, bound]

theorem holds_conjoin?_of_coprime (found : conjoin? alternatives = some sum)
    (coprime : (alternatives.map List.length).Pairwise Nat.Coprime)
    (high : ∀ choices ∈ alternatives, holds choices input = true) : holds sum input = true := by
  obtain ⟨picks, inRange, satisfied⟩ := exists_picks high
  have once := count_slotPicks_of_coprime inRange coprime
  have taken : picks ∈ (List.range (combinationCount alternatives)).map (slotPicks alternatives) := by
    apply List.count_pos_iff.mp
    rw [once]
    exact Nat.one_pos
  obtain ⟨slot, bound, rfl⟩ := List.mem_map.mp taken
  exact (holds_conjoin?_iff found).mpr ⟨slot, List.mem_range.mp bound, satisfied⟩

end SumOfProducts

end TriggerLogic
