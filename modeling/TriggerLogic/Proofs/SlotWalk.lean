import TriggerLogic.Proofs.Dealing

namespace TriggerLogic.SumOfProducts

open Dealing

inductive WalkFault where
  | overflow
  | zeroStride
  deriving DecidableEq, Repr

/-- Adds `extra` to the slot behind `wait` others and to every one `stride` slots further on. -/
def addEvery (stride : Nat) (extra : Product) : Nat → List Product → List Product
  | _, [] => []
  | 0, slot :: more => (slot ++ extra) :: addEvery stride extra (stride - 1) more
  | wait + 1, slot :: more => slot :: addEvery stride extra wait more

def walkFrom (stride : Nat) : Nat → SumOfProducts → List Product → Except WalkFault (List Product)
  | _, [], slots => .ok slots
  | turn, alternative :: more, slots =>
    if stride = 0 then .error .zeroStride
    else walkFrom stride (turn + 1) more (addEvery stride alternative turn slots)

def walk (alternatives : List SumOfProducts) : Except WalkFault SumOfProducts :=
  match slotCount? alternatives with
  | none => .error .overflow
  | some count =>
    alternatives.foldlM (fun slots choices => walkFrom choices.length 0 choices slots)
      (List.replicate count [])

theorem mod_stride_ne {stride start wait : Nat} (more : wait + 1 < stride) :
    start % stride ≠ (start + (wait + 1)) % stride := by
  intro same
  have whole : stride ∣ start + (wait + 1) - start := (Nat.modEq_iff_dvd' (by omega)).mp same
  rw [Nat.add_sub_cancel_left] at whole
  have bound := Nat.le_of_dvd (Nat.succ_pos wait) whole
  omega

theorem addEvery_range' {stride turn : Nat} (extra : Product) (content : Nat → Product)
    (start count wait : Nat) (inside : wait < stride) (first : (start + wait) % stride = turn) :
    addEvery stride extra wait ((List.range' start count).map content) =
      (List.range' start count).map fun slot =>
        if slot % stride = turn then content slot ++ extra else content slot := by
  induction count generalizing start wait with
  | zero => rfl
  | succ count ih =>
    rw [List.range'_succ, List.map_cons, List.map_cons]
    cases wait with
    | zero =>
      rw [Nat.add_zero] at first
      rw [addEvery, if_pos first, ih]
      · omega
      · have next : start + 1 + (stride - 1) = start + stride := by omega
        rw [next, Nat.add_mod_right]
        exact first
    | succ wait =>
      have other : start % stride ≠ turn := first ▸ mod_stride_ne inside
      rw [addEvery, if_neg other, ih]
      · omega
      · rw [← first]
        congr 1
        omega

theorem addEvery_range {stride turn : Nat} (extra : Product) (content : Nat → Product) (count : Nat)
    (inside : turn < stride) :
    addEvery stride extra turn ((List.range count).map content) =
      (List.range count).map fun slot =>
        if slot % stride = turn then content slot ++ extra else content slot := by
  rw [List.range_eq_range']
  apply addEvery_range' extra content 0 count turn inside
  rw [Nat.zero_add, Nat.mod_eq_of_lt inside]

/-- Once the turns from `turn` on have been taken, the slots whose turn has come hold one alternative
more and the others what they held. -/
theorem walkFrom_range {stride : Nat} (alternatives : SumOfProducts) (content : Nat → Product)
    (count turn : Nat) (inside : turn + alternatives.length ≤ stride) :
    walkFrom stride turn alternatives ((List.range count).map content) =
      .ok ((List.range count).map fun slot =>
        if turn ≤ slot % stride ∧ slot % stride < turn + alternatives.length then
          content slot ++ alternatives.getD (slot % stride - turn) []
        else content slot) := by
  induction alternatives generalizing turn content with
  | nil =>
    rw [walkFrom]
    congr 1
    apply List.map_congr_left
    intro slot _
    rw [if_neg]
    simp only [List.length_nil]
    omega
  | cons alternative alternatives ih =>
    rw [List.length_cons] at inside
    rw [walkFrom, if_neg (by omega), addEvery_range _ _ _ (by omega), ih _ _ (by omega)]
    congr 1
    apply List.map_congr_left
    intro slot _
    rw [List.length_cons]
    by_cases here : slot % stride = turn
    · rw [if_neg (by omega), if_pos here, if_pos (by omega), here, Nat.sub_self, List.getD_cons_zero]
    · rw [if_neg here]
      by_cases later : turn + 1 ≤ slot % stride ∧ slot % stride < turn + 1 + alternatives.length
      · have next : slot % stride - turn = slot % stride - (turn + 1) + 1 := by omega
        rw [if_pos later, if_pos (by omega), next, List.getD_cons_succ]
      · rw [if_neg later, if_neg (by omega)]

theorem walkFrom_whole (choices : SumOfProducts) (content : Nat → Product) (count : Nat) :
    walkFrom choices.length 0 choices ((List.range count).map content) =
      .ok ((List.range count).map fun slot =>
        content slot ++ choices.getD (slot % choices.length) []) := by
  rw [walkFrom_range choices content count 0 (by omega)]
  congr 1
  apply List.map_congr_left
  intro slot _
  by_cases empty : choices = []
  · subst empty
    simp
  · have bound := Nat.mod_lt slot (List.length_pos_iff.mpr empty)
    rw [if_pos (by omega), Nat.sub_zero]

/-- Behind some of the lists, each slot holds what it held and one alternative of each of them. -/
theorem foldlM_walkFrom (alternatives : List SumOfProducts) (content : Nat → Product) (count : Nat) :
    alternatives.foldlM (fun slots choices => walkFrom choices.length 0 choices slots)
        ((List.range count).map content) =
      .ok ((List.range count).map fun slot =>
        content slot ++ combination alternatives (slotPicks alternatives slot)) := by
  induction alternatives generalizing content with
  | nil =>
    rw [List.foldlM_nil]
    congr 1
    apply List.map_congr_left
    intro slot _
    exact (List.append_nil _).symm
  | cons choices alternatives ih =>
    rw [List.foldlM_cons, walkFrom_whole]
    refine (ih _).trans (congrArg Except.ok ?_)
    apply List.map_congr_left
    intro slot _
    rw [combination_slotPicks, combination_slotPicks, List.flatMap_cons, List.append_assoc]

theorem walk_eq (alternatives : List SumOfProducts) :
    walk alternatives = (conjoin? alternatives).elim (.error .overflow) .ok := by
  unfold walk
  cases counted : slotCount? alternatives with
  | none => rw [conjoin?, deal?, counted, Option.map_none, Option.map_none, Option.elim_none]
  | some count =>
    obtain ⟨fits, rfl⟩ := slotCount?_eq_some_iff.mp counted
    have empty : List.replicate (combinationCount alternatives) ([] : Product) =
        (List.range (combinationCount alternatives)).map fun _ => [] := by
      rw [List.map_const', List.length_range]
    simp only [conjoin?_eq_some_iff.mpr ⟨fits, rfl⟩, Option.elim_some]
    rw [empty, foldlM_walkFrom]
    rfl

/-- The walk in strides never meets a stride of zero. It fails where counting the slots does, and
otherwise fills each of them with the alternatives whose turn it is, in the order of the lists. -/
theorem walk_fills_every_slot (alternatives : List SumOfProducts) :
    walk alternatives ≠ .error .zeroStride ∧
      (∀ sum, walk alternatives = .ok sum ↔ conjoin? alternatives = some sum) ∧
      (conjoin? alternatives = none ↔
        ∃ lengths, lengths <+: alternatives.map List.length ∧ indexBound ≤ lengths.prod) ∧
      (combinationCount alternatives = 0 ↔ [] ∈ alternatives) ∧
      ∀ sum, conjoin? alternatives = some sum →
        sum.length = combinationCount alternatives ∧
        ∀ slot < combinationCount alternatives,
          PicksFrom alternatives (slotPicks alternatives slot) ∧
          sum[slot]? = some (combination alternatives (slotPicks alternatives slot)) := by
  refine ⟨?_, ?_, ?_, combinationCount_eq_zero_iff, ?_⟩
  · rw [walk_eq]
    cases conjoin? alternatives <;> simp
  · intro sum
    rw [walk_eq]
    cases conjoin? alternatives <;> simp
  · simp only [conjoin?_eq_none_iff, Counted, not_forall, exists_prop, Nat.not_lt]
  · intro sum found
    obtain ⟨-, rfl⟩ := conjoin?_eq_some_iff.mp found
    refine ⟨by rw [List.length_map, List.length_range], ?_⟩
    intro slot inside
    refine ⟨picksFrom_slotPicks slot (nonempty_of_slot_lt inside), ?_⟩
    rw [List.getElem?_map, List.getElem?_range inside, Option.map_some]

theorem pairAndQuadruple_filled :
    ∃ sum, conjoin? [samplePair, sampleQuadruple] = some sum ∧ sum.length = 8 ∧
      sum[7]? = some [.low 4, .low 3] := by
  have dealt : (conjoin? [samplePair, sampleQuadruple]).isSome := by decide
  obtain ⟨sum, found⟩ := Option.isSome_iff_exists.mp dealt
  obtain ⟨length, filled⟩ := (walk_fills_every_slot _).2.2.2.2 sum found
  exact ⟨sum, found, length, (filled 7 (by decide)).2⟩

/-- An empty list behind 2^64 combinations comes too late to leave no slot. -/
theorem manyPairs_before_nothing :
    combinationCount (manyPairs ++ [[]]) = 0 ∧ walk (manyPairs ++ [[]]) = .error .overflow ∧
      conjoin? (manyPairs ++ [[]]) = none := by
  decide +kernel

end TriggerLogic.SumOfProducts
