import Mathlib.Data.Int.CardIntervalMod
import Mathlib.Data.Nat.Factorization.Basic
import Mathlib.Data.Nat.GCD.BigOperators

namespace TriggerLogic.Residues

def commonMultiple (moduli : List Nat) : Nat :=
  moduli.foldr Nat.lcm 1

theorem commonMultiple_dvd_iff (moduli : List Nat) (number : Nat) :
    commonMultiple moduli ∣ number ↔ ∀ modulus ∈ moduli, modulus ∣ number := by
  induction moduli with
  | nil => simp [commonMultiple]
  | cons modulus moduli ih =>
    change Nat.lcm modulus (commonMultiple moduli) ∣ number ↔ _
    rw [Nat.lcm_dvd_iff, ih, List.forall_mem_cons]

theorem commonMultiple_pos {moduli : List Nat} (positive : ∀ modulus ∈ moduli, 0 < modulus) :
    0 < commonMultiple moduli := by
  induction moduli with
  | nil => exact Nat.one_pos
  | cons modulus moduli ih =>
    rw [List.forall_mem_cons] at positive
    exact Nat.lcm_pos positive.1 (ih positive.2)

theorem commonMultiple_dvd_prod (moduli : List Nat) : commonMultiple moduli ∣ moduli.prod :=
  (commonMultiple_dvd_iff moduli moduli.prod).mpr fun _ member => List.dvd_prod member

theorem commonMultiple_eq_prod {moduli : List Nat} (coprime : moduli.Pairwise Nat.Coprime) :
    commonMultiple moduli = moduli.prod := by
  induction moduli with
  | nil => rfl
  | cons modulus moduli ih =>
    obtain ⟨apart, coprime⟩ := List.pairwise_cons.mp coprime
    change Nat.lcm modulus (commonMultiple moduli) = _
    rw [ih coprime, List.prod_cons]
    exact (Nat.coprime_list_prod_right_iff.mpr apart).lcm_eq_mul

theorem modEq_commonMultiple_iff (moduli : List Nat) (first second : Nat) :
    first ≡ second [MOD commonMultiple moduli] ↔
      ∀ modulus ∈ moduli, first ≡ second [MOD modulus] := by
  simp only [Nat.modEq_iff_dvd, Int.natCast_dvd, commonMultiple_dvd_iff]

theorem primePower_dvd_lcm {prime power first second : Nat} (isPrime : prime.Prime)
    (firstPositive : 0 < first) (secondPositive : 0 < second)
    (divides : prime ^ power ∣ Nat.lcm first second) :
    prime ^ power ∣ first ∨ prime ^ power ∣ second := by
  have firstNonzero : first ≠ 0 := Nat.ne_of_gt firstPositive
  have secondNonzero : second ≠ 0 := Nat.ne_of_gt secondPositive
  rw [isPrime.pow_dvd_iff_le_factorization (Nat.lcm_ne_zero firstNonzero secondNonzero),
    Nat.factorization_lcm firstNonzero secondNonzero, Finsupp.sup_apply] at divides
  rw [isPrime.pow_dvd_iff_le_factorization firstNonzero,
    isPrime.pow_dvd_iff_le_factorization secondNonzero]
  exact le_sup_iff.mp divides

theorem gcd_lcm_dvd_of_gcd_dvd {modulus first second number : Nat}
    (firstPositive : 0 < first) (secondPositive : 0 < second)
    (left : Nat.gcd modulus first ∣ number) (right : Nat.gcd modulus second ∣ number) :
    Nat.gcd modulus (Nat.lcm first second) ∣ number := by
  rw [Nat.dvd_iff_prime_pow_dvd_dvd]
  intro prime power isPrime divides
  obtain ⟨inModulus, inMultiple⟩ := Nat.dvd_gcd_iff.mp divides
  rcases primePower_dvd_lcm isPrime firstPositive secondPositive inMultiple with inFirst | inSecond
  · exact (Nat.dvd_gcd inModulus inFirst).trans left
  · exact (Nat.dvd_gcd inModulus inSecond).trans right

/-- Numbers that agree modulo the common divisor with each modulus of a list agree modulo the
common divisor with their least common multiple. -/
theorem modEq_gcd_commonMultiple {moduli : List Nat} {modulus first second : Nat}
    (positive : ∀ other ∈ moduli, 0 < other)
    (agree : ∀ other ∈ moduli, first ≡ second [MOD Nat.gcd modulus other]) :
    first ≡ second [MOD Nat.gcd modulus (commonMultiple moduli)] := by
  simp only [Nat.modEq_iff_dvd, Int.natCast_dvd] at agree ⊢
  induction moduli with
  | nil => simp [commonMultiple]
  | cons other moduli ih =>
    rw [List.forall_mem_cons] at positive agree
    exact gcd_lcm_dvd_of_gcd_dvd positive.1 (commonMultiple_pos positive.2) agree.1
      (ih positive.2 agree.2)

/-- A number that has each residue, the first of a pair, modulo the second. -/
def Solves (residues : List (Nat × Nat)) (number : Nat) : Prop :=
  ∀ residue ∈ residues, number ≡ residue.1 [MOD residue.2]

/-- Any two residues agree modulo the common divisor of their moduli. -/
def Compatible (residues : List (Nat × Nat)) : Prop :=
  residues.Pairwise fun first second => first.1 ≡ second.1 [MOD Nat.gcd first.2 second.2]

instance (residues : List (Nat × Nat)) : DecidablePred (Solves residues) :=
  fun number => inferInstanceAs (Decidable (∀ residue ∈ residues, number ≡ residue.1 [MOD residue.2]))

instance (residues : List (Nat × Nat)) : Decidable (Compatible residues) :=
  inferInstanceAs (Decidable (residues.Pairwise _))

theorem compatible_of_coprime {residues : List (Nat × Nat)}
    (coprime : (residues.map Prod.snd).Pairwise Nat.Coprime) : Compatible residues := by
  apply (List.pairwise_map.mp coprime).imp
  intro first second apart
  rw [apart.gcd_eq_one]
  exact Nat.modEq_one

theorem compatible_of_solves {residues : List (Nat × Nat)} {number : Nat}
    (solves : Solves residues number) : Compatible residues := by
  apply List.pairwise_of_forall_mem_list
  intro first firstMember second secondMember
  have left := (solves first firstMember).of_dvd (Nat.gcd_dvd_left first.2 second.2)
  have right := (solves second secondMember).of_dvd (Nat.gcd_dvd_right first.2 second.2)
  exact left.symm.trans right

theorem solves_iff_modEq {residues : List (Nat × Nat)} {number : Nat}
    (solves : Solves residues number) (other : Nat) :
    Solves residues other ↔ other ≡ number [MOD commonMultiple (residues.map Prod.snd)] := by
  rw [modEq_commonMultiple_iff, List.forall_mem_map]
  constructor
  · intro alsoSolves residue member
    exact (alsoSolves residue member).trans (solves residue member).symm
  · intro same residue member
    exact (same residue member).trans (solves residue member)

theorem exists_solves {residues : List (Nat × Nat)}
    (positive : ∀ residue ∈ residues, 0 < residue.2) (compatible : Compatible residues) :
    ∃ number, Solves residues number := by
  induction residues with
  | nil => exact ⟨0, by simp [Solves]⟩
  | cons residue residues ih =>
    obtain ⟨apart, compatible⟩ := List.pairwise_cons.mp compatible
    rw [List.forall_mem_cons] at positive
    obtain ⟨number, solves⟩ := ih positive.2 compatible
    -- The new residue has to agree with the solution found for all the others at once.
    have agree : residue.1 ≡ number
        [MOD Nat.gcd residue.2 (commonMultiple (residues.map Prod.snd))] := by
      apply modEq_gcd_commonMultiple (List.forall_mem_map.mpr positive.2)
      rw [List.forall_mem_map]
      intro other member
      have same := (solves other member).of_dvd (Nat.gcd_dvd_right residue.2 other.2)
      exact (apart other member).trans same.symm
    obtain ⟨joint, hasResidue, likeNumber⟩ := Nat.chineseRemainder' agree
    exact ⟨joint, List.forall_mem_cons.mpr ⟨hasResidue, (solves_iff_modEq solves joint).mpr likeNumber⟩⟩

/-- Below a multiple of all moduli the solutions are as many as the least common multiple goes into
it, or none. -/
theorem count_solves {residues : List (Nat × Nat)} {bound : Nat}
    (positive : ∀ residue ∈ residues, 0 < residue.2)
    (whole : commonMultiple (residues.map Prod.snd) ∣ bound) :
    Nat.count (Solves residues) bound =
      if Compatible residues then bound / commonMultiple (residues.map Prod.snd) else 0 := by
  split
  · rename_i compatible
    obtain ⟨number, solves⟩ := exists_solves positive compatible
    have multiplePositive : 0 < commonMultiple (residues.map Prod.snd) :=
      commonMultiple_pos (List.forall_mem_map.mpr positive)
    have same : Nat.count (Solves residues) bound =
        Nat.count (· ≡ number [MOD commonMultiple (residues.map Prod.snd)]) bound := by
      simp only [Nat.count_eq_card_filter_range, solves_iff_modEq solves]
    rw [same, Nat.count_modEq_card bound multiplePositive, Nat.mod_eq_zero_of_dvd whole]
    simp
  · rename_i incompatible
    rw [Nat.count_iff_forall_not]
    intro number _ solves
    exact incompatible (compatible_of_solves solves)

end TriggerLogic.Residues
