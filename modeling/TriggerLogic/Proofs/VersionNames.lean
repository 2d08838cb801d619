import TriggerLogic.Artifact.Plan
import TriggerLogic.Proofs.DeclarationText

namespace TriggerLogic

namespace Text

theorem afterLead?_eq_some_iff {lead text rest : Text} :
    afterLead? lead text = some rest ↔ text = lead ++ rest := by
  constructor
  · intro found
    unfold afterLead? at found
    split at found
    · rename_i begins
      obtain ⟨tail, rfl⟩ := List.isPrefixOf_iff_prefix.mp begins
      rw [List.drop_left] at found
      rw [Option.some.inj found]
    · cases found
  · rintro rfl
    exact afterLead?_append lead rest

theorem digits_append_inj {first second rest other : Text} (same : first ++ rest = second ++ other)
    (digits : ∀ c ∈ first, c.isDigit = true) (others : ∀ c ∈ second, c.isDigit = true)
    (stops : ∀ c ∈ rest.head?, c.isDigit = false) (ends : ∀ c ∈ other.head?, c.isDigit = false) :
    first = second ∧ rest = other := by
  have run : ∀ {digits rest : Text}, (∀ c ∈ digits, c.isDigit = true) →
      (∀ c ∈ rest.head?, c.isDigit = false) → (digits ++ rest).takeWhile Char.isDigit = digits := by
    intro digits rest each stops
    rw [List.takeWhile_append_of_pos each]
    cases rest with
    | nil => simp
    | cons c rest => rw [List.takeWhile_cons_of_neg (by simp [stops c rfl]), List.append_nil]
  have equal : first = second := by
    rw [← run digits stops, same, run others ends]
  subst equal
  exact ⟨rfl, List.append_cancel_left same⟩

theorem lower_drop_of_suffix {tail text : Text} (ends : tail <:+ lower text) :
    lower (text.drop (text.length - tail.length)) = tail := by
  have size : (lower text).length = text.length := List.length_map _
  rw [lower, List.map_drop, ← size]
  exact (List.suffix_iff_eq_drop.mp ends).symm

end Text

def IsSourceEnding (ending : Text) : Prop :=
  Text.lower ending = ".vhd".toList ∨ Text.lower ending = ".vhdl".toList

theorem IsSourceEnding.mem {ending : Text} (ends : IsSourceEnding ending) :
    ∀ c ∈ ending, c.isAlpha = true ∨ c = '.' := by
  intro c member
  cases letter : c.isAlpha with
  | true => exact .inl rfl
  | false =>
    have lowered : c.toLower ∈ Text.lower ending := List.mem_map_of_mem member
    rw [Text.toLower_of_not_isAlpha letter] at lowered
    have plain : ∀ d ∈ ".vhdl".toList, d.isAlpha = false → d = '.' := by decide
    rcases ends with short | long
    · have shorter : ".vhd".toList ⊆ ".vhdl".toList := by decide
      rw [short] at lowered
      exact .inr (plain c (shorter lowered) letter)
    · rw [long] at lowered
      exact .inr (plain c lowered letter)

theorem IsSourceEnding.head_not_digit {ending : Text} (ends : IsSourceEnding ending) :
    ∀ c ∈ ending.head?, c.isDigit = false := by
  intro c first
  rw [Bool.eq_false_iff]
  intro digit
  rcases ends.mem c (List.mem_of_head? first) with letter | rfl
  · rw [(ClauseForm.follows_digit digit).1] at letter
    cases letter
  · cases digit

theorem sourceStem?_of_ending {stem ending : Text} (ends : IsSourceEnding ending) :
    sourceStem? (stem ++ ending) = some stem := by
  have size : (Text.lower ending).length = ending.length := List.length_map _
  have suffix : Text.lower ending <:+ Text.lower (stem ++ ending) := by
    rw [Text.lower_append]
    exact List.suffix_append _ _
  unfold sourceStem?
  simp only [List.isSuffixOf_iff_suffix]
  rcases ends with short | long
  · rw [short] at size suffix
    have other : ¬ ".vhdl".toList <:+ Text.lower (stem ++ ending) := by
      intro long
      have nested := List.suffix_or_suffix_of_suffix suffix long
      revert nested
      decide
    rw [if_neg other, if_pos suffix, List.length_append, ← size]
    exact congrArg some (List.take_left' (Nat.add_sub_cancel _ _).symm)
  · rw [long] at size suffix
    rw [if_pos suffix, List.length_append, ← size]
    exact congrArg some (List.take_left' (Nat.add_sub_cancel _ _).symm)

theorem ending_of_sourceStem? {name stem : Text} (found : sourceStem? name = some stem) :
    ∃ ending, IsSourceEnding ending ∧ name = stem ++ ending := by
  unfold sourceStem? at found
  simp only [List.isSuffixOf_iff_suffix] at found
  split at found
  · rename_i long
    cases found
    exact ⟨_, .inr (Text.lower_drop_of_suffix long), (List.take_append_drop _ _).symm⟩
  · split at found
    · rename_i short
      cases found
      exact ⟨_, .inl (Text.lower_drop_of_suffix short), (List.take_append_drop _ _).symm⟩
    · cases found

def IsSeparator (c : Char) : Prop :=
  c = '.' ∨ c = '_'

theorem IsSeparator.not_digit {c : Char} (separates : IsSeparator c) : c.isDigit = false := by
  rcases separates with rfl | rfl <;> decide

theorem versionOfNumbers?_of_numbers {major minor : Text} {separator : Char}
    (majorNumber : Text.isNumber major = true) (separates : IsSeparator separator)
    (minorNumber : Text.isNumber minor = true) :
    versionOfNumbers? (major ++ separator :: minor) = some (major ++ '_' :: minor) := by
  have unmarked : ∀ c ∈ major, (!(c == '.' || c == '_')) = true := by
    intro c member
    have digit := Text.isDigit_of_isNumber majorNumber c member
    rw [Bool.not_eq_true', Bool.or_eq_false_iff, beq_eq_false_iff_ne, beq_eq_false_iff_ne]
    constructor <;> rintro rfl <;> cases digit
  have marked : (!(separator == '.' || separator == '_')) = false := by
    rcases separates with rfl | rfl <;> rfl
  unfold versionOfNumbers?
  simp only
  rw [List.takeWhile_append_of_pos unmarked, List.dropWhile_append_of_pos unmarked,
    List.takeWhile_cons_of_neg (by rw [marked]; decide),
    List.dropWhile_cons_of_neg (by rw [marked]; decide), List.append_nil]
  simp only [majorNumber, minorNumber, Bool.and_self, if_true]

theorem numbers_of_versionOfNumbers? {text version : Text}
    (found : versionOfNumbers? text = some version) :
    ∃ major separator minor, Text.isNumber major = true ∧ IsSeparator separator ∧
      Text.isNumber minor = true ∧ text = major ++ separator :: minor ∧
      version = major ++ '_' :: minor := by
  unfold versionOfNumbers? at found
  simp only at found
  split at found
  · cases found
  · rename_i separator minor rest
    split at found
    · rename_i numbers
      cases found
      rw [Bool.and_eq_true] at numbers
      refine ⟨_, separator, minor, numbers.1, ?_, numbers.2, ?_, rfl⟩
      · have stopped := List.head?_dropWhile_not (fun c => !(c == '.' || c == '_')) text
        rw [rest] at stopped
        simpa [IsSeparator, or_iff_not_imp_left] using stopped
      · rw [← rest, List.takeWhile_append_dropWhile]
    · cases found

/-- What stands behind the prefix in the file name of a source, part by part. -/
@[ext]
structure VersionedName where
  major : Text
  separator : Char
  minor : Text
  ending : Text
  majorNumber : Text.isNumber major = true
  separates : IsSeparator separator
  minorNumber : Text.isNumber minor = true
  ends : IsSourceEnding ending

namespace VersionedName

def version (parts : VersionedName) : Text :=
  parts.major ++ '_' :: parts.minor

def fileName (parts : VersionedName) (namePrefix : Text) : Text :=
  namePrefix ++ '_' :: (parts.major ++ parts.separator :: parts.minor ++ parts.ending)

theorem not_mem_version (parts : VersionedName) {c : Char} (other : c.isDigit = false)
    (different : c ≠ '_') : c ∉ parts.version := by
  have fresh : ∀ {number : Text}, Text.isNumber number = true → c ∉ number := by
    intro number digits member
    rw [Text.isDigit_of_isNumber digits c member] at other
    cases other
  rw [version, List.mem_append, List.mem_cons, not_or, not_or]
  exact ⟨fresh parts.majorNumber, different, fresh parts.minorNumber⟩

theorem version?_fileName (parts : VersionedName) (namePrefix : Text) :
    version? namePrefix (parts.fileName namePrefix) = some parts.version := by
  have whole : parts.fileName namePrefix =
      namePrefix ++ ['_'] ++ (parts.major ++ parts.separator :: parts.minor) ++ parts.ending := by
    simp [fileName]
  rw [version?, whole, sourceStem?_of_ending parts.ends, Option.bind_some,
    Text.afterLead?_append, Option.bind_some]
  exact versionOfNumbers?_of_numbers parts.majorNumber parts.separates parts.minorNumber

theorem exists_of_version? {namePrefix name version : Text}
    (found : version? namePrefix name = some version) :
    ∃ parts : VersionedName, name = parts.fileName namePrefix ∧ version = parts.version := by
  obtain ⟨rest, led, numbers⟩ := Option.bind_eq_some_iff.mp found
  obtain ⟨stem, stemmed, begins⟩ := Option.bind_eq_some_iff.mp led
  obtain ⟨ending, ends, rfl⟩ := ending_of_sourceStem? stemmed
  obtain ⟨major, separator, minor, majorNumber, separates, minorNumber, rfl, rfl⟩ :=
    numbers_of_versionOfNumbers? numbers
  rw [Text.afterLead?_eq_some_iff] at begins
  refine ⟨⟨major, separator, minor, ending, majorNumber, separates, minorNumber, ends⟩, ?_, rfl⟩
  rw [begins]
  simp [fileName]

theorem eq_of_version_eq {parts others : VersionedName} (same : parts.version = others.version) :
    parts.major = others.major ∧ parts.minor = others.minor := by
  have underscore : ∀ minor, ∀ c ∈ ('_' :: minor : Text).head?, c.isDigit = false := by
    rintro minor _ ⟨⟩
    decide
  obtain ⟨major, rest⟩ := Text.digits_append_inj same (Text.isDigit_of_isNumber parts.majorNumber)
    (Text.isDigit_of_isNumber others.majorNumber) (underscore _) (underscore _)
  exact ⟨major, (List.cons.inj rest).2⟩

theorem eq_of_fileName_eq {parts others : VersionedName} {namePrefix : Text}
    (same : parts.fileName namePrefix = others.fileName namePrefix) : parts = others := by
  have tails := (List.cons.inj (List.append_cancel_left same)).2
  rw [List.append_assoc, List.append_assoc] at tails
  obtain ⟨major, rest⟩ := Text.digits_append_inj tails (Text.isDigit_of_isNumber parts.majorNumber)
    (Text.isDigit_of_isNumber others.majorNumber) (by rintro _ ⟨⟩; exact parts.separates.not_digit)
    (by rintro _ ⟨⟩; exact others.separates.not_digit)
  obtain ⟨separator, rest⟩ := List.cons.inj rest
  obtain ⟨minor, ending⟩ := Text.digits_append_inj rest (Text.isDigit_of_isNumber parts.minorNumber)
    (Text.isDigit_of_isNumber others.minorNumber) parts.ends.head_not_digit others.ends.head_not_digit
  exact VersionedName.ext major separator minor ending

end VersionedName

namespace ArtifactPlan

theorem versionOf_eq_ok_iff {namePrefix name version : Text} :
    versionOf namePrefix name = .ok version ↔ version? namePrefix name = some version := by
  unfold versionOf
  cases version? namePrefix name <;> simp

theorem exists_parts_of_ofInput {input : Path} {namePrefix : Text} {outDirectory : Option Path}
    {plan : ArtifactPlan} (planned : ofInput input namePrefix outDirectory = .ok plan) :
    ∃ parts : VersionedName, input.fileName? = some (parts.fileName namePrefix) ∧
      plan = ⟨parts.version, namePrefix ++ '_' :: parts.version,
        outDirectory.getD (input.parent?.getD [])⟩ := by
  unfold ofInput at planned
  split at planned
  · cases planned
  · rename_i name named
    obtain ⟨version, found, rfl⟩ := map_eq_ok_iff.mp planned
    obtain ⟨parts, rfl, rfl⟩ := VersionedName.exists_of_version? (versionOf_eq_ok_iff.mp found)
    exact ⟨parts, named, rfl⟩

/-- A file name has a version just where it consists of the prefix and the parts of a versioned name.
It determines those parts, and the version determines the two numbers. -/
theorem version_reads_off_name (namePrefix : Text) :
    (∀ name version, versionOf namePrefix name = .ok version ↔
      ∃ parts : VersionedName, name = parts.fileName namePrefix ∧ version = parts.version) ∧
    (Function.Injective fun parts : VersionedName => parts.fileName namePrefix) ∧
    ∀ parts others : VersionedName,
      versionOf namePrefix (parts.fileName namePrefix) =
          versionOf namePrefix (others.fileName namePrefix) ↔
        parts.major = others.major ∧ parts.minor = others.minor := by
  have versioned : ∀ parts : VersionedName,
      versionOf namePrefix (parts.fileName namePrefix) = .ok parts.version :=
    fun parts => versionOf_eq_ok_iff.mpr (parts.version?_fileName namePrefix)
  refine ⟨?_, fun parts others => VersionedName.eq_of_fileName_eq, ?_⟩
  · intro name version
    constructor
    · intro found
      exact VersionedName.exists_of_version? (versionOf_eq_ok_iff.mp found)
    · rintro ⟨parts, rfl, rfl⟩
      exact versioned parts
  · intro parts others
    rw [versioned, versioned, Except.ok.injEq]
    constructor
    · exact VersionedName.eq_of_version_eq
    · rintro ⟨major, minor⟩
      rw [VersionedName.version, major, minor, VersionedName.version]

end ArtifactPlan

end TriggerLogic
