import TriggerLogic.Proofs.InputLabels
import TriggerLogic.Proofs.VersionNames

namespace TriggerLogic

namespace Text

section Shape

theorem beforeTail?_eq_some_iff {tail text front : Text} :
    beforeTail? tail text = some front ↔ text = front ++ tail := by
  constructor
  · intro found
    unfold beforeTail? at found
    split at found
    · rename_i ends
      obtain ⟨lead, rfl⟩ := List.isSuffixOf_iff_suffix.mp ends
      rw [List.length_append, Nat.add_sub_cancel, List.take_left] at found
      rw [Option.some.inj found]
    · cases found
  · rintro rfl
    exact beforeTail?_append front tail

theorem trim_eq_group_iff {text inner : Text} :
    trim text = ['('] ++ inner ++ [')'] ↔
      ∃ lead tail, text = lead ++ (['('] ++ inner ++ [')']) ++ tail ∧ lead.AllBlank ∧
        tail.AllBlank := by
  constructor
  · intro trimmed
    have split := exists_trim text
    rw [trimmed] at split
    exact split
  · rintro ⟨lead, tail, rfl, leadBlank, tailBlank⟩
    exact trim_of_solid leadBlank (solid_group inner) tailBlank

theorem AllBlank.head?_all {text : Text} (blank : text.AllBlank) : text.head?.all isBlank = true := by
  cases text with
  | nil => rfl
  | cons c text => exact blank c List.mem_cons_self

theorem words_eq_nil_iff {text : Text} : words text = [] ↔ text.AllBlank := by
  constructor
  · intro none
    rcases words_cases text with blank | ⟨lead, word, rest, rfl, leadBlank, nonempty, dark, ends⟩
    · exact blank
    · rw [List.append_assoc, words_allBlank_append leadBlank, words_dark_append nonempty dark ends]
        at none
      cases none
  · exact words_of_allBlank

def IsWord (word : Text) : Prop :=
  word ≠ [] ∧ ∀ c ∈ word, isBlank c = false

theorem starts_blank_iff {lead word : Text} (blank : lead.AllBlank) (isWord : word.IsWord)
    (rest : Text) : (lead ++ word ++ rest).head?.all isBlank = true ↔ lead ≠ [] := by
  cases lead with
  | nil =>
    obtain ⟨c, letters, rfl⟩ := List.exists_cons_of_ne_nil isWord.1
    simp [isWord.2 c List.mem_cons_self]
  | cons c lead => simp [blank c List.mem_cons_self]

theorem words_eq_cons_iff {text word : Text} {more : List Text} :
    words text = word :: more ↔
      ∃ lead rest, text = lead ++ word ++ rest ∧ lead.AllBlank ∧ word.IsWord ∧
        rest.head?.all isBlank = true ∧ words rest = more := by
  constructor
  · intro found
    rcases words_cases text with blank | ⟨lead, first, rest, rfl, leadBlank, nonempty, dark, ends⟩
    · rw [words_of_allBlank blank] at found
      cases found
    · rw [List.append_assoc, words_allBlank_append leadBlank, words_dark_append nonempty dark ends]
        at found
      cases found
      exact ⟨lead, rest, rfl, leadBlank, ⟨nonempty, dark⟩, ends, rfl⟩
  · rintro ⟨lead, rest, rfl, leadBlank, ⟨nonempty, dark⟩, ends, rfl⟩
    rw [List.append_assoc, words_allBlank_append leadBlank, words_dark_append nonempty dark ends]

end Shape

end Text

def rangeInner? (range : Text) : Option Text :=
  (Text.afterLead? ['('] (Text.trim range)).bind fun rest =>
    Text.beforeTail? [')'] (Text.trimEnd rest)

def rangeBounds (range : Text) : Except RangeFault (Text × Text) :=
  match rangeInner? range with
  | none => .error .noParentheses
  | some inner =>
    match Text.words inner with
    | [high, direction, low] =>
      if direction ≠ ['d', 'o', 'w', 'n', 't', 'o'] then .error (.wrongDirection direction)
      else .ok (high, low)
    | _ => .error (.unreadable (Text.trim inner))

def boundsWidth (high low : Text) : Except RangeFault Nat :=
  match Text.numberBelow? indexBound high with
  | none => .error (.badBound high)
  | some upper =>
    match Text.numberBelow? indexBound low with
    | none => .error (.badBound low)
    | some lower =>
      if upper < lower then .error (.empty upper lower)
      else if upper - lower + 1 < indexBound then .ok (upper - lower + 1)
      else .error (.tooWide upper lower)

theorem rangeWidth_eq (range : Text) :
    rangeWidth range = (rangeBounds range).bind fun bounds => boundsWidth bounds.1 bounds.2 := by
  unfold rangeWidth rangeBounds rangeInner?
  cases (Text.afterLead? ['('] (Text.trim range)).bind fun rest =>
    Text.beforeTail? [')'] (Text.trimEnd rest) with
  | none => rfl
  | some inner =>
    simp only
    rcases Text.words inner with _ | ⟨high, _ | ⟨direction, _ | ⟨low, _ | ⟨other, more⟩⟩⟩⟩
    case cons.cons.cons.nil =>
      simp only
      split <;> rfl
    all_goals rfl

theorem rangeInner?_eq_some_iff {range inner : Text} :
    rangeInner? range = some inner ↔ Text.trim range = ['('] ++ inner ++ [')'] := by
  rw [rangeInner?, Option.bind_eq_some_iff]
  simp only [Text.afterLead?_eq_some_iff, Text.beforeTail?_eq_some_iff]
  constructor
  · rintro ⟨rest, opened, closed⟩
    have solid : (Text.trim range).Solid :=
      Text.solid_trim (by rw [opened]; exact List.cons_ne_nil _ _)
    obtain ⟨-, front, last, ends, dark⟩ := solid
    have kept : Text.trimEnd rest = rest := by
      rcases List.eq_nil_or_concat' rest with rfl | ⟨more, c, rfl⟩
      · rfl
      · have same : c = last := by
          have lasts := congrArg List.getLast? (opened.symm.trans ends)
          rw [← List.append_assoc, List.getLast?_concat, List.getLast?_concat] at lasts
          exact Option.some.inj lasts
        rw [same, Text.trimEnd, Text.dropEndWhile_last dark]
    rw [opened, ← kept, closed, List.append_assoc]
  · intro trimmed
    refine ⟨inner ++ [')'], by rw [trimmed, List.append_assoc], ?_⟩
    rw [Text.trimEnd, Text.dropEndWhile_last (by decide)]

def RangeWords (range high low : Text) : Prop :=
  ∃ inner, Text.trim range = ['('] ++ inner ++ [')'] ∧
    Text.words inner = [high, ['d', 'o', 'w', 'n', 't', 'o'], low]

/-- Blanks may stand around the parentheses and inside of them, and have to stand between the words. -/
inductive RangeSpelled : Text → Text → Text → Prop
  | mk {lead before first second after tail high low : Text} :
      lead.AllBlank → before.AllBlank → high.IsWord → first.AllBlank → first ≠ [] →
      second.AllBlank → second ≠ [] → low.IsWord → after.AllBlank → tail.AllBlank →
      RangeSpelled (lead ++ (['('] ++ (before ++ high ++ (first ++ ['d', 'o', 'w', 'n', 't', 'o'] ++
        (second ++ low ++ after))) ++ [')']) ++ tail) high low

theorem rangeWords_iff_spelled {range high low : Text} :
    RangeWords range high low ↔ RangeSpelled range high low := by
  have direction : Text.IsWord ['d', 'o', 'w', 'n', 't', 'o'] := ⟨by decide, by decide⟩
  simp only [RangeWords, Text.trim_eq_group_iff, Text.words_eq_cons_iff, Text.words_eq_nil_iff]
  constructor
  · rintro ⟨inner, ⟨lead, tail, rfl, leadBlank, tailBlank⟩, before, rest, rfl, beforeBlank, highWord,
      gap, first, rest, rfl, firstBlank, -, wide, second, after, rfl, secondBlank, lowWord, -,
      afterBlank⟩
    exact .mk leadBlank beforeBlank highWord firstBlank
      ((Text.starts_blank_iff firstBlank direction _).mp gap) secondBlank
      ((Text.starts_blank_iff secondBlank lowWord _).mp wide) lowWord afterBlank tailBlank
  · rintro ⟨leadBlank, beforeBlank, highWord, firstBlank, gap, secondBlank, wide, lowWord, afterBlank,
      tailBlank⟩
    exact ⟨_, ⟨_, _, rfl, leadBlank, tailBlank⟩, _, _, rfl, beforeBlank, highWord,
      (Text.starts_blank_iff firstBlank direction _).mpr gap, _, _, rfl, firstBlank, direction,
      (Text.starts_blank_iff secondBlank lowWord _).mpr wide, _, _, rfl, secondBlank, lowWord,
      afterBlank.head?_all, afterBlank⟩

theorem rangeBounds_eq_ok_iff {range high low : Text} :
    rangeBounds range = .ok (high, low) ↔ RangeWords range high low := by
  simp only [RangeWords, ← rangeInner?_eq_some_iff]
  constructor
  · intro found
    unfold rangeBounds at found
    split at found
    · cases found
    · rename_i inner read
      split at found
      · rename_i first direction second words
        split at found
        · cases found
        · rename_i same
          cases found
          exact ⟨inner, read, by rw [words, not_not.mp same]⟩
      · cases found
  · rintro ⟨inner, read, words⟩
    unfold rangeBounds
    simp only [read, words, ne_eq, not_true_eq_false, if_false]

def BoundsOfWidth (high low : Text) (width : Nat) : Prop :=
  ∃ upper lower, high.Numeral upper ∧ low.Numeral lower ∧ upper < 2 ^ 64 ∧ lower < 2 ^ 64 ∧
    lower ≤ upper ∧ upper - lower + 1 < 2 ^ 64 ∧ width = upper - lower + 1

theorem boundsWidth_eq_ok_iff {high low : Text} {width : Nat} :
    boundsWidth high low = .ok width ↔ BoundsOfWidth high low width := by
  have bound : indexBound = 2 ^ 64 := rfl
  unfold BoundsOfWidth
  rw [← bound]
  constructor
  · intro found
    unfold boundsWidth at found
    split at found
    · cases found
    rename_i upper upperRead
    split at found
    · cases found
    rename_i lower lowerRead
    obtain ⟨upperNumeral, upperSmall⟩ := Text.numberBelow?_eq_some_iff.mp upperRead
    obtain ⟨lowerNumeral, lowerSmall⟩ := Text.numberBelow?_eq_some_iff.mp lowerRead
    split at found
    · cases found
    rename_i ordered
    split at found
    · rename_i narrow
      cases found
      exact ⟨upper, lower, upperNumeral, lowerNumeral, upperSmall, lowerSmall, Nat.not_lt.mp ordered,
        narrow, rfl⟩
    · cases found
  · rintro ⟨upper, lower, upperNumeral, lowerNumeral, upperSmall, lowerSmall, ordered, narrow, rfl⟩
    unfold boundsWidth
    simp only [Text.numberBelow?_eq_some_iff.mpr ⟨upperNumeral, upperSmall⟩,
      Text.numberBelow?_eq_some_iff.mpr ⟨lowerNumeral, lowerSmall⟩, if_neg (Nat.not_lt.mpr ordered),
      if_pos narrow]

section MachineWords

def wordOf? (value : Nat) : Option UInt64 :=
  if value < indexBound then some (UInt64.ofNat value) else none

theorem wordOf?_of_lt {value : Nat} (small : value < indexBound) :
    ∃ word, wordOf? value = some word ∧ word.toNat = value :=
  ⟨UInt64.ofNat value, if_pos small, UInt64.toNat_ofNat_of_lt' small⟩

theorem wordOf?_of_le {value : Nat} (large : indexBound ≤ value) : wordOf? value = none :=
  if_neg (Nat.not_lt.mpr large)

/-- A word with one more digit behind its digits. The product and then the sum have to fit. -/
def pushDigit? (value : UInt64) (c : Char) : Option UInt64 :=
  (wordOf? (10 * value.toNat)).bind fun tens => wordOf? (tens.toNat + (c.toNat - '0'.toNat))

theorem pushDigit?_eq (value : UInt64) (c : Char) :
    pushDigit? value c = wordOf? (10 * value.toNat + (c.toNat - '0'.toNat)) := by
  unfold pushDigit?
  by_cases fits : 10 * value.toNat < indexBound
  · obtain ⟨tens, found, same⟩ := wordOf?_of_lt fits
    rw [found, Option.bind_some, same]
  · rw [wordOf?_of_le (by omega), wordOf?_of_le (by omega), Option.bind_none]

theorem le_ofDigitChars (digits : Text) (value : Nat) :
    value ≤ Nat.ofDigitChars 10 digits value := by
  induction digits generalizing value with
  | nil => exact Nat.le_refl value
  | cons c digits ih =>
    rw [Nat.ofDigitChars_cons]
    exact Nat.le_trans (by omega) (ih _)

/-- Digits that do not fit at some point would not fit at the end either. -/
theorem foldlM_pushDigit? (digits : Text) (value : UInt64) :
    digits.foldlM pushDigit? value = wordOf? (Nat.ofDigitChars 10 digits value.toNat) := by
  induction digits generalizing value with
  | nil =>
    have fits : value.toNat < indexBound := value.toNat_lt
    rw [Nat.ofDigitChars_nil, wordOf?, if_pos fits, UInt64.ofNat_toNat]
    rfl
  | cons c digits ih =>
    rw [List.foldlM_cons, Nat.ofDigitChars_cons, pushDigit?_eq]
    by_cases fits : 10 * value.toNat + (c.toNat - '0'.toNat) < indexBound
    · obtain ⟨word, found, same⟩ := wordOf?_of_lt fits
      rw [found, ← same]
      exact ih word
    · have grows := le_ofDigitChars digits (10 * value.toNat + (c.toNat - '0'.toNat))
      rw [wordOf?_of_le (by omega), wordOf?_of_le (by omega)]
      rfl

def wordNumber? (text : Text) : Option UInt64 :=
  let digits := (Text.afterLead? ['+'] text).getD text
  if Text.isNumber digits then digits.foldlM pushDigit? 0 else none

theorem numberBelow?_eq_wordNumber? (text : Text) :
    Text.numberBelow? indexBound text = (wordNumber? text).map UInt64.toNat := by
  unfold Text.numberBelow? wordNumber?
  generalize (Text.afterLead? ['+'] text).getD text = digits
  simp only [foldlM_pushDigit?, Bool.and_eq_true, decide_eq_true_eq]
  by_cases number : Text.isNumber digits = true
  · rw [if_pos number]
    by_cases fits : Nat.ofDigitChars 10 digits 0 < indexBound
    · obtain ⟨word, found, same⟩ := wordOf?_of_lt fits
      rw [if_pos ⟨number, fits⟩, UInt64.toNat_zero, found, Option.map_some, same]
    · rw [if_neg fun both => fits both.2, UInt64.toNat_zero, wordOf?_of_le (Nat.not_lt.mp fits),
        Option.map_none]
  · rw [if_neg number, if_neg fun both => number both.1, Option.map_none]

/-- The width between two bounds, counted in words of 64 bits. The difference wraps. -/
def wordWidth (high low : Text) : Except RangeFault UInt64 :=
  match wordNumber? high with
  | none => .error (.badBound high)
  | some upper =>
    match wordNumber? low with
    | none => .error (.badBound low)
    | some lower =>
      if upper < lower then .error (.empty upper.toNat lower.toNat)
      else match wordOf? ((upper - lower).toNat + 1) with
        | none => .error (.tooWide upper.toNat lower.toNat)
        | some width => .ok width

theorem boundsWidth_eq_wordWidth (high low : Text) :
    boundsWidth high low = (wordWidth high low).map UInt64.toNat := by
  unfold boundsWidth wordWidth
  rw [numberBelow?_eq_wordNumber?, numberBelow?_eq_wordNumber?]
  cases wordNumber? high with
  | none => rfl
  | some upper =>
    cases wordNumber? low with
    | none => rfl
    | some lower =>
      simp only [Option.map_some, UInt64.lt_iff_toNat_lt]
      split
      · rfl
      · rename_i ordered
        have exact := UInt64.toNat_sub_of_le upper lower
          (UInt64.le_iff_toNat_le.mpr (Nat.not_lt.mp ordered))
        rw [exact]
        by_cases narrow : upper.toNat - lower.toNat + 1 < indexBound
        · obtain ⟨width, found, same⟩ := wordOf?_of_lt narrow
          rw [found, if_pos narrow, ← same]
          rfl
        · rw [wordOf?_of_le (Nat.not_lt.mp narrow), if_neg narrow]
          rfl

def rangeWordWidth (range : Text) : Except RangeFault UInt64 :=
  (rangeBounds range).bind fun bounds => wordWidth bounds.1 bounds.2

theorem rangeWidth_eq_rangeWordWidth (range : Text) :
    rangeWidth range = (rangeWordWidth range).map UInt64.toNat := by
  rw [rangeWidth_eq, rangeWordWidth]
  cases rangeBounds range with
  | error fault => rfl
  | ok bounds => exact boundsWidth_eq_wordWidth bounds.1 bounds.2

end MachineWords

theorem rangeWidth_eq_ok_iff {range : Text} {width : Nat} :
    rangeWidth range = .ok width ↔
      ∃ high low, RangeWords range high low ∧ BoundsOfWidth high low width := by
  rw [rangeWidth_eq]
  constructor
  · intro found
    cases bounds : rangeBounds range with
    | error fault =>
      rw [bounds] at found
      cases found
    | ok pair =>
      rw [bounds] at found
      exact ⟨pair.1, pair.2, rangeBounds_eq_ok_iff.mp bounds, boundsWidth_eq_ok_iff.mp found⟩
  · rintro ⟨high, low, words, counted⟩
    rw [rangeBounds_eq_ok_iff.mpr words]
    exact boundsWidth_eq_ok_iff.mpr counted

/-- A range has a width exactly if it consists, but for blanks, of `(`, a number, `downto`, a number
that is not larger and `)`. The width then counts the numbers from the one to the other and has to
stay below `2 ^ 64`, as the numbers have to. Every other text is refused. Reading and counting in
words of 64 bits, where the difference would wrap, has the same outcome. -/
theorem range_width_exact (range : Text) :
    (∀ width, rangeWidth range = .ok width ↔
      ∃ high low, RangeWords range high low ∧ BoundsOfWidth high low width) ∧
    (∀ high low, RangeWords range high low ↔ RangeSpelled range high low) ∧
    (∀ width, rangeWidth range = .ok width → 1 ≤ width) ∧
    ((∃ fault, rangeWidth range = .error fault) ↔
      ∀ high low width, RangeWords range high low → ¬ BoundsOfWidth high low width) ∧
    rangeWidth range = (rangeWordWidth range).map UInt64.toNat := by
  refine ⟨fun width => rangeWidth_eq_ok_iff, fun high low => rangeWords_iff_spelled,
    fun width => rangeWidth_pos, ?_, rangeWidth_eq_rangeWordWidth range⟩
  constructor
  · rintro ⟨fault, refused⟩ high low width words counted
    rw [rangeWidth_eq_ok_iff.mpr ⟨high, low, words, counted⟩] at refused
    cases refused
  · intro others
    cases found : rangeWidth range with
    | error fault => exact ⟨fault, rfl⟩
    | ok width =>
      obtain ⟨high, low, words, counted⟩ := rangeWidth_eq_ok_iff.mp found
      exact absurd counted (others high low width words)

example : rangeWidth " ( +18446744073709551615\tdownto 01 ) ".toList = .ok 18446744073709551615 := by
  decide +kernel

end TriggerLogic
