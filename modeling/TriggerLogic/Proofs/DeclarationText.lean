import TriggerLogic.Proofs.ClauseText

namespace TriggerLogic

def vectorName : Text :=
  "std_logic_vector".toList

def downto : Text :=
  " downto ".toList

def rangeText (high low : Nat) : Text :=
  ['('] ++ (Text.decimal high ++ downto ++ Text.decimal low) ++ [')']

def signalLine (name type : Text) : Text :=
  ['s', 'i', 'g', 'n', 'a', 'l', ' '] ++ name ++ [' ', ':', ' '] ++ type ++ [';']

namespace Text

theorem afterLead?_append (lead text : Text) : afterLead? lead (lead ++ text) = some text := by
  have begins : lead.isPrefixOf (lead ++ text) = true :=
    List.isPrefixOf_iff_prefix.mpr (List.prefix_append lead text)
  rw [afterLead?, begins, List.drop_left]
  rfl

theorem beforeTail?_append (text tail : Text) : beforeTail? tail (text ++ tail) = some text := by
  have ends : tail.isSuffixOf (text ++ tail) = true :=
    List.isSuffixOf_iff_suffix.mpr (List.suffix_append text tail)
  rw [beforeTail?, ends, List.length_append, Nat.add_sub_cancel, List.take_left]
  rfl

theorem lower_append (first second : Text) : lower (first ++ second) = lower first ++ lower second :=
  List.map_append

theorem lower_decimal (number : Nat) : lower (decimal number) = decimal number := by
  have same : ∀ c ∈ decimal number, c.toLower = id c := fun c member =>
    toLower_of_not_isAlpha (ClauseForm.follows_digit (isDigit_of_mem_decimal member)).1
  rw [lower, List.map_congr_left same, List.map_id]

end Text

section Range

variable {high low : Nat}

theorem words_bounds (high low : Nat) :
    Text.words (Text.decimal high ++ downto ++ Text.decimal low) =
      [Text.decimal high, "downto".toList, Text.decimal low] := by
  have dark : ∀ number, ∀ c ∈ Text.decimal number, Text.isBlank c = false := fun number c member =>
    Text.isBlank_of_isDigit (Text.isDigit_of_mem_decimal member)
  have between : downto ++ Text.decimal low =
      ' ' :: (['d', 'o', 'w', 'n', 't', 'o'] ++ ' ' :: Text.decimal low) := rfl
  rw [List.append_assoc, Text.words_dark_append (Text.decimal_ne_nil high) (dark high) rfl, between,
    Text.words_blank_cons rfl, Text.words_dark_append (by decide) (by decide) rfl,
    Text.words_blank_cons rfl, Text.words_of_dark (Text.decimal_ne_nil low) (dark low)]
  rfl

theorem rangeWidth_rangeText (ordered : low ≤ high) (small : high < indexBound)
    (narrow : high - low + 1 < indexBound) :
    rangeWidth (rangeText high low) = .ok (high - low + 1) := by
  have solid : (rangeText high low).Solid := Text.solid_group _
  have opened : Text.afterLead? ['('] (rangeText high low) =
      some (Text.decimal high ++ downto ++ Text.decimal low ++ [')']) := by
    rw [rangeText, List.append_assoc]
    exact Text.afterLead?_append _ _
  have closed : ∀ inner : Text, Text.beforeTail? [')'] (Text.trimEnd (inner ++ [')'])) = some inner := by
    intro inner
    rw [Text.trimEnd, Text.dropEndWhile_last (by decide), Text.beforeTail?_append]
  unfold rangeWidth
  simp only [Text.trim_solid solid, opened, Option.bind_some, closed, words_bounds]
  rw [if_neg (by decide), Text.numberBelow?_decimal small,
    Text.numberBelow?_decimal (Nat.lt_of_le_of_lt ordered small)]
  simp only [if_neg (Nat.not_lt.mpr ordered), if_pos narrow]

end Range

section VectorType

variable (high low : Nat)

def vectorType : Text :=
  vectorName ++ rangeText high low

theorem vectorType_eq :
    vectorType high low =
      vectorName ++ (['('] ++ (Text.decimal high ++ downto ++ Text.decimal low)) ++ [')'] := by
  rw [vectorType, rangeText, List.append_assoc vectorName]

theorem solid_vectorType : (vectorType high low).Solid := by
  have name : vectorName.Solid := Text.solid_of_forall (by decide) (by decide)
  rw [vectorType_eq]
  exact name.append (Text.solid_singleton (by decide)) _

theorem not_mem_vectorType {c : Char} (other : c ∉ vectorName ++ downto ++ ['(', ')'])
    (digit : c.isDigit = false) : c ∉ vectorType high low := by
  simp only [List.mem_append, List.mem_cons, List.not_mem_nil, not_or] at other
  rw [vectorType_eq]
  simp only [List.mem_append, List.mem_singleton, not_or]
  exact ⟨⟨other.1.1, other.2.1, ⟨Text.not_mem_decimal high digit, other.1.2⟩,
    Text.not_mem_decimal low digit⟩, other.2.2.1⟩

theorem lower_vectorType : Text.lower (vectorType high low) = vectorType high low := by
  have name : Text.lower vectorName = vectorName := by decide
  have direction : Text.lower downto = downto := by decide
  have opening : Text.lower ['('] = ['('] := by decide
  have closing : Text.lower [')'] = [')'] := by decide
  rw [vectorType_eq]
  simp only [Text.lower_append, Text.lower_decimal, name, direction, opening, closing]

theorem signalType?_vector :
    signalType? ([' '] ++ vectorType high low ++ [';']) = some (.vector (rangeText high low)) := by
  have solid : (vectorType high low ++ [';']).Solid := by
    have closed := (solid_vectorType high low).append (Text.solid_singleton (c := ';') (by decide)) []
    rw [List.append_nil] at closed
    exact closed
  have trimmed : Text.trim ([' '] ++ vectorType high low ++ [';']) = vectorType high low ++ [';'] := by
    have around := Text.trim_of_solid Text.allBlank_space solid Text.allBlank_nil
    rw [List.append_nil, ← List.append_assoc] at around
    exact around
  have bare : Text.dropEndWhile (· == ';') (vectorType high low ++ [';']) = vectorType high low := by
    rw [Text.dropEndWhile_append_of_forall (by decide), vectorType_eq,
      Text.dropEndWhile_last (by decide)]
  have whole : Text.cut? [':', '='] (vectorType high low) = none :=
    Text.cut?_eq_none (not_mem_vectorType high low (by decide) (by decide))
  have led : Text.afterLead? "std_logic_vector".toList (vectorType high low) =
      some (rangeText high low) :=
    Text.afterLead?_append vectorName _
  unfold signalType?
  simp only [trimmed, bare, whole, Text.trim_solid (solid_vectorType high low), lower_vectorType, led]

end VectorType

section SignalLine

variable {name : Text} (identifier : Text.isIdentifier name = true) (type : Text)

theorem signalLine_eq (name type : Text) :
    signalLine name type =
      ['s', 'i', 'g', 'n', 'a', 'l'] ++
        ([' '] ++ name ++ [' '] ++ [':'] ++ ([' '] ++ type ++ [';'])) := by
  simp [signalLine]

theorem solid_signalLine (name type : Text) : (signalLine name type).Solid :=
  ⟨⟨'s', _, rfl, by decide⟩, _, ';', rfl, by decide⟩

include identifier

theorem not_mem_signalLine {c : Char} {type : Text} (other : c ∉ "signal : ;".toList)
    (outside : Text.continuesName c = false) (fresh : c ∉ type) : c ∉ signalLine name type := by
  have part : ∀ text : Text, text ⊆ "signal : ;".toList → c ∉ text :=
    fun text inside member => other (inside member)
  simp only [signalLine, List.mem_append, not_or]
  exact ⟨⟨⟨⟨part _ (by decide), Text.not_mem_identifier identifier outside⟩, part _ (by decide)⟩,
    fresh⟩, part _ (by decide)⟩

theorem signalNames_single : signalNames ([' '] ++ name ++ [' ']) = [name] := by
  have alone : ',' ∉ [' '] ++ name ++ [' '] := by
    simp only [List.mem_append, not_or]
    exact ⟨⟨by decide, Text.not_mem_identifier identifier (by decide)⟩, by decide⟩
  have trimmed : Text.trim ([' '] ++ name ++ [' ']) = name :=
    Text.trim_of_solid Text.allBlank_space (Text.solid_of_isIdentifier identifier) Text.allBlank_space
  have nonempty := Text.ne_nil_of_isIdentifier identifier
  rw [signalNames, List.splitOn_eq_singleton alone, List.map_singleton, trimmed]
  simp [nonempty]

theorem declarationParts?_signalLine :
    declarationParts? (signalLine name type) =
      (signalType? ([' '] ++ type ++ [';'])).map fun type => ([name], type) := by
  have fresh : ':' ∉ [' '] ++ name ++ [' '] := by
    simp only [List.mem_append, not_or]
    exact ⟨⟨by decide, Text.not_mem_identifier identifier (by decide)⟩, by decide⟩
  have keyword : Text.afterKeyword? ['s', 'i', 'g', 'n', 'a', 'l'] (signalLine name type) =
      some ([' '] ++ name ++ [' '] ++ [':'] ++ ([' '] ++ type ++ [';'])) := by
    rw [signalLine_eq]
    rfl
  rw [declarationParts?, keyword]
  simp only [Text.cut?_append fresh, signalNames_single identifier]
  rfl

theorem read_bitLine (offset : Nat) :
    ∃ span, Declaration.read (signalLine name "std_logic".toList) offset =
      .ok (some ⟨[name], 1, false, span⟩) := by
  have type : signalType? ([' '] ++ "std_logic".toList ++ [';']) = some .bit := by decide
  rw [Declaration.read, Text.trim_solid (solid_signalLine _ _), declarationParts?_signalLine identifier,
    type]
  exact ⟨_, rfl⟩

theorem read_vectorLine {high low : Nat} (ordered : low ≤ high) (small : high < indexBound)
    (narrow : high - low + 1 < indexBound) (offset : Nat) :
    ∃ span, Declaration.read (signalLine name (vectorType high low)) offset =
      .ok (some ⟨[name], high - low + 1, true, span⟩) := by
  rw [Declaration.read, Text.trim_solid (solid_signalLine _ _), declarationParts?_signalLine identifier,
    signalType?_vector]
  simp only [Option.map_some, rangeWidth_rangeText ordered small narrow]
  exact ⟨_, rfl⟩

end SignalLine

end TriggerLogic
