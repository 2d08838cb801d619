import TriggerLogic.Decision.Printout
import TriggerLogic.Proofs.BodyText
import TriggerLogic.Proofs.DeclaredBits

namespace TriggerLogic

namespace Text

def Inline (text : Text) : Prop :=
  text.Solid ∧ '\n' ∉ text

theorem solid_trim {text : Text} (nonempty : trim text ≠ []) : (trim text).Solid := by
  rcases allBlank_or_solid text with blank | ⟨lead, core, tail, rfl, leadBlank, solid, tailBlank⟩
  · exact absurd (trim_of_allBlank blank) nonempty
  · rw [trim_of_solid leadBlank solid tailBlank]
    exact solid

theorem afterKeyword?_subset {keyword text rest : Text} (found : afterKeyword? keyword text = some rest) :
    rest ⊆ text := by
  unfold afterKeyword? at found
  simp only at found
  split at found
  · cases found
    exact List.drop_subset _ text
  · cases found

end Text

theorem Line.lineFeed_not_mem_code {source raw : Text} (listed : raw ∈ Text.lines source) :
    '\n' ∉ Line.code raw := by
  obtain ⟨front, single, shape⟩ := Text.cases_of_mem_lines listed
  have same : code raw = code front := by
    rcases shape with rfl | rfl
    · rfl
    · exact code_lineFeed front
  obtain ⟨rest, whole⟩ := exists_code_append front
  intro member
  apply single
  rw [whole, ← same]
  exact List.mem_append_left rest member

theorem solid_of_mem_signalNames {text name : Text} (listed : name ∈ signalNames text) :
    name.Solid ∧ name ⊆ text := by
  rw [signalNames, List.mem_filter, List.mem_map] at listed
  obtain ⟨⟨part, inText, rfl⟩, visible⟩ := listed
  constructor
  · apply Text.solid_trim
    simpa using visible
  · intro c member
    exact Text.subset_of_mem_splitOn inText (Text.trim_subset part member)

theorem solid_of_declarationParts? {line : Text} {names : List Text} {type : SignalType}
    (found : declarationParts? line = some (names, type)) :
    ∀ name ∈ names, name.Solid ∧ name ⊆ line := by
  unfold declarationParts? at found
  split at found
  · cases found
  rename_i rest keyword
  split at found
  · cases found
  rename_i left right cut
  simp only at found
  split at found
  · cases found
  obtain ⟨_, -, same⟩ := Option.map_eq_some_iff.mp found
  cases same
  intro name listed
  obtain ⟨solid, inside⟩ := solid_of_mem_signalNames listed
  refine ⟨solid, ?_⟩
  intro c member
  apply Text.afterKeyword?_subset keyword
  rw [Text.cut?_eq_some cut, List.mem_append, List.mem_append]
  exact .inl (.inl (inside member))

theorem Declaration.inline_names {code : Text} {offset : Nat} {declaration : Declaration}
    (single : '\n' ∉ code) (found : Declaration.read code offset = .ok (some declaration)) :
    ∀ name ∈ declaration.names, name.Inline := by
  obtain ⟨type, parts, -⟩ := Declaration.read_eq_ok found
  intro name listed
  obtain ⟨solid, inside⟩ := solid_of_declarationParts? parts name listed
  exact ⟨solid, fun member => single (Text.trim_subset code (inside member))⟩

theorem DesignUnit.inline_names {markers : Markers} {source : Text} {unit : DesignUnit}
    (found : DesignUnit.read markers source = .ok unit) : ∀ input ∈ unit.inputs, input.name.Inline := by
  intro input member
  obtain ⟨raw, listed, offset, declaration, declared, named, -⟩ :=
    exists_declaration found input member
  exact Declaration.inline_names (Line.lineFeed_not_mem_code listed) declared _ named

namespace Field

variable {field : Field}

def label (field : Field) (bit : Nat) : Text :=
  if field.width = 1 then field.name else field.name ++ '_' :: Text.decimal (bit - field.start)

theorem zipIdx_labels (field : Field) :
    field.labels.zipIdx field.start = field.bits.map fun bit => (field.label bit, bit) := by
  unfold labels label
  by_cases single : field.width = 1
  · simp [single, bits]
  · apply List.ext_getElem?
    intro place
    by_cases inside : place < field.width
    · simp [single, bits, inside, Nat.add_comm]
    · simp [single, bits, inside]

theorem inline_label (name : field.name.Inline) (bit : Nat) : (field.label bit).Inline := by
  obtain ⟨solid, feedless⟩ := name
  unfold label
  by_cases single : field.width = 1
  · rw [if_pos single]
    exact ⟨solid, feedless⟩
  · rw [if_neg single]
    constructor
    · have joined := solid.append (Text.solid_decimal (bit - field.start)) ['_']
      rw [List.append_assoc] at joined
      exact joined
    · rw [List.mem_append, List.mem_cons, not_or, not_or]
      exact ⟨feedless, by decide, Text.not_mem_decimal _ (by decide)⟩

end Field

def inputLine (field : Field) (bit : Nat) : Text :=
  Text.decimal bit ++ [' ', ' ', ' '] ++ field.label bit

theorem inline_inputLine {field : Field} (name : field.name.Inline) (bit : Nat) :
    (inputLine field bit).Inline := by
  obtain ⟨solid, feedless⟩ := Field.inline_label name bit
  refine ⟨(Text.solid_decimal bit).append solid _, ?_⟩
  simp only [inputLine, List.mem_append, not_or]
  exact ⟨⟨Text.not_mem_decimal _ (by decide), by decide⟩, feedless⟩

/-- Reads a line of a bit table: the bit up to the first three spaces, the label behind them. -/
def splitBitLine? (line : Text) : Option (Nat × Text) :=
  (Text.cut? [' ', ' ', ' '] line).map fun parts => (Nat.ofDigitChars 10 parts.1 0, parts.2)

theorem splitBitLine?_inputLine (field : Field) (bit : Nat) :
    splitBitLine? (inputLine field bit) = some (bit, field.label bit) := by
  have space : ' ' ∉ Text.decimal bit := Text.not_mem_decimal bit (by decide)
  rw [splitBitLine?, inputLine, Text.cut?_append space, Option.map_some, Text.value_decimal]

namespace Layout

variable {layout : Layout} {field : Field} {bit : Nat}

def entries (layout : Layout) : List (Field × Nat) :=
  layout.fields.flatMap fun field => field.bits.map fun bit => (field, bit)

theorem mem_entries_iff : (field, bit) ∈ layout.entries ↔ field ∈ layout.fields ∧ bit ∈ field.bits := by
  simp [entries, List.mem_flatMap]

theorem bits_entries (layout : Layout) :
    layout.entries.map Prod.snd = layout.fields.flatMap Field.bits := by
  rw [entries, List.map_flatMap]
  apply List.flatMap_congr
  intro field _
  rw [List.map_map]
  exact List.map_id _

theorem getElem?_entries (bits : layout.fields.flatMap Field.bits = List.range' 0 layout.totalBits)
    (listed : field ∈ layout.fields) (inField : bit ∈ field.bits) :
    layout.entries[bit]? = some (field, bit) := by
  obtain ⟨place, found⟩ := List.mem_iff_getElem?.mp (mem_entries_iff.mpr ⟨listed, inField⟩)
  have numbered : (List.range' 0 layout.totalBits)[place]? = some bit := by
    rw [← bits, ← bits_entries, List.getElem?_map, found]
    rfl
  obtain ⟨inside, same⟩ := List.getElem?_eq_some_iff.mp numbered
  rw [List.getElem_range'] at same
  have equal : place = bit := by omega
  rw [← equal, found, equal]

theorem length_entries (bits : layout.fields.flatMap Field.bits = List.range' 0 layout.totalBits) :
    layout.entries.length = layout.totalBits := by
  rw [← List.length_map (f := Prod.snd), bits_entries, bits, List.length_range']

end Layout

namespace DecisionTable

variable {markers : Markers} {source : Text} {table : DecisionTable}

def inputRow? (table : DecisionTable) (bit : Nat) : Option (Nat × Text) :=
  (Text.lines table.inputTable)[bit]?.bind fun line => splitBitLine? (Text.withoutLineEnd line)

theorem inputTable_eq (table : DecisionTable) :
    table.inputTable =
      table.layout.entries.flatMap fun entry => inputLine entry.1 entry.2 ++ ['\n'] := by
  rw [inputTable, Layout.entries, List.flatMap_assoc]
  apply List.flatMap_congr
  intro field _
  rw [Field.zipIdx_labels, List.flatMap_map, List.flatMap_map]
  rfl

theorem bits_of_ofSource (accepted : ofSource markers source = .ok table) :
    table.layout.fields.flatMap Field.bits = List.range' 0 table.layout.totalBits := by
  obtain ⟨unit, -, built⟩ := ofSource_eq_ok accepted
  rw [(ofUnit_eq_ok built).1, Layout.bits_place, Layout.totalBits_place]

theorem inline_names (accepted : ofSource markers source = .ok table) :
    ∀ field ∈ table.layout.fields, field.name.Inline := by
  obtain ⟨unit, found, built⟩ := ofSource_eq_ok accepted
  rw [(ofUnit_eq_ok built).1]
  intro field listed
  have name : field.name ∈ unit.inputs.map InputDeclaration.name :=
    Layout.names_place 0 unit.inputs ▸ List.mem_map_of_mem listed
  obtain ⟨input, declared, same⟩ := List.mem_map.mp name
  rw [← same]
  exact DesignUnit.inline_names found input declared

theorem numbers_of_ofSource (accepted : ofSource markers source = .ok table) :
    ∃ declarations, table.layout.Numbers declarations := by
  obtain ⟨unit, -, built⟩ := ofSource_eq_ok accepted
  obtain ⟨layout, placed, -, -, rfl⟩ := ofUnit_eq_ok_iff.mp built
  exact ⟨unit.inputs, Layout.numbers_of_ofDeclarations placed⟩

theorem lines_inputTable (accepted : ofSource markers source = .ok table) :
    Text.lines table.inputTable =
      table.layout.entries.map fun entry => inputLine entry.1 entry.2 ++ ['\n'] := by
  rw [inputTable_eq]
  apply Text.lines_flatMap_lineFeed
  rintro ⟨field, bit⟩ listed
  exact (inline_inputLine (inline_names accepted field (Layout.mem_entries_iff.mp listed).1) bit).2

theorem line_of_bit (accepted : ofSource markers source = .ok table) {field : Field} {bit : Nat}
    (listed : field ∈ table.layout.fields) (inField : bit ∈ field.bits) :
    (Text.lines table.inputTable)[bit]? = some (inputLine field bit ++ ['\n']) ∧
      Text.withoutLineEnd (inputLine field bit ++ ['\n']) = inputLine field bit := by
  constructor
  · rw [lines_inputTable accepted, List.getElem?_map,
      Layout.getElem?_entries (bits_of_ofSource accepted) listed inField]
    rfl
  · obtain ⟨⟨-, front, c, whole, dark⟩, -⟩ := inline_inputLine (inline_names accepted field listed) bit
    apply Text.withoutLineEnd_lineFeed
    rw [whole, List.getLast?_concat]
    intro same
    cases same
    cases dark

theorem inputRow?_of_bit (accepted : ofSource markers source = .ok table) {field : Field} {bit : Nat}
    (listed : field ∈ table.layout.fields) (inField : bit ∈ field.bits) :
    table.inputRow? bit = some (bit, field.label bit) := by
  obtain ⟨line, bare⟩ := line_of_bit accepted listed inField
  rw [inputRow?, line, Option.bind_some, bare, splitBitLine?_inputLine]

theorem length_lines_inputTable (accepted : ofSource markers source = .ok table) :
    (Text.lines table.inputTable).length = table.layout.totalBits := by
  rw [lines_inputTable accepted, List.length_map, Layout.length_entries (bits_of_ofSource accepted)]

/-- The input table has one line for each input bit, in order. It shows the bit and, behind three
spaces, the name of the one field that has the bit, numbered unless the field has one bit only; and
it can be split there again. -/
theorem input_table_shows_each_bit (accepted : ofSource markers source = .ok table) :
    (Text.lines table.inputTable).length = table.layout.totalBits ∧
      (∀ bit < table.layout.totalBits, ∃! field, field ∈ table.layout.fields ∧ bit ∈ field.bits) ∧
      ∀ field ∈ table.layout.fields, ∀ bit ∈ field.bits,
        bit < table.layout.totalBits ∧
        (Text.lines table.inputTable)[bit]? =
          some (Text.decimal bit ++ [' ', ' ', ' '] ++ field.label bit ++ ['\n']) ∧
        '\n' ∉ field.label bit ∧
        table.inputRow? bit = some (bit, field.label bit) := by
  obtain ⟨declarations, numbers⟩ := numbers_of_ofSource accepted
  refine ⟨length_lines_inputTable accepted, numbers.covered, ?_⟩
  intro field listed bit inField
  exact ⟨numbers.inside field listed bit inField, (line_of_bit accepted listed inField).1,
    (Field.inline_label (inline_names accepted field listed) bit).2,
    inputRow?_of_bit accepted listed inField⟩

def spacedSource : Text :=
  ["-- Inputs\n", "signal go : std_logic;\n", "signal a\rb   c : std_logic_vector(1 downto 0);\n",
    "-- Outputs\n", "begin\n"].flatMap String.toList

def spacedTable : DecisionTable :=
  ⟨⟨[⟨"go".toList, 0, 1⟩, ⟨"a\rb   c".toList, 1, 2⟩]⟩, []⟩

theorem ofSource_spaced : ofSource {} spacedSource = .ok spacedTable := by
  decide +kernel

theorem spacedTable_shows_bits :
    ofSource {} spacedSource = .ok spacedTable ∧ (Text.lines spacedTable.inputTable).length = 3 ∧
      spacedTable.inputRow? 0 = some (0, "go".toList) ∧
      spacedTable.inputRow? 2 = some (2, "a\rb   c_1".toList) := by
  obtain ⟨length, -, each⟩ := input_table_shows_each_bit ofSource_spaced
  obtain ⟨-, -, -, first⟩ := each ⟨"go".toList, 0, 1⟩ (by decide) 0 (by decide)
  obtain ⟨-, -, -, last⟩ := each ⟨"a\rb   c".toList, 1, 2⟩ (by decide) 2 (by decide)
  exact ⟨ofSource_spaced, length, first, last⟩

end DecisionTable

theorem Text.name_place_inj {name other : Text} {place further : Nat}
    (same : name ++ '_' :: decimal place = other ++ '_' :: decimal further) :
    name = other ∧ place = further := by
  have fresh : ∀ number, '_' ∉ (decimal number).reverse := by
    intro number
    rw [List.mem_reverse]
    exact not_mem_decimal number (by decide)
  have reversed : (decimal place).reverse ++ ['_'] ++ name.reverse =
      (decimal further).reverse ++ ['_'] ++ other.reverse := by
    simpa using congrArg List.reverse same
  have cut := @cut?_append '_' [] _ (fresh place) name.reverse
  rw [reversed, cut?_append (fresh further)] at cut
  simp only [Option.some.injEq, Prod.mk.injEq, List.reverse_inj] at cut
  obtain ⟨digits, names⟩ := cut
  refine ⟨names.symm, ?_⟩
  rw [← value_decimal place, ← digits, value_decimal]

namespace Layout

/-- A single input has the name that a bit of a vector has for its label. -/
def Spells (layout : Layout) (single bit : Nat) : Prop :=
  ∃ scalar ∈ layout.fields, ∃ vector ∈ layout.fields, scalar.width = 1 ∧ vector.width ≠ 1 ∧
    single ∈ scalar.bits ∧ bit ∈ vector.bits ∧
    scalar.name = vector.name ++ '_' :: Text.decimal (bit - vector.start)

namespace Numbers

variable {layout : Layout} {declarations : List InputDeclaration} (numbers : layout.Numbers declarations)
  {first second : Field} {bit further : Nat}

include numbers

theorem eq_of_name (listed : first ∈ layout.fields) (other : second ∈ layout.fields)
    (same : first.name = second.name) : first = second := by
  have found := numbers.found first listed
  rw [same, numbers.found second other] at found
  exact (Option.some.inj found).symm

theorem eq_of_bit (listed : first ∈ layout.fields) (other : second ∈ layout.fields)
    (inFirst : bit ∈ first.bits) (inSecond : bit ∈ second.bits) : first = second := by
  have unique := numbers.covered bit (numbers.inside first listed bit inFirst)
  exact unique.unique ⟨listed, inFirst⟩ ⟨other, inSecond⟩

theorem ne_of_spells (spells : layout.Spells bit further) : bit ≠ further := by
  rintro rfl
  obtain ⟨scalar, listed, vector, other, one, several, inScalar, inVector, -⟩ := spells
  apply several
  rw [← numbers.eq_of_bit listed other inScalar inVector]
  exact one

theorem label_of_spells (spells : layout.Spells bit further) (listed : first ∈ layout.fields)
    (inFirst : bit ∈ first.bits) (other : second ∈ layout.fields) (inSecond : further ∈ second.bits) :
    first.label bit = second.label further := by
  obtain ⟨scalar, isField, vector, alsoField, one, several, inScalar, inVector, name⟩ := spells
  rw [numbers.eq_of_bit listed isField inFirst inScalar,
    numbers.eq_of_bit other alsoField inSecond inVector, Field.label, if_pos one, Field.label,
    if_neg several]
  exact name

theorem label_eq_iff (listed : first ∈ layout.fields) (inFirst : bit ∈ first.bits)
    (other : second ∈ layout.fields) (inSecond : further ∈ second.bits) (apart : bit ≠ further) :
    first.label bit = second.label further ↔ layout.Spells bit further ∨ layout.Spells further bit := by
  constructor
  · intro same
    have inside := List.mem_range'_1.mp inFirst
    have alsoInside := List.mem_range'_1.mp inSecond
    -- Two names differ, and so do two places in one field. What is left is a name that looks numbered.
    by_cases one : first.width = 1 <;> by_cases another : second.width = 1
    · rw [Field.label, if_pos one, Field.label, if_pos another] at same
      have equal := numbers.eq_of_name listed other same
      subst equal
      omega
    · rw [Field.label, if_pos one, Field.label, if_neg another] at same
      exact .inl ⟨first, listed, second, other, one, another, inFirst, inSecond, same⟩
    · rw [Field.label, if_neg one, Field.label, if_pos another] at same
      exact .inr ⟨second, other, first, listed, another, one, inSecond, inFirst, same.symm⟩
    · rw [Field.label, if_neg one, Field.label, if_neg another] at same
      obtain ⟨name, place⟩ := Text.name_place_inj same
      have equal := numbers.eq_of_name listed other name
      subst equal
      omega
  · rintro (spells | spells)
    · exact numbers.label_of_spells spells listed inFirst other inSecond
    · exact (numbers.label_of_spells spells other inSecond listed inFirst).symm

end Numbers

end Layout

namespace DecisionTable

variable {markers : Markers} {source : Text} {table : DecisionTable}

def inputLabel? (table : DecisionTable) (bit : Nat) : Option Text :=
  (table.inputRow? bit).map Prod.snd

theorem inputLabel?_eq_some_iff (accepted : ofSource markers source = .ok table) {bit : Nat}
    {label : Text} :
    table.inputLabel? bit = some label ↔
      ∃ field ∈ table.layout.fields, bit ∈ field.bits ∧ field.label bit = label := by
  constructor
  · intro shown
    have inside : bit < table.layout.totalBits := by
      by_contra outside
      have none : (Text.lines table.inputTable)[bit]? = none := by
        rw [List.getElem?_eq_none_iff, length_lines_inputTable accepted]
        omega
      rw [inputLabel?, inputRow?, none] at shown
      cases shown
    obtain ⟨declarations, numbers⟩ := numbers_of_ofSource accepted
    obtain ⟨field, ⟨listed, inField⟩, -⟩ := numbers.covered bit inside
    rw [inputLabel?, inputRow?_of_bit accepted listed inField] at shown
    exact ⟨field, listed, inField, Option.some.inj shown⟩
  · rintro ⟨field, listed, inField, rfl⟩
    rw [inputLabel?, inputRow?_of_bit accepted listed inField]
    rfl

theorem shared_label_iff (accepted : ofSource markers source = .ok table) {first second : Nat}
    (apart : first ≠ second) :
    (∃ label, table.inputLabel? first = some label ∧ table.inputLabel? second = some label) ↔
      table.layout.Spells first second ∨ table.layout.Spells second first := by
  obtain ⟨declarations, numbers⟩ := numbers_of_ofSource accepted
  simp only [inputLabel?_eq_some_iff accepted]
  constructor
  · rintro ⟨_, ⟨field, listed, inField, rfl⟩, other, alsoListed, inOther, same⟩
    exact (numbers.label_eq_iff listed inField alsoListed inOther apart).mp same.symm
  · intro spells
    have fields : ∃ field ∈ table.layout.fields, first ∈ field.bits ∧
        ∃ other ∈ table.layout.fields, second ∈ other.bits := by
      rcases spells with spells | spells
      · obtain ⟨scalar, listed, vector, other, -, -, inScalar, inVector, -⟩ := spells
        exact ⟨scalar, listed, inScalar, vector, other, inVector⟩
      · obtain ⟨scalar, listed, vector, other, -, -, inScalar, inVector, -⟩ := spells
        exact ⟨vector, other, inVector, scalar, listed, inScalar⟩
    obtain ⟨field, listed, inField, other, alsoListed, inOther⟩ := fields
    have same := (numbers.label_eq_iff listed inField alsoListed inOther apart).mpr spells
    exact ⟨field.label first, ⟨field, listed, inField, rfl⟩, other, alsoListed, inOther, same.symm⟩

/-- Two lines of the input table share a label exactly where one is that of a single input whose
name is a vector's name with a place of the vector, and the other that of the bit there. Without such
an input all labels differ. -/
theorem labels_differ_unless_spelled (accepted : ofSource markers source = .ok table) :
    (∀ first second, first ≠ second →
      ((∃ label, table.inputLabel? first = some label ∧ table.inputLabel? second = some label) ↔
        table.layout.Spells first second ∨ table.layout.Spells second first)) ∧
    ((∀ first second label, table.inputLabel? first = some label →
        table.inputLabel? second = some label → first = second) ↔
      ∀ scalar ∈ table.layout.fields, ∀ vector ∈ table.layout.fields, scalar.width = 1 →
        vector.width ≠ 1 → ∀ place < vector.width,
          scalar.name ≠ vector.name ++ '_' :: Text.decimal place) := by
  refine ⟨fun first second apart => shared_label_iff accepted apart, ?_, ?_⟩
  · intro distinct scalar listed vector other one several place inside name
    obtain ⟨declarations, numbers⟩ := numbers_of_ofSource accepted
    have spells : table.layout.Spells scalar.start (vector.start + place) := by
      refine ⟨scalar, listed, vector, other, one, several, ?_, ?_, ?_⟩
      · apply List.mem_range'_1.mpr
        omega
      · apply List.mem_range'_1.mpr
        omega
      · rw [Nat.add_sub_cancel_left]
        exact name
    have apart := numbers.ne_of_spells spells
    obtain ⟨label, here, there⟩ := (shared_label_iff accepted apart).mpr (.inl spells)
    exact apart (distinct _ _ label here there)
  · intro unspelled first second label here there
    have unspells : ∀ single bit, ¬ table.layout.Spells single bit := by
      rintro single bit ⟨scalar, listed, vector, other, one, several, -, inVector, name⟩
      have inside := List.mem_range'_1.mp inVector
      exact unspelled scalar listed vector other one several (bit - vector.start) (by omega) name
    by_contra apart
    rcases (shared_label_iff accepted apart).mp ⟨label, here, there⟩ with spells | spells
    · exact unspells first second spells
    · exact unspells second first spells

def clashingSource : Text :=
  ["-- Inputs\n", "signal a_0 : std_logic;\n", "signal a : std_logic_vector(1 downto 0);\n",
    "-- Outputs\n", "begin\n"].flatMap String.toList

def clashingTable : DecisionTable :=
  ⟨⟨[⟨"a_0".toList, 0, 1⟩, ⟨['a'], 1, 2⟩]⟩, []⟩

theorem ofSource_clashing : ofSource {} clashingSource = .ok clashingTable := by
  decide +kernel

theorem spacedTable_labels_differ :
    ofSource {} spacedSource = .ok spacedTable ∧
      (∀ first second label, spacedTable.inputLabel? first = some label →
        spacedTable.inputLabel? second = some label → first = second) ∧
      ofSource {} clashingSource = .ok clashingTable ∧
      (clashingTable.layout.Spells 0 1 ∨ clashingTable.layout.Spells 1 0) := by
  obtain ⟨-, distinct⟩ := labels_differ_unless_spelled ofSource_spaced
  obtain ⟨shared, -⟩ := labels_differ_unless_spelled ofSource_clashing
  refine ⟨ofSource_spaced, distinct.mpr (by decide), ofSource_clashing, ?_⟩
  apply (shared 0 1 (by decide)).mp
  exact ⟨"a_0".toList, by decide +kernel, by decide +kernel⟩

/-- The name of the single input is the label of a bit of the vector. -/
theorem clashingSource_repeats_label :
    ofSource {} clashingSource = .ok clashingTable ∧
      clashingTable.inputLabel? 0 = some "a_0".toList ∧
      clashingTable.inputLabel? 1 = some "a_0".toList := by
  refine ⟨ofSource_clashing, ?_, ?_⟩ <;> decide +kernel

end DecisionTable

end TriggerLogic
