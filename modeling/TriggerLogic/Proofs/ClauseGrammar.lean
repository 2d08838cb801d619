import TriggerLogic.Proofs.PieceReading

namespace TriggerLogic

def Layout.NamesIdentifiers (layout : Layout) : Prop :=
  ∀ field ∈ layout.fields, Text.isIdentifier field.name = true

instance (layout : Layout) : Decidable layout.NamesIdentifiers :=
  inferInstanceAs (Decidable (∀ field ∈ layout.fields, _))

theorem Layout.NamesIdentifiers.isIdentifier {layout : Layout} (names : layout.NamesIdentifiers)
    {name : Text} {field : Field} (declared : layout.find? name = some field) :
    Text.isIdentifier name = true := by
  have same : field.name = name := by simpa using List.find?_some declared
  rw [← same]
  exact names field (List.mem_of_find?_eq_some declared)

namespace ClauseSpelling

/-- A name, the first equals sign and a quoted level. -/
def TestsLevel (body name : Text) (level : Bool) : Prop :=
  body = name ++ ['='] ++ levelText level ∧ '=' ∉ name

/-- What a clause that tests no quoted level asks for, given its text without quotes. -/
inductive Asks (layout : Layout) (inverted : Bool) : Text → Demand → Prop
  | compared {comparator : Comparator} {name numeral : Text} {value : Nat} {field : Field} :
      inverted = false → layout.find? name = some field → numeral.Numeral value →
      value < thresholdBound →
      Asks layout inverted (name ++ comparator.symbol ++ numeral) (.compare comparator field value)
  | named {name : Text} {field : Field} : layout.find? name = some field →
      Asks layout inverted name (.literal ⟨field.start, inverted⟩)
  | marked {name : Text} {field : Field} : layout.find? name = some field →
      Asks layout inverted ('!' :: name) (.literal ⟨field.start, !inverted⟩)

section Form

variable {spelling : ClauseSpelling}

theorem form_of_testsLevel {name : Text} {level : Bool}
    (tests : TestsLevel spelling.body name level) : spelling.form = .level name !level := by
  rw [form_eq, quotedLevel?_eq_some_iff.mpr ⟨name, level, tests.1, tests.2, rfl⟩, Option.getD_some]

theorem form_of_untested (untested : ∀ name level, ¬ TestsLevel spelling.body name level) :
    spelling.form = plainForm (unquoted spelling.body) := by
  have none : quotedLevel? spelling.body = none := by
    rw [Option.eq_none_iff_forall_ne_some]
    intro form found
    obtain ⟨name, level, whole, fresh, -⟩ := quotedLevel?_eq_some_iff.mp found
    exact untested name level ⟨whole, fresh⟩
  rw [form_eq, none, Option.getD_none]

theorem resolves_plainForm_iff {layout : Layout} (names : layout.NamesIdentifiers) (inverted : Bool)
    (text : Text) (demand : Demand) :
    (∃ field, layout.find? (plainForm text).name = some field ∧
        (plainForm text).ask? inverted field = some demand) ↔ Asks layout inverted text demand := by
  constructor
  · rintro ⟨field, declared, asked⟩
    rcases plainForm_cases text with ⟨comparator, name, numeral, value, rfl, isNumeral, small, form⟩ |
      ⟨name, rfl, form⟩ | form
    · rw [form] at declared asked
      cases inverted with
      | true => cases asked
      | false =>
        cases asked
        exact .compared rfl declared isNumeral small
    · rw [form] at declared asked
      cases asked
      rw [Bool.true_bne]
      exact .marked declared
    · rw [form] at declared asked
      cases asked
      rw [Bool.false_bne]
      exact .named declared
  · intro asks
    cases asks with
    | compared upright declared isNumeral small =>
      subst upright
      rw [plainForm_compared (names.isIdentifier declared) isNumeral small]
      exact ⟨_, declared, rfl⟩
    | named declared =>
      rw [plainForm_name (names.isIdentifier declared)]
      exact ⟨_, declared, by simp [ClauseForm.ask?]⟩
    | marked declared =>
      rw [plainForm_marked (names.isIdentifier declared)]
      exact ⟨_, declared, by simp [ClauseForm.ask?]⟩

end Form

section Marks

def OneOperator (text : Text) : Prop :=
  ∃ operator ∈ ['>', '='], ∀ c ∈ text,
    Text.continuesName c = true ∨ c ∈ ['!', '+', '\'', '"', operator]

theorem OneOperator.not_mem {text : Text} (one : OneOperator text) {c : Char}
    (other : Text.continuesName c = false) (foreign : c ∉ ['!', '+', '\'', '"', '>', '=']) :
    c ∉ text := by
  intro member
  obtain ⟨operator, known, each⟩ := one
  rcases each c member with continues | mark
  · rw [other] at continues
    cases continues
  · apply foreign
    simp only [List.mem_cons, List.not_mem_nil, or_false] at known mark ⊢
    grind

theorem OneOperator.not_both {text : Text} (one : OneOperator text) (above : '>' ∈ text) :
    '=' ∉ text := by
  intro equal
  obtain ⟨operator, -, each⟩ := one
  have first := (each '>' above).resolve_left (by decide)
  have second := (each '=' equal).resolve_left (by decide)
  simp at first second
  rw [← first] at second
  cases second

theorem oneOperator_of_testsLevel {body name : Text} {level : Bool}
    (identifier : Text.isIdentifier name = true) (tests : TestsLevel body name level) :
    OneOperator body := by
  refine ⟨'=', by simp, ?_⟩
  intro c member
  rw [tests.1, List.mem_append, List.mem_append] at member
  rcases member with (inName | equal) | quoted
  · exact .inl (Text.continuesName_of_mem identifier inName)
  · right
    simp [List.mem_singleton.mp equal]
  · cases level <;> simp only [levelText, List.mem_cons, List.not_mem_nil, or_false] at quoted <;>
      rcases quoted with rfl | rfl | rfl <;> decide

theorem oneOperator_of_asks {layout : Layout} (names : layout.NamesIdentifiers) {inverted : Bool}
    {body : Text} {demand : Demand} (asks : Asks layout inverted (unquoted body) demand) :
    OneOperator body := by
  have inside : OneOperator (unquoted body) := by
    generalize unquoted body = text at asks
    cases asks with
    | @compared comparator name numeral _ _ _ declared isNumeral _ =>
      have identifier := names.isIdentifier declared
      have symbol : ∃ operator ∈ ['>', '='], comparator.symbol = [operator] := by
        cases comparator <;> simp [Comparator.symbol]
      obtain ⟨operator, known, symbol⟩ := symbol
      refine ⟨operator, known, ?_⟩
      intro c member
      rw [symbol, List.mem_append, List.mem_append] at member
      rcases member with (inName | inSymbol) | inNumeral
      · exact .inl (Text.continuesName_of_mem identifier inName)
      · right
        simp [List.mem_singleton.mp inSymbol]
      · by_cases plus : c = '+'
        · right
          simp [plus]
        · left
          have digit : c.isDigit = true := by
            rw [← Bool.not_eq_false]
            exact fun other => isNumeral.not_mem plus other inNumeral
          simp [Text.continuesName, Char.isAlphanum, digit]
    | named declared =>
      refine ⟨'=', by simp, ?_⟩
      exact fun c member => .inl (Text.continuesName_of_mem (names.isIdentifier declared) member)
    | marked declared =>
      refine ⟨'=', by simp, List.forall_mem_cons.mpr ⟨by decide, ?_⟩⟩
      exact fun c member => .inl (Text.continuesName_of_mem (names.isIdentifier declared) member)
  obtain ⟨operator, known, each⟩ := inside
  refine ⟨operator, known, ?_⟩
  intro c member
  by_cases single : c = '\''
  · simp [single]
  by_cases double : c = '"'
  · simp [double]
  exact each c ((mem_unquoted single double).mpr member)

theorem mem_body {piece : Text} {c : Char} (member : c ∈ piece) (dark : Text.isBlank c = false)
    (other : c.isAlpha = false) (unopened : c ≠ '(') (unclosed : c ≠ ')') :
    c ∈ (ofPiece piece).body := by
  have inBare : c ∈ Text.trim piece.bare := by
    apply Text.mem_trim _ dark
    simp [Text.bare, member, unopened, unclosed]
  have inCompact : ∀ {text : Text}, c ∈ text → c ∈ Text.compact text := by
    intro text inside
    simp [Text.compact, inside, dark]
  rw [ofPiece_bare]
  generalize Text.trim piece.bare = text at inBare
  cases found : Text.afterKeyword? ['n', 'o', 't'] text with
  | none => exact inCompact inBare
  | some rest =>
    simp only [Text.afterKeyword?, Option.ite_none_right_eq_some, Bool.and_eq_true, beq_iff_eq,
      Option.some.injEq] at found
    obtain ⟨⟨spelled, -⟩, rfl⟩ := found
    apply inCompact
    rw [← List.take_append_drop 3 text, List.mem_append] at inBare
    rcases inBare with inNot | inRest
    · exact absurd (spelled ▸ List.mem_map_of_mem inNot) (Text.isKeyword_not.not_mem other)
    · exact inRest

end Marks

end ClauseSpelling

namespace Clause

open ClauseSpelling (ofPiece TestsLevel Asks OneOperator unquoted)

variable {layout : Layout} (names : layout.NamesIdentifiers) {output piece : Text} {span : Span}
  {clause : Clause}

theorem literal_of_read_inverted (inverted : (ofPiece piece).inverted = true)
    (found : read layout output span piece = .ok clause) :
    ∃ literal, clause.demand = .literal literal := by
  obtain ⟨-, -, field, demand, -, asked, rfl⟩ := read_eq_ok_iff.mp found
  rw [inverted] at asked
  cases form : (ofPiece piece).form with
  | level name negated =>
    rw [form] at asked
    cases asked
    exact ⟨_, rfl⟩
  | compare comparator name threshold =>
    rw [form] at asked
    cases asked

include names

theorem read_iff_of_testsLevel {name : Text} {level : Bool}
    (tests : TestsLevel (ofPiece piece).body name level) :
    read layout output span piece = .ok clause ↔
      ∃ field, layout.find? name = some field ∧
        clause = ⟨.literal ⟨field.start, (!level) != (ofPiece piece).inverted⟩,
          (ofPiece piece).text, span⟩ := by
  rw [read_eq_ok_iff, ClauseSpelling.form_of_testsLevel tests]
  constructor
  · rintro ⟨-, -, field, demand, declared, asked, rfl⟩
    cases asked
    exact ⟨field, declared, rfl⟩
  · rintro ⟨field, declared, rfl⟩
    have one := ClauseSpelling.oneOperator_of_testsLevel (names.isIdentifier declared) tests
    refine ⟨?_, one.not_mem (by decide) (by decide), field, _, declared, rfl, rfl⟩
    rw [tests.1]
    simp

theorem read_iff_of_untested
    (untested : ∀ name level, ¬ TestsLevel (ofPiece piece).body name level) :
    read layout output span piece = .ok clause ↔
      ∃ demand, Asks layout (ofPiece piece).inverted
          (unquoted (ofPiece piece).body) demand ∧
        clause = ⟨demand, (ofPiece piece).text, span⟩ := by
  rw [read_eq_ok_iff, ClauseSpelling.form_of_untested untested]
  have resolves := ClauseSpelling.resolves_plainForm_iff names (ofPiece piece).inverted
    (unquoted (ofPiece piece).body)
  constructor
  · rintro ⟨-, -, field, demand, declared, asked, rfl⟩
    exact ⟨demand, (resolves demand).mp ⟨field, declared, asked⟩, rfl⟩
  · rintro ⟨demand, asks, rfl⟩
    obtain ⟨field, declared, asked⟩ := (resolves demand).mpr asks
    have one := ClauseSpelling.oneOperator_of_asks names asks
    refine ⟨?_, one.not_mem (by decide) (by decide), field, demand, declared, asked, rfl⟩
    intro empty
    rw [empty] at declared
    cases names.isIdentifier declared

theorem oneOperator_of_read (found : read layout output span piece = .ok clause) :
    OneOperator (ofPiece piece).body := by
  by_cases tests : ∃ name level, TestsLevel (ofPiece piece).body name level
  · obtain ⟨name, level, tests⟩ := tests
    obtain ⟨field, declared, -⟩ := (read_iff_of_testsLevel names tests).mp found
    exact ClauseSpelling.oneOperator_of_testsLevel (names.isIdentifier declared) tests
  · simp only [not_exists] at tests
    obtain ⟨demand, asks, -⟩ := (read_iff_of_untested names tests).mp found
    exact ClauseSpelling.oneOperator_of_asks names asks

theorem not_infix_of_read (found : read layout output span piece = .ok clause) :
    ∀ operator ∈ [['<'], ['<', '='], ['>', '='], ['/', '=']], ¬ operator <:+: piece := by
  have one := oneOperator_of_read names found
  have less : '<' ∉ piece := fun member =>
    one.not_mem (by decide) (by decide)
      (ClauseSpelling.mem_body member (by decide) (by decide) (by decide) (by decide))
  have slash : '/' ∉ piece := fun member =>
    one.not_mem (by decide) (by decide)
      (ClauseSpelling.mem_body member (by decide) (by decide) (by decide) (by decide))
  have both : '>' ∈ piece → '=' ∉ piece := fun above equal =>
    one.not_both (ClauseSpelling.mem_body above (by decide) (by decide) (by decide) (by decide))
      (ClauseSpelling.mem_body equal (by decide) (by decide) (by decide) (by decide))
  intro operator listed occurs
  have inside := occurs.subset
  simp only [List.mem_cons, List.not_mem_nil, or_false] at listed
  rcases listed with rfl | rfl | rfl | rfl
  · exact less (inside (by simp))
  · exact less (inside (by simp))
  · exact both (inside (by simp)) (inside (by simp))
  · exact slash (inside (by simp))

/-- Which pieces are read, over declared names: a quoted level behind the first equals sign goes by
the name before it, and any other clause by its text without quotes. -/
theorem read_follows_grammar (output piece : Text) (span : Span) (clause : Clause) :
    (∀ name level, TestsLevel (ofPiece piece).body name level →
        (read layout output span piece = .ok clause ↔
          ∃ field, layout.find? name = some field ∧
            clause = ⟨.literal ⟨field.start, (!level) != (ofPiece piece).inverted⟩,
              (ofPiece piece).text, span⟩)) ∧
      ((∀ name level, ¬ TestsLevel (ofPiece piece).body name level) →
        (read layout output span piece = .ok clause ↔
          ∃ demand,
            Asks layout (ofPiece piece).inverted (unquoted (ofPiece piece).body) demand ∧
              clause = ⟨demand, (ofPiece piece).text, span⟩)) ∧
      (read layout output span piece = .ok clause →
        (∀ operator ∈ [['<'], ['<', '='], ['>', '='], ['/', '=']], ¬ operator <:+: piece) ∧
          ((ofPiece piece).inverted = true → ∃ literal, clause.demand = .literal literal)) := by
  refine ⟨?_, ?_, ?_⟩
  · intro name level tests
    exact read_iff_of_testsLevel names tests
  · intro untested
    exact read_iff_of_untested names untested
  · intro found
    exact ⟨not_infix_of_read names found, fun inverted => literal_of_read_inverted inverted found⟩

omit names

def fieldAndVeto : Layout :=
  ⟨[⟨['f'], 0, 4⟩, ⟨"veto".toList, 4, 1⟩]⟩

theorem fieldAndVeto_clauses :
    read fieldAndVeto ['y'] ⟨0, 11⟩ "(f > '+02')".toList =
        .ok ⟨.compare .above ⟨['f'], 0, 4⟩ 2, "f>'+02'".toList, ⟨0, 11⟩⟩ ∧
      read fieldAndVeto ['y'] ⟨0, 14⟩ "Not (veto='0')".toList =
        .ok ⟨.literal ⟨4, false⟩, "not veto='0'".toList, ⟨0, 14⟩⟩ := by
  have names : fieldAndVeto.NamesIdentifiers := by decide
  constructor
  · have spelled : ofPiece "(f > '+02')".toList = ⟨false, "f>'+02'".toList⟩ := by decide
    have plain : unquoted "f>'+02'".toList = ['f'] ++ Comparator.symbol .above ++ "+02".toList := by
      decide
    apply ((read_follows_grammar names _ _ _ _).2.1 ?_).mpr
    · rw [spelled, plain]
      exact ⟨_, .compared rfl rfl ⟨"02".toList, .inr rfl, by decide, by decide⟩ (by decide), rfl⟩
    · intro name level tests
      rw [spelled] at tests
      have equal : '=' ∈ "f>'+02'".toList := by
        rw [show "f>'+02'".toList = _ from tests.1]
        simp
      exact absurd equal (by decide)
  · apply ((read_follows_grammar names _ _ _ _).1 "veto".toList false ?_).mpr
    · exact ⟨_, rfl, rfl⟩
    · exact ⟨rfl, by decide⟩

end Clause

end TriggerLogic
