import TriggerLogic.Proofs.ConditionText

namespace TriggerLogic

/-- A choice of levels: `'1' when C else '0' when D else '1'`. -/
inductive Selection where
  | final (level : Bool)
  | arm (level : Bool) (condition : Formula) (rest : Selection)
  deriving DecidableEq, Repr

namespace Selection

inductive Written : Text → Selection → Prop
  | final {level : Bool} : Written (levelText level) (.final level)
  | arm {level : Bool} {condition : Formula} {rest : Selection}
      {before head after text between other behind tail : Text} :
      before.Gap → Text.lower head = ['w', 'h', 'e', 'n'] → after.Gap →
      Formula.Written false text condition →
      between.Gap → Text.lower other = ['e', 'l', 's', 'e'] → behind.Gap → Written tail rest →
      Written (levelText level ++ before ++ (head ++ (after ++ (text ++ between ++
        (other ++ (behind ++ tail)))))) (.arm level condition rest)

/-- The first arm whose condition holds, or else the last level, is high. -/
def High (layout : Layout) (input : List Bool) : Selection → Prop
  | .final level => level = true
  | .arm level condition rest =>
    condition.Holds layout input ∧ level = true ∨
      ¬ condition.Holds layout input ∧ rest.High layout input

instance decidableHigh (layout : Layout) (input : List Bool) :
    (selection : Selection) → Decidable (selection.High layout input)
  | .final level => inferInstanceAs (Decidable (level = true))
  | .arm level condition rest =>
    have := decidableHigh layout input rest
    inferInstanceAs (Decidable (condition.Holds layout input ∧ level = true ∨
      ¬ condition.Holds layout input ∧ rest.High layout input))

def AllLow : Selection → Prop
  | .final level => level = false
  | .arm level _ rest => level = false ∧ rest.AllLow

theorem not_high_of_allLow {selection : Selection} (low : selection.AllLow) (layout : Layout)
    (input : List Bool) : ¬ selection.High layout input := by
  induction selection with
  | final level =>
    rw [AllLow] at low
    simp [High, low]
  | arm level condition rest ih =>
    rintro (⟨-, high⟩ | ⟨-, later⟩)
    · rw [low.1] at high
      cases high
    · exact ih low.2 later

end Selection

namespace Text

theorem PlainlySpaced.append {first second : Text} (before : first.PlainlySpaced)
    (after : second.PlainlySpaced) : (first ++ second).PlainlySpaced :=
  List.forall_mem_append.mpr ⟨before, after⟩

theorem PlainBlank.plainlySpaced {text : Text} (plain : text.PlainBlank) : text.PlainlySpaced :=
  fun c member _ => plain c member

theorem plainlySpaced_of_dark {text : Text} (dark : ∀ c ∈ text, isBlank c = false) :
    text.PlainlySpaced := by
  intro c member blank
  rw [dark c member] at blank
  cases blank

theorem plainlySpaced_of_letters {text : Text} (letters : ∀ c ∈ text, c.isAlpha = true) :
    text.PlainlySpaced :=
  plainlySpaced_of_dark fun c member => isBlank_of_isAlpha (letters c member)

end Text

def Statement.Selects (statement : Statement) (selection : Selection) : Prop :=
  ∃ lead text tail, statement.rhs = lead ++ text ++ tail ∧ lead.PlainBlank ∧ tail.PlainBlank ∧
    selection.Written text

namespace Formula

def Declared (layout : Layout) (formula : Formula) : Prop :=
  ∀ name ∈ formula.names, (layout.find? name).isSome = true

instance (layout : Layout) (formula : Formula) : Decidable (formula.Declared layout) :=
  inferInstanceAs (Decidable (∀ name ∈ formula.names, _))

/-- No `not` and no name can be taken for a part of something else. -/
def Unmistakable (layout : Layout) (formula : Formula) : Prop :=
  layout.NamesWithoutNot ∨ formula.NotsApart ∧ ¬ formula.Reserved

instance (layout : Layout) (formula : Formula) : Decidable (formula.Unmistakable layout) :=
  inferInstanceAs (Decidable (_ ∨ _))

theorem Written.plainlySpaced {tight : Bool} {text : Text} {formula : Formula}
    (written : Written tight text formula) : text.PlainlySpaced := by
  induction written with
  | clause written =>
    obtain ⟨head, rest, rfl, shape, follows⟩ := written.split
    apply Text.PlainlySpaced.append
    · exact Text.plainlySpaced_of_dark fun c member =>
        (ClauseForm.dark_of_mem_head written.isIdentifier shape member).2
    · exact fun c member => (follows c member).2.2.2
  | not isNot spaced _ ih =>
    have word := Text.plainlySpaced_of_letters (Text.isKeyword_not.isAlpha_of_spelled isNot)
    exact (word.append spaced.2.plainlySpaced).append ih
  | group leading trailing _ ih =>
    have close : Text.PlainlySpaced [')'] := Text.plainlySpaced_of_dark (by decide)
    have opened : Text.PlainlySpaced ['('] := Text.plainlySpaced_of_dark (by decide)
    exact ((opened.append leading.plainlySpaced).append ih).append (trailing.plainlySpaced.append close)
  | and spelled leading trailing _ _ ihLeft ihRight =>
    have word := Text.plainlySpaced_of_letters (Text.isKeyword_and.isAlpha_of_spelled spelled)
    exact (ihLeft.append leading.2.plainlySpaced).append
      ((word.append trailing.2.plainlySpaced).append ihRight)
  | alone _ ih => exact ih

end Formula

def Selection.conditions : Selection → List Formula
  | .final _ => []
  | .arm _ condition rest => condition :: rest.conditions

def Selection.Declared (layout : Layout) (selection : Selection) : Prop :=
  ∀ condition ∈ selection.conditions, condition.Declared layout

instance (layout : Layout) (selection : Selection) : Decidable (selection.Declared layout) :=
  inferInstanceAs (Decidable (∀ condition ∈ selection.conditions, _))

namespace Condition

theorem forall₂_of_readPieces {layout : Layout} {output : Text} {offset : Nat} {pieces : List Text}
    {clauses : List Clause} (found : readPieces layout output offset pieces = .ok clauses) :
    List.Forall₂ (fun piece clause => ∃ span, Clause.read layout output span piece = .ok clause)
      pieces clauses := by
  induction pieces generalizing offset clauses with
  | nil =>
    cases found
    exact .nil
  | cons piece pieces ih =>
    unfold readPieces at found
    split at found
    · cases found
    · rename_i clause first
      obtain ⟨more, others, rfl⟩ := map_eq_ok_iff.mp found
      exact .cons ⟨_, first⟩ (ih others)

theorem head?_gap {gap : Text} (spaced : gap.Gap) (rest : Text) :
    (gap ++ rest).head?.all Text.isDelimiter = true := by
  obtain ⟨c, blanks, rfl⟩ := List.exists_cons_of_ne_nil spaced.1
  exact spaced.delimiters.2 c List.mem_cons_self

theorem cut_at_when {lead before head after : Text} (level : Bool) (plain : lead.PlainBlank)
    (leading : before.Gap) (isWhen : Text.lower head = ['w', 'h', 'e', 'n']) (trailing : after.Gap)
    (rest : Text) :
    ∃ skipped, Text.cutKeyword? ['w', 'h', 'e', 'n'] true
      (lead ++ (levelText level ++ before ++ (head ++ (after ++ rest)))) =
        some (skipped, after ++ rest) := by
  have found := Text.cutKeyword?_keyword Text.isKeyword_when isWhen (head?_gap trailing rest)
  have behindLevel : Text.cutKeyword? ['w', 'h', 'e', 'n'] true
      (levelText level ++ before ++ (head ++ (after ++ rest))) =
        some (levelText level ++ before ++ [], after ++ rest) := by
    rw [Text.cutKeyword?_other Text.isKeyword_when leading.delimiters (by cases level <;> decide)
      (by cases level <;> decide) (by cases level <;> decide), found]
    rfl
  by_cases empty : lead = []
  · subst empty
    exact ⟨_, behindLevel⟩
  · rw [Text.cutKeyword?_lead Text.isKeyword_when ⟨empty, plain.delimits⟩, behindLevel]
    exact ⟨_, rfl⟩

/-- The condition of an arm ends at its `else`, or at a name that is taken for one. -/
theorem cut_at_else {after text between other rest : Text} {condition : Formula} (leading : after.Gap)
    (written : Formula.Written false text condition) (trailing : between.Gap)
    (isElse : Text.lower other = ['e', 'l', 's', 'e'])
    (ends : rest.head?.all Text.isDelimiter = true) :
    ∃ shown dropped, Text.cutKeyword? ['e', 'l', 's', 'e'] false
        (after ++ (text ++ between ++ (other ++ rest))) = some (after ++ shown, dropped) ∧
      shown.PlainlySpaced ∧
      (shown = text ++ between ∨ condition.Reserved ∧
        ∃ piece ∈ Text.pieces ['a', 'n', 'd'] true shown, Clause.Void piece) := by
  have spaced := written.plainlySpaced
  have step := Text.cutKeyword?_gap Text.isKeyword_else trailing.delimiters true text (other ++ rest)
  rw [Text.cutKeyword?_keyword Text.isKeyword_else isElse ends] at step
  rw [Text.cutKeyword?_lead Text.isKeyword_else leading.delimiters, step]
  rcases written.else_free with none | ⟨reserved, before, tail, found, void⟩
  · rw [none]
    exact ⟨text ++ between, rest, by simp, spaced.append trailing.2.plainlySpaced, .inl rfl⟩
  · rw [found]
    obtain ⟨word, rfl, -⟩ := Text.cutKeyword?_eq_some found
    have shownSpaced : before.PlainlySpaced := fun c member => spaced c (by simp [member])
    exact ⟨before, _, rfl, shownSpaced, .inr ⟨reserved, void⟩⟩

theorem pieces_spell_extent {statement : Statement} {level : Bool} {condition : Formula}
    {rest : Selection} (selects : statement.Selects (.arm level condition rest)) :
    isUnconditional statement.rhs = false ∧
      (extent statement.rhs).text.PlainlySpaced ∧
      Formula.PiecesSpell condition.Reserved
        (Text.pieces ['a', 'n', 'd'] (extent statement.rhs).opened (extent statement.rhs).text)
        condition.conjuncts := by
  obtain ⟨lead, text, tail, rhs, leads, -, written⟩ := selects
  cases written with
  | @arm _ _ _ before head after text between other behind last beforeGap isWhen afterGap written
      betweenGap isElse behindGap _ =>
  have whole : statement.rhs = lead ++ (levelText level ++ before ++ (head ++ (after ++
      (text ++ between ++ (other ++ (behind ++ (last ++ tail))))))) := by
    rw [rhs]
    simp only [List.append_assoc]
  obtain ⟨skipped, opened⟩ := cut_at_when level leads beforeGap isWhen afterGap
    (text ++ between ++ (other ++ (behind ++ (last ++ tail))))
  obtain ⟨shown, dropped, closed, spaced, shape⟩ := cut_at_else afterGap written betweenGap isElse
    (head?_gap behindGap (last ++ tail))
  rw [← whole] at opened
  have reached : extent statement.rhs = ⟨Text.byteLength skipped + 4, false, after ++ shown⟩ := by
    rw [extent, afterWhen, opened]
    simp only [closed]
  have spell : Formula.PiecesSpell condition.Reserved (Text.pieces ['a', 'n', 'd'] true shown)
      condition.conjuncts := by
    rcases shape with rfl | short
    · rw [Text.pieces_trail Text.isKeyword_and betweenGap.delimiters]
      exact written.pieces_spell.trail (Clause.trails_blank betweenGap.2) (Text.pieces_ne_nil _ _ _)
    · exact .inr short
  rw [reached, isUnconditional, opened]
  refine ⟨rfl, afterGap.2.plainlySpaced.append spaced, ?_⟩
  rw [Text.pieces_lead Text.isKeyword_and afterGap.delimiters]
  exact spell.lead_zero (Clause.leads_blank afterGap.2)

theorem clauses_hold_iff_items {layout : Layout} {output : Text} {pieces : List Text}
    {items : List (Nat × ClauseForm)} {clauses : List Clause}
    (spelled : List.Forall₂ Clause.Spelled pieces items)
    (reads : List.Forall₂ (fun piece clause => ∃ span, Clause.read layout output span piece = .ok clause)
      pieces clauses)
    (spaced : ∀ piece ∈ pieces, Text.PlainlySpaced piece)
    (clear : ∀ item ∈ items, ¬ item.2.name.IsNot ∧ (item.1 ≤ 1 ∨ layout.NamesWithoutNot))
    (input : List Bool) :
    (∀ clause ∈ clauses, clause.demand.Holds input) ↔
      ∀ item ∈ items, Negated item.1 (item.2.Holds layout input) := by
  induction spelled generalizing clauses with
  | nil =>
    cases reads
    simp
  | cons first _ ih =>
    cases reads with
    | cons read reads =>
      obtain ⟨span, found⟩ := read
      rw [List.forall_mem_cons] at spaced clear
      rw [List.forall_mem_cons, List.forall_mem_cons, ih reads spaced.2 clear.2,
        Clause.holds_of_spelled spaced.1 first clear.1.1 clear.1.2 found]

section Read

variable {layout : Layout} {statement : Statement} {level : Bool} {condition : Formula}
  {rest : Selection} {clauses : List Clause}
  (selects : statement.Selects (.arm level condition rest)) (declared : condition.Declared layout)
  (clear : condition.Unmistakable layout) (accepted : Condition.read layout statement = .ok clauses)

include selects declared clear accepted

theorem hold_iff_conjuncts (input : List Bool) :
    (∀ clause ∈ clauses, clause.demand.Holds input) ↔
      ∀ item ∈ condition.conjuncts, Negated item.1 (item.2.Holds layout input) := by
  obtain ⟨conditional, spacedText, spell⟩ := pieces_spell_extent selects
  rw [Condition.read, conditional] at accepted
  have reads := forall₂_of_readPieces accepted
  have spaced : ∀ piece ∈ Text.pieces ['a', 'n', 'd'] (extent statement.rhs).opened
      (extent statement.rhs).text, Text.PlainlySpaced piece := fun piece listed c member =>
    spacedText c (Text.mem_of_mem_pieces Text.isKeyword_and listed member)
  rcases spell with spelled | ⟨reserved, piece, listed, void⟩
  · apply clauses_hold_iff_items spelled reads spaced
    intro item inCondition
    have named := Formula.name_mem_of_conjunct inCondition
    rcases clear with names | ⟨apart, unreserved⟩
    · refine ⟨?_, .inr names⟩
      intro isNot
      obtain ⟨field, found⟩ := Option.isSome_iff_exists.mp (declared _ named)
      have missing := names.find?_eq_none isNot []
      rw [List.append_nil, found] at missing
      cases missing
    · refine ⟨?_, .inl (apart item inCondition)⟩
      intro isNot
      exact unreserved ⟨_, named, by rw [isNot]; decide⟩
  · rcases clear with names | ⟨-, unreserved⟩
    · obtain ⟨clause, span, read⟩ := exists_of_forall₂ reads listed
      exact absurd read (Clause.not_read_of_void names (spaced piece listed) void)
    · exact absurd reserved unreserved

theorem hold_iff_holds (flat : condition.Flat) (input : List Bool) :
    (∀ clause ∈ clauses, clause.demand.Holds input) ↔ condition.Holds layout input := by
  rw [Formula.holds_iff_conjuncts flat]
  exact hold_iff_conjuncts selects declared clear accepted input

end Read

section Samples

def bitsNamed (names : List Text) : Layout :=
  ⟨names.zipIdx.map fun entry => ⟨entry.1, entry.2, 1⟩⟩

def named (name : Text) : Formula :=
  .clause (.level name false)

def sampleStatement (rhs : Text) : Statement :=
  ⟨['y'], rhs, Span.between 4 (4 + Text.byteLength rhs), Span.between 0 (5 + Text.byteLength rhs)⟩

theorem gap_space : Text.Gap [' '] :=
  ⟨by decide, by simp [Text.PlainBlank, Text.isPlainBlank]⟩

theorem written_arm {level : Bool} {text last : Text} {condition : Formula} {rest : Selection}
    (written : Formula.Written false text condition) (later : rest.Written last) :
    (Selection.arm level condition rest).Written
      (levelText level ++ [' '] ++ ("when".toList ++ ([' '] ++ (text ++ [' '] ++
        ("else".toList ++ ([' '] ++ last)))))) :=
  .arm gap_space (by decide) gap_space written gap_space (by decide) gap_space later

theorem selects_sample {text : Text} {selection : Selection} (written : selection.Written text) :
    (sampleStatement text).Selects selection :=
  ⟨[], text, [], by simp [sampleStatement], by simp [Text.PlainBlank], by simp [Text.PlainBlank],
    written⟩

theorem written_named {name : Text} (identifier : Text.isIdentifier name = true) :
    Formula.Written true name (named name) :=
  .clause (.bare identifier)

theorem written_not {text : Text} {formula : Formula} (written : Formula.Written true text formula) :
    Formula.Written true ("not".toList ++ [' '] ++ text) (.not formula) :=
  .not (by decide) gap_space written

theorem written_and {first second : Text} {left right : Formula}
    (before : Formula.Written false first left) (after : Formula.Written true second right) :
    Formula.Written false (first ++ [' '] ++ ("and".toList ++ [' '] ++ second)) (.and left right) :=
  .and (by decide) gap_space gap_space before after

theorem written_group {text : Text} {formula : Formula} (written : Formula.Written false text formula) :
    Formula.Written true ('(' :: [] ++ text ++ ([] ++ [')'])) formula :=
  .group (by simp [Text.PlainBlank]) (by simp [Text.PlainBlank]) written

/-- An accepted selection over single bits whose clauses have another value. -/
def Misread (names : List Text) (text : Text) (selection : Selection) (input : List Bool)
    (value : Prop) : Prop :=
  (sampleStatement text).Selects selection ∧ selection.Declared (bitsNamed names) ∧
    ∃ clauses, Condition.read (bitsNamed names) (sampleStatement text) = .ok clauses ∧
      ¬ ((∀ clause ∈ clauses, clause.demand.Holds input) ↔ value)

end Samples

/-- The clauses of a selection are those of its first condition. The levels are not read, so the
clauses stand for the selection only where the first level is high and the others come out low. -/
theorem clauses_hold_iff_first_condition {layout : Layout} {statement : Statement} {level : Bool}
    {condition : Formula} {rest : Selection} {clauses : List Clause}
    (selects : statement.Selects (.arm level condition rest)) (declared : condition.Declared layout)
    (flat : condition.Flat) (clear : condition.Unmistakable layout)
    (accepted : Condition.read layout statement = .ok clauses) (input : List Bool) :
    ((∀ clause ∈ clauses, clause.demand.Holds input) ↔ condition.Holds layout input) ∧
      (((∀ clause ∈ clauses, clause.demand.Holds input) ↔
          (Selection.arm level condition rest).High layout input) ↔
        condition.Holds layout input ∧ level = true ∨
          ¬ condition.Holds layout input ∧ ¬ rest.High layout input) ∧
      (level = true → rest.AllLow → ((∀ clause ∈ clauses, clause.demand.Holds input) ↔
        (Selection.arm level condition rest).High layout input)) := by
  have meaning := hold_iff_holds selects declared clear accepted flat input
  rw [meaning, Selection.High]
  refine ⟨Iff.rfl, ?_, ?_⟩
  · by_cases holds : condition.Holds layout input <;> simp [holds]
  · intro high low
    have later := Selection.not_high_of_allLow low layout input
    simp [high, later]

def bitAndPair : Layout :=
  ⟨[⟨['a'], 0, 1⟩, ⟨['f'], 1, 2⟩]⟩

def guardedAbove : Formula :=
  .and (.not (named ['a'])) (.clause (.compare .above ['f'] 1))

theorem clauses_of_high_arm :
    (sampleStatement "'1' when not a and f > 1 else '0' when a else '0'".toList).Selects
        (.arm true guardedAbove (.arm false (named ['a']) (.final false))) ∧
      ∃ clauses, Condition.read bitAndPair
          (sampleStatement "'1' when not a and f > 1 else '0' when a else '0'".toList) = .ok clauses ∧
        ((∀ clause ∈ clauses, clause.demand.Holds [false, false, true]) ↔
          (Selection.arm true guardedAbove (.arm false (named ['a']) (.final false))).High bitAndPair
            [false, false, true]) := by
  have above : ClauseForm.Written "f > 1".toList (.compare .above ['f'] 1) :=
    @ClauseForm.Written.compared ['f'] [' '] [' '] ['1'] .above (by decide) gap_space.2 gap_space.2
      (by decide) (by decide)
  have written := written_and (.alone (written_not (@written_named ['a'] (by decide)))) (.clause above)
  have later := @written_arm false ['a'] _ _ _ (.alone (written_named (by decide)))
    (@Selection.Written.final false)
  have selects := selects_sample (@written_arm true _ _ _ _ written later)
  have accepted : Condition.read bitAndPair
      (sampleStatement "'1' when not a and f > 1 else '0' when a else '0'".toList) =
        .ok [⟨.literal ⟨0, true⟩, "not a".toList, Span.between 13 18⟩,
          ⟨.compare .above ⟨['f'], 1, 2⟩ 1, "f>1".toList, Span.between 23 28⟩] := by
    decide +kernel
  have meaning := clauses_hold_iff_first_condition selects (by decide) ⟨trivial, trivial⟩ (by decide)
    accepted [false, false, true]
  exact ⟨selects, _, accepted, meaning.2.2 rfl ⟨rfl, rfl⟩⟩

/-- The levels are not read, and a name that is a keyword may be taken for one. -/
theorem misread_selections :
    Misread [['a']] "'0' when a else '1'".toList (.arm false (named ['a']) (.final true)) [true]
        ((Selection.arm false (named ['a']) (.final true)).High (bitsNamed [['a']]) [true]) ∧
      Misread ["not".toList, "else".toList] "'1' when not else else '0'".toList
        (.arm true (.not (named "else".toList)) (.final false)) [true, true]
        ((Selection.arm true (.not (named "else".toList)) (.final false)).High
          (bitsNamed ["not".toList, "else".toList]) [true, true]) := by
  have low := selects_sample (@written_arm false ['a'] _ _ _ (.alone (written_named (by decide)))
    (@Selection.Written.final true))
  have keyword := selects_sample (@written_arm true _ _ _ _
    (.alone (written_not (@written_named "else".toList (by decide)))) (@Selection.Written.final false))
  exact ⟨⟨low, by decide, [⟨.literal ⟨0, false⟩, ['a'], Span.between 13 14⟩], by decide +kernel,
      by decide⟩,
    ⟨keyword, by decide, [⟨.literal ⟨0, false⟩, "not".toList, Span.between 13 16⟩],
      by decide +kernel, by decide⟩⟩

/-- Where no `not` stands before an `and`, the clauses of a condition hold exactly where it does. In
general a `not` reaches only to the next `and`, whatever the parentheses. -/
theorem clauses_hold_iff_condition {layout : Layout} {statement : Statement} {condition : Formula}
    {clauses : List Clause} (selects : statement.Selects (.arm true condition (.final false)))
    (declared : condition.Declared layout) (clear : condition.Unmistakable layout)
    (accepted : Condition.read layout statement = .ok clauses) (input : List Bool) :
    ((∀ clause ∈ clauses, clause.demand.Holds input) ↔
        ∀ item ∈ condition.conjuncts, Negated item.1 (item.2.Holds layout input)) ∧
      (condition.Flat →
        ((∀ clause ∈ clauses, clause.demand.Holds input) ↔ condition.Holds layout input)) :=
  ⟨hold_iff_conjuncts selects declared clear accepted input,
    fun flat => hold_iff_holds selects declared clear accepted flat input⟩

theorem clauses_of_apart_nots :
    (sampleStatement "'1' when (not nota) and b else '0'".toList).Selects
        (.arm true (.and (.not (named "nota".toList)) (named ['b'])) (.final false)) ∧
      ∃ clauses, Condition.read (bitsNamed ["nota".toList, ['b']])
          (sampleStatement "'1' when (not nota) and b else '0'".toList) = .ok clauses ∧
        ((∀ clause ∈ clauses, clause.demand.Holds [false, true]) ↔
          (Formula.and (.not (named "nota".toList)) (named ['b'])).Holds
            (bitsNamed ["nota".toList, ['b']]) [false, true]) := by
  have negated := written_not (@written_named "nota".toList (by decide))
  have written := written_and (.alone (written_group (.alone negated)))
    (@written_named ['b'] (by decide))
  have selects := selects_sample (@written_arm true _ _ _ _ written (@Selection.Written.final false))
  have accepted : Condition.read (bitsNamed ["nota".toList, ['b']])
      (sampleStatement "'1' when (not nota) and b else '0'".toList) =
        .ok [⟨.literal ⟨0, true⟩, "not nota".toList, Span.between 13 23⟩,
          ⟨.literal ⟨1, false⟩, ['b'], Span.between 28 29⟩] := by
    decide +kernel
  have meaning := clauses_hold_iff_condition selects (by decide) (by decide) accepted [false, true]
  exact ⟨selects, _, accepted, meaning.2 ⟨trivial, trivial⟩⟩

/-- A `not` before parentheses, two `not`s before a name, and names that are keywords. -/
theorem misread_conditions :
    Misread [['a'], ['b']] "'1' when not (a and b) else '0'".toList
        (.arm true (.not (.and (named ['a']) (named ['b']))) (.final false)) [false, false]
        ((Formula.not (.and (named ['a']) (named ['b']))).Holds (bitsNamed [['a'], ['b']])
          [false, false]) ∧
      Misread [['a'], "nota".toList] "'1' when not not a else '0'".toList
        (.arm true (.not (.not (named ['a']))) (.final false)) [true, true]
        ((Formula.not (.not (named ['a']))).Holds (bitsNamed [['a'], "nota".toList]) [true, true]) ∧
      Misread ["not".toList, "else".toList] "'1' when not else else '0'".toList
        (.arm true (.not (named "else".toList)) (.final false)) [true, true]
        ((Formula.not (named "else".toList)).Holds (bitsNamed ["not".toList, "else".toList])
          [true, true]) := by
  have a := @written_named ['a'] (by decide)
  have b := @written_named ['b'] (by decide)
  have other := @written_named "else".toList (by decide)
  have last := @Selection.Written.final false
  have group := selects_sample (@written_arm true _ _ _ _
    (.alone (written_not (written_group (written_and (.alone a) b)))) last)
  have twice := selects_sample (@written_arm true _ _ _ _
    (.alone (written_not (written_not a))) last)
  have keyword := selects_sample (@written_arm true _ _ _ _ (.alone (written_not other)) last)
  exact ⟨⟨group, by decide, [⟨.literal ⟨0, true⟩, "not a".toList, Span.between 13 19⟩,
      ⟨.literal ⟨1, false⟩, ['b'], Span.between 24 26⟩], by decide +kernel, by decide⟩,
    ⟨twice, by decide, [⟨.literal ⟨1, true⟩, "not nota".toList, Span.between 13 22⟩],
      by decide +kernel, by decide⟩,
    ⟨keyword, by decide, [⟨.literal ⟨0, false⟩, "not".toList, Span.between 13 16⟩],
      by decide +kernel, by decide⟩⟩

end Condition

end TriggerLogic
