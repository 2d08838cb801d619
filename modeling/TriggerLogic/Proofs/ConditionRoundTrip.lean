import TriggerLogic.Proofs.ConditionMeaning

namespace TriggerLogic

namespace Text

def Delimiting (text : Text) : Prop :=
  ∀ c ∈ text, isDelimiter c = true

instance (text : Text) : Decidable text.Delimiting :=
  inferInstanceAs (Decidable (∀ c ∈ text, _))

theorem Delimiting.head? {text : Text} (delimiting : text.Delimiting) :
    text.head?.all isDelimiter = true := by
  cases text with
  | nil => rfl
  | cons c rest => exact delimiting c List.mem_cons_self

theorem Delimiting.getLast? {text : Text} (delimiting : text.Delimiting) :
    text.getLast?.all isDelimiter = true := by
  rcases List.eq_nil_or_concat text with rfl | ⟨front, c, rfl⟩
  · rfl
  · simpa using delimiting c (by simp)

theorem Delimiting.allBlank_bare {text : Text} (delimiting : text.Delimiting) :
    text.bare.AllBlank := by
  intro c member
  simp only [bare, List.mem_filter, Bool.and_eq_true, bne_iff_ne, ne_eq] at member
  have delimits := delimiting c member.1
  simp only [isDelimiter, Bool.or_eq_true, beq_iff_eq] at delimits
  rcases delimits with (plain | opened) | closed
  · exact isBlank_of_isPlainBlank plain
  · exact absurd opened member.2.1
  · exact absurd closed member.2.2

theorem Delimiters.getLast? {gap : Text} (delimiters : gap.Delimiters) (first : Text) :
    (first ++ gap).getLast?.all isDelimiter = true := by
  rw [List.getLast?_append_of_ne_nil _ delimiters.1]
  exact Delimiting.getLast? delimiters.2

theorem Delimiters.head? {gap : Text} (delimiters : gap.Delimiters) (rest : Text) :
    (gap ++ rest).head?.all isDelimiter = true := by
  obtain ⟨c, more, rfl⟩ := List.exists_cons_of_ne_nil delimiters.1
  exact delimiters.2 c List.mem_cons_self

section Seam

variable {keyword : Text} (isKeyword : IsKeyword keyword) {first rest : Text}

include isKeyword

theorem cutKeyword?_unopened (starts : rest.head?.all isDelimiter = true) (opened : Bool) :
    cutKeyword? keyword opened rest = cutKeyword? keyword true rest := by
  cases rest with
  | nil => rfl
  | cons c rest =>
    have delimits : isDelimiter c = true := by simpa using starts
    have fresh := startsWithKeyword_of_not_isAlpha isKeyword (isAlpha_of_isDelimiter delimits) rest
    rw [cutKeyword?, cutKeyword?, fresh, Bool.and_false, Bool.and_false]

theorem pieces_unopened (starts : rest.head?.all isDelimiter = true) (opened : Bool) :
    pieces keyword opened rest = pieces keyword true rest := by
  rw [pieces_eq _ _ _ isKeyword.nonempty, pieces_eq _ _ _ isKeyword.nonempty,
    cutKeyword?_unopened isKeyword starts]

theorem cutKeyword?_seam (free : cutKeyword? keyword true first = none)
    (apart : first.getLast?.all isDelimiter = true ∨ rest.head?.all isDelimiter = true) :
    cutKeyword? keyword true (first ++ rest) =
      (cutKeyword? keyword true rest).map fun parts => (first ++ parts.1, parts.2) := by
  rcases apart with ends | starts
  · rcases List.eq_nil_or_concat first with rfl | ⟨front, c, rfl⟩
    · simp
    · have delimits : isDelimiter c = true := by simpa using ends
      have freeFront : cutKeyword? keyword true front = none := by
        rw [List.concat_eq_append, cutKeyword?_append isKeyword delimits] at free
        cases found : cutKeyword? keyword true front with
        | none => rfl
        | some parts =>
          rw [found] at free
          cases free
      rw [List.concat_eq_append, List.append_assoc, List.singleton_append,
        cutKeyword?_append isKeyword delimits, freeFront]
      simp
  · cases rest with
    | nil =>
      rw [List.append_nil, free]
      rfl
    | cons c rest =>
      have delimits : isDelimiter c = true := by simpa using starts
      have step := cutKeyword?_append isKeyword delimits true [] rest
      rw [List.nil_append] at step
      rw [cutKeyword?_append isKeyword delimits, free, step]
      simp [cutKeyword?, Function.comp_def]

theorem cutKeyword?_delimiting {gap : Text} (delimiting : gap.Delimiting) :
    cutKeyword? keyword true gap = none :=
  cutKeyword?_of_not_isAlpha isKeyword
    (fun c member => isAlpha_of_isDelimiter (delimiting c member)) true

theorem cutKeyword?_around {lead text tail : Text} (leading : lead.Delimiting)
    (trailing : tail.Delimiting) (free : cutKeyword? keyword true text = none) :
    cutKeyword? keyword true (lead ++ text ++ tail) = none := by
  rw [List.append_assoc, cutKeyword?_seam isKeyword (cutKeyword?_delimiting isKeyword leading)
    (.inl leading.getLast?), cutKeyword?_seam isKeyword free (.inr trailing.head?),
    cutKeyword?_delimiting isKeyword trailing]
  rfl

end Seam

def IsReserved (name : Text) : Prop :=
  lower name ∈ [['a', 'n', 'd'], ['w', 'h', 'e', 'n'], ['e', 'l', 's', 'e'], ['n', 'o', 't']]

instance (name : Text) : Decidable name.IsReserved :=
  inferInstanceAs (Decidable (_ ∈ _))

end Text

inductive ConditionItem where
  | clause (form : ClauseForm)
  | negated (name : Text)
  deriving DecidableEq, Repr

namespace ConditionItem

def name : ConditionItem → Text
  | .clause form => form.name
  | .negated name => name

def demand (field : Field) : ConditionItem → Demand
  | .clause form => form.demand field
  | .negated _ => .literal ⟨field.start, true⟩

inductive Written : Text → ConditionItem → Prop
  | clause {text : Text} {form : ClauseForm} : form.Written text → Written text (.clause form)
  | marked {gap name : Text} : gap.Gap → Text.isIdentifier name = true →
      Written ('!' :: gap ++ name) (.clause (.level name true))
  | negated {word gap name : Text} : word.IsNot → gap.Gap → Text.isIdentifier name = true →
      Written (word ++ gap ++ name) (.negated name)

variable {text : Text} {item : ConditionItem}

theorem Written.keyword_free (written : item.Written text) {keyword : Text}
    (isKeyword : Text.IsKeyword keyword) (notNot : Text.lower keyword ≠ ['n', 'o', 't'])
    (other : Text.lower item.name ≠ Text.lower keyword) :
    Text.cutKeyword? keyword true text = none := by
  cases written with
  | clause written =>
    rcases Formula.keyword_of_clause written isKeyword with free | ⟨named, -⟩
    · exact free
    · exact absurd named other
  | @marked gap name spaced identifier =>
    have mark : Text.lower ['!'] ≠ Text.lower keyword := by
      intro same
      have letter := isKeyword.isAlpha_of_spelled same '!' List.mem_cons_self
      cases letter
    have lone := Text.cutKeyword?_lone isKeyword (Text.ne_nil_of_isIdentifier identifier)
      (Text.isDelimiter_of_isIdentifier identifier) other
    have step := Text.cutKeyword?_other isKeyword spaced.delimiters (List.cons_ne_nil '!' [])
      (by decide) mark name
    rw [lone] at step
    exact step
  | @negated word gap name isNot spaced identifier =>
    have lone := Text.cutKeyword?_lone isKeyword (Text.ne_nil_of_isIdentifier identifier)
      (Text.isDelimiter_of_isIdentifier identifier) other
    rw [Text.cutKeyword?_other isKeyword spaced.delimiters
      (Text.isKeyword_not.ne_nil_of_spelled isNot) (Text.isKeyword_not.dark_of_spelled isNot)
      (by rw [isNot]; exact notNot.symm), lone]
    rfl

theorem Written.isIdentifier (written : item.Written text) :
    Text.isIdentifier item.name = true := by
  cases written with
  | clause written => exact written.isIdentifier
  | marked _ identifier => exact identifier
  | negated _ _ identifier => exact identifier

theorem Written.name_subset (written : item.Written text) : item.name ⊆ text := by
  cases written with
  | clause written =>
    obtain ⟨head, rest, rfl, shape, -⟩ := written.split
    intro c member
    rcases shape with rfl | rfl <;> simp [show c ∈ ClauseForm.name _ from member]
  | marked => simp [name, ClauseForm.name]
  | negated => simp [name]

theorem Written.exists_startsName (written : item.Written text) :
    ∃ c ∈ text, Text.startsName c = true := by
  have identifier := written.isIdentifier
  have inside := written.name_subset
  cases named : item.name with
  | nil =>
    rw [named] at identifier
    cases identifier
  | cons c rest =>
    rw [named] at identifier inside
    simp only [Text.isIdentifier, Bool.and_eq_true] at identifier
    exact ⟨c, inside List.mem_cons_self, identifier.1⟩

end ConditionItem

namespace Condition

/-- Items with `and` between neighbours. The parentheses around them need not match. -/
inductive Joined : Text → List ConditionItem → Prop
  | last {lead text tail : Text} {item : ConditionItem} : lead.Delimiting → item.Written text →
      tail.Delimiting → Joined (lead ++ text ++ tail) [item]
  | and {lead text gap word rest : Text} {item : ConditionItem} {items : List ConditionItem} :
      lead.Delimiting → item.Written text → gap.Delimiters → Text.lower word = ['a', 'n', 'd'] →
      rest.head?.all Text.isDelimiter = true → Joined rest items →
      Joined (lead ++ text ++ gap ++ (word ++ rest)) (item :: items)

inductive Opening : Text → Text → Prop
  | bare {text : Text} : Opening [] text
  | level {lead gap word text : Text} : lead.Delimiting → gap.Delimiters →
      Text.lower word = ['w', 'h', 'e', 'n'] → text.head?.all Text.isDelimiter = true →
      Opening (lead ++ levelText true ++ gap ++ word) text

inductive Closing : Text → Text → Prop
  | bare {text : Text} : Closing text []
  | level {text word gap tail : Text} : text.getLast?.all Text.isDelimiter = true →
      Text.lower word = ['e', 'l', 's', 'e'] → gap.Delimiters → tail.Delimiting →
      Closing text (word ++ (gap ++ levelText false ++ tail))

def Writes (rhs : Text) (items : List ConditionItem) : Prop :=
  ∃ opening text closing, rhs = opening ++ (text ++ closing) ∧ Opening opening text ∧
    Joined text items ∧ Closing text closing

def Carries (piece : Text) (item : ConditionItem) : Prop :=
  ∃ lead text tail, piece = lead ++ text ++ tail ∧ lead.Delimiting ∧ item.Written text ∧
    tail.Delimiting

section Joined

variable {text : Text} {items : List ConditionItem} (joined : Joined text items)

include joined

theorem Joined.keyword_free {keyword : Text} (isKeyword : Text.IsKeyword keyword)
    (notNot : Text.lower keyword ≠ ['n', 'o', 't']) (notAnd : Text.lower keyword ≠ ['a', 'n', 'd'])
    (other : ∀ item ∈ items, Text.lower item.name ≠ Text.lower keyword) :
    Text.cutKeyword? keyword true text = none := by
  induction joined with
  | last leading written trailing =>
    rw [List.forall_mem_singleton] at other
    exact Text.cutKeyword?_around isKeyword leading trailing
      (written.keyword_free isKeyword notNot other)
  | @and lead text gap word rest item items leading written delimiters spelled starts _ ih =>
    rw [List.forall_mem_cons] at other
    have first := Text.cutKeyword?_around isKeyword leading delimiters.2
      (written.keyword_free isKeyword notNot other.1)
    have lone : Text.cutKeyword? keyword true word = none :=
      Text.cutKeyword?_lone isKeyword (Text.isKeyword_and.ne_nil_of_spelled spelled)
        (Text.isKeyword_and.dark_of_spelled spelled) (by rw [spelled]; exact notAnd.symm)
    rw [Text.cutKeyword?_seam isKeyword first (.inl (delimiters.getLast? _)),
      Text.cutKeyword?_seam isKeyword lone (.inr starts), ih other.2]
    rfl

theorem Joined.pieces_carry
    (other : ∀ item ∈ items, Text.lower item.name ≠ Text.lower ['a', 'n', 'd']) :
    List.Forall₂ Carries (Text.pieces ['a', 'n', 'd'] true text) items := by
  induction joined with
  | last leading written trailing =>
    rw [List.forall_mem_singleton] at other
    rw [Text.pieces_eq _ _ _ Text.isKeyword_and.nonempty,
      Text.cutKeyword?_around Text.isKeyword_and leading trailing
        (written.keyword_free Text.isKeyword_and (by decide) other)]
    exact .cons ⟨_, _, _, rfl, leading, written, trailing⟩ .nil
  | @and lead text gap word rest item items leading written delimiters spelled starts _ ih =>
    rw [List.forall_mem_cons] at other
    have first := Text.cutKeyword?_around Text.isKeyword_and leading delimiters.2
      (written.keyword_free Text.isKeyword_and (by decide) other.1)
    rw [Text.pieces_eq _ _ _ Text.isKeyword_and.nonempty,
      Text.cutKeyword?_seam Text.isKeyword_and first (.inl (delimiters.getLast? _)),
      Text.cutKeyword?_keyword Text.isKeyword_and spelled starts]
    simp only [Option.map_some, List.append_nil]
    rw [Text.pieces_unopened Text.isKeyword_and starts]
    exact .cons ⟨lead, text, gap, rfl, leading, written, delimiters.2⟩ (ih other.2)

theorem Joined.exists_startsName : ∃ c ∈ text, Text.startsName c = true := by
  cases joined with
  | last _ written _ =>
    obtain ⟨c, member, starts⟩ := written.exists_startsName
    exact ⟨c, by simp [member], starts⟩
  | and _ written _ _ _ _ =>
    obtain ⟨c, member, starts⟩ := written.exists_startsName
    exact ⟨c, by simp [member], starts⟩

end Joined

section Extent

variable {opening text closing : Text} {items : List ConditionItem}

theorem isUnconditional_of_startsName {rhs : Text} {c : Char} (member : c ∈ rhs)
    (starts : Text.startsName c = true) : isUnconditional rhs = false := by
  have inside : c ∈ Text.trim rhs := Text.mem_trim member
    (Text.isBlank_of_continuesName (Text.continuesName_of_startsName starts))
  have named : ∀ level, Text.trim rhs ≠ levelText level := by
    intro level same
    rw [same] at inside
    cases level <;> simp only [levelText, List.mem_cons, List.not_mem_nil, or_false] at inside <;>
      rcases inside with rfl | rfl | rfl <;> cases starts
  have low : (Text.trim rhs == ['\'', '0', '\'']) = false := beq_eq_false_iff_ne.mpr (named false)
  have high : (Text.trim rhs == ['\'', '1', '\'']) = false := beq_eq_false_iff_ne.mpr (named true)
  rw [isUnconditional, low, high]
  simp

theorem cut_levelText {keyword lead tail : Text} (isKeyword : Text.IsKeyword keyword) (level : Bool)
    (leading : lead.Delimiting) (trailing : tail.Delimiting) :
    Text.cutKeyword? keyword true (lead ++ levelText level ++ tail) = none := by
  apply Text.cutKeyword?_around isKeyword leading trailing
  exact Text.cutKeyword?_of_not_isAlpha isKeyword (by cases level <;> decide) true

theorem Closing.cut {keyword : Text} (isKeyword : Text.IsKeyword keyword)
    (closes : Closing text closing) (free : Text.cutKeyword? keyword true text = none) :
    Text.cutKeyword? keyword true (text ++ closing) =
      (Text.cutKeyword? keyword true closing).map fun parts => (text ++ parts.1, parts.2) := by
  cases closes with
  | bare =>
    rw [List.append_nil, free]
    rfl
  | level ends => exact Text.cutKeyword?_seam isKeyword free (.inl ends)

theorem Closing.when_free (closes : Closing text closing) :
    Text.cutKeyword? ['w', 'h', 'e', 'n'] true closing = none := by
  cases closes with
  | bare => rfl
  | @level word gap tail _ spelled delimiters trailing =>
    have lone : Text.cutKeyword? ['w', 'h', 'e', 'n'] true word = none :=
      Text.cutKeyword?_lone Text.isKeyword_when (Text.isKeyword_else.ne_nil_of_spelled spelled)
        (Text.isKeyword_else.dark_of_spelled spelled) (by rw [spelled]; decide)
    have starts : (gap ++ levelText false ++ tail).head?.all Text.isDelimiter = true := by
      rw [List.append_assoc]
      exact delimiters.head? _
    rw [Text.cutKeyword?_seam Text.isKeyword_when lone (.inr starts),
      cut_levelText Text.isKeyword_when false delimiters.2 trailing]
    rfl

theorem afterWhen_of_opening (opens : Opening opening text) (nonempty : text ≠ [])
    (free : Text.cutKeyword? ['w', 'h', 'e', 'n'] true (text ++ closing) = none) :
    ∃ offset opened, afterWhen (opening ++ (text ++ closing)) = ⟨offset, opened, text ++ closing⟩ ∧
      (opened = true ∨ text.head?.all Text.isDelimiter = true) := by
  cases opens with
  | bare =>
    refine ⟨0, true, ?_, .inl rfl⟩
    rw [List.nil_append, afterWhen, free]
  | @level lead gap word _ leading delimiters spelled starts =>
    have first := cut_levelText Text.isKeyword_when true leading delimiters.2
    have head : (text ++ closing).head?.all Text.isDelimiter = true := by
      obtain ⟨c, rest, rfl⟩ := List.exists_cons_of_ne_nil nonempty
      exact starts
    refine ⟨Text.byteLength (lead ++ levelText true ++ gap ++ []) + 4, false, ?_, .inr starts⟩
    rw [List.append_assoc, afterWhen,
      Text.cutKeyword?_seam Text.isKeyword_when first (.inl (delimiters.getLast? _)),
      Text.cutKeyword?_keyword Text.isKeyword_when spelled head]
    rfl

theorem extent_of_writes (opens : Opening opening text) (closes : Closing text closing)
    (nonempty : text ≠ []) (whenFree : Text.cutKeyword? ['w', 'h', 'e', 'n'] true text = none)
    (elseFree : Text.cutKeyword? ['e', 'l', 's', 'e'] true text = none) :
    ∃ offset opened, extent (opening ++ (text ++ closing)) = ⟨offset, opened, text⟩ ∧
      (opened = true ∨ text.head?.all Text.isDelimiter = true) := by
  have whenCut := closes.cut Text.isKeyword_when whenFree
  rw [closes.when_free] at whenCut
  obtain ⟨offset, opened, start, head⟩ := afterWhen_of_opening opens nonempty whenCut
  refine ⟨offset, opened, ?_, head⟩
  have cut : Text.cutKeyword? ['e', 'l', 's', 'e'] opened (text ++ closing) =
      (Text.cutKeyword? ['e', 'l', 's', 'e'] true closing).map fun parts =>
        (text ++ parts.1, parts.2) := by
    rw [← closes.cut Text.isKeyword_else elseFree]
    rcases head with rfl | starts
    · rfl
    · apply Text.cutKeyword?_unopened Text.isKeyword_else
      obtain ⟨c, rest, rfl⟩ := List.exists_cons_of_ne_nil nonempty
      exact starts
  rw [extent, start]
  simp only [cut]
  cases closes with
  | bare => simp [Text.cutKeyword?]
  | level ends spelled delimiters trailing =>
    rw [Text.cutKeyword?_keyword Text.isKeyword_else spelled]
    · simp
    · rw [List.append_assoc]
      exact delimiters.head? _

end Extent

end Condition

theorem ClauseSpelling.ofPiece_between {lead tail : Text} (leading : lead.bare.AllBlank)
    (trailing : tail.bare.AllBlank) (text : Text) : ofPiece (lead ++ text ++ tail) = ofPiece text := by
  rw [ofPiece_bare, ofPiece_bare, Text.bare_append, Text.bare_append, Text.trim_append_blank trailing,
    Text.trim_blank_append leading]

namespace ConditionItem

variable {text : Text} {item : ConditionItem}

theorem ofPiece_around {lead tail : Text} (leading : lead.Delimiting) (trailing : tail.Delimiting)
    (text : Text) :
    ClauseSpelling.ofPiece (lead ++ text ++ tail) = ClauseSpelling.ofPiece text :=
  ClauseSpelling.ofPiece_between leading.allBlank_bare trailing.allBlank_bare text

theorem ofPiece_pair {word gap name : Text} (nonempty : word ≠ [])
    (dark : ∀ c ∈ word, Text.isDelimiter c = false ∧ Text.isBlank c = false) (spaced : gap.Gap)
    (identifier : Text.isIdentifier name = true) :
    ClauseSpelling.ofPiece (word ++ gap ++ name) =
      ClauseSpelling.ofWords (word :: Text.words name) := by
  have plainly : Text.PlainlySpaced (word ++ gap ++ name) :=
    ((Text.plainlySpaced_of_dark fun c member => (dark c member).2).append
      spaced.2.plainlySpaced).append
      (Text.plainlySpaced_of_dark (Text.isBlank_of_isIdentifier identifier))
  have starts : (gap ++ name).head?.all Text.isBlank = true := by
    obtain ⟨c, blanks, rfl⟩ := List.exists_cons_of_ne_nil spaced.1
    exact spaced.2.allBlank c List.mem_cons_self
  rw [ClauseSpelling.ofPiece_eq_ofWords plainly, Text.bare_append, Text.bare_append,
    Text.bare_of_dark fun c member => (dark c member).1, spaced.2.bare_eq,
    Text.bare_of_dark (Text.isDelimiter_of_isIdentifier identifier), List.append_assoc,
    Text.words_dark_append nonempty (fun c member => (dark c member).2) starts,
    Text.words_allBlank_append spaced.2.allBlank]

theorem not_mem_of_written {text : Text} {form : ClauseForm} (written : form.Written text) :
    '<' ∉ text := by
  have inName : ∀ {name : Text}, Text.isIdentifier name = true → '<' ∉ name := fun identifier =>
    Text.not_mem_identifier identifier (by decide)
  have inBlanks : ∀ {blanks : Text}, blanks.PlainBlank → '<' ∉ blanks := by
    intro blanks plain member
    cases plain '<' member
  cases written with
  | bare identifier => exact inName identifier
  | marked identifier => simp [inName identifier]
  | @quoted _ _ _ level identifier lead tail =>
    cases level <;> simp [levelText, inName identifier, inBlanks lead, inBlanks tail]
  | @compared _ _ _ digits comparator identifier lead tail number _ =>
    have inDigits : '<' ∉ digits :=
      (Text.Numeral.of_isNumber number).not_mem (by decide) (by decide)
    cases comparator <;>
      simp [Comparator.symbol, inName identifier, inBlanks lead, inBlanks tail, inDigits]

theorem Written.spelled (written : item.Written text) (named : ¬ item.name.IsNot) :
    ∃ body, '<' ∉ body ∧ ∃ inverted, ClauseSpelling.ofPiece text = ⟨inverted, body⟩ ∧
      (ClauseSpelling.form ⟨inverted, body⟩).name = item.name ∧
      ∀ field, (ClauseSpelling.form ⟨inverted, body⟩).ask? inverted field =
        some (item.demand field) := by
  cases written with
  | @clause _ form written =>
    have plainly : text.PlainlySpaced := (Formula.Written.clause written).plainlySpaced
    refine ⟨Text.compact text, ?_, false, ?_, ?_⟩
    · intro member
      exact not_mem_of_written written (List.mem_of_mem_filter member)
    · rw [ClauseSpelling.ofPiece_eq_ofWords plainly, Formula.bare_of_written written,
        ClauseSpelling.ofWords_written written named]
    · rw [ClauseSpelling.form_compact written]
      exact ⟨rfl, fun field => ClauseForm.ask?_upright field form⟩
  | @marked gap name spaced identifier =>
    refine ⟨'!' :: name, ?_, false, ?_, ?_⟩
    · have fresh : '<' ∉ name := Text.not_mem_identifier identifier (by decide)
      simp [fresh]
    · have pair := ofPiece_pair (List.cons_ne_nil '!' []) (by decide) spaced identifier
      rw [Text.words_of_dark (Text.ne_nil_of_isIdentifier identifier)
        (Text.isBlank_of_isIdentifier identifier)] at pair
      exact pair.trans (by simp [ClauseSpelling.ofWords, Text.IsNot, Text.lower])
    · rw [ClauseSpelling.form_marked identifier]
      exact ⟨rfl, fun field => rfl⟩
  | @negated word gap name isNot spaced identifier =>
    have dark : ∀ c ∈ word, Text.isDelimiter c = false ∧ Text.isBlank c = false := fun c member =>
      ⟨Text.isKeyword_not.dark_of_spelled isNot c member,
        Text.isBlank_of_isAlpha (isNot.isAlpha c member)⟩
    refine ⟨name, Text.not_mem_identifier identifier (by decide), true, ?_, ?_⟩
    · rw [ofPiece_pair (Text.isKeyword_not.ne_nil_of_spelled isNot) dark spaced identifier,
        ClauseSpelling.ofWords_not (.bare identifier) isNot,
        Text.compact_of_dark (Text.isBlank_of_isIdentifier identifier)]
    · rw [ClauseSpelling.form_bare identifier]
      exact ⟨rfl, fun field => rfl⟩

end ConditionItem

namespace Condition

theorem read_of_carries {layout : Layout} {output piece : Text} {span : Span} {item : ConditionItem}
    {field : Field} (carries : Carries piece item) (named : ¬ item.name.IsNot)
    (declared : layout.find? item.name = some field) :
    ∃ clause, Clause.read layout output span piece = .ok clause ∧
      clause.demand = item.demand field := by
  obtain ⟨lead, text, tail, rfl, leading, written, trailing⟩ := carries
  obtain ⟨body, notLess, inverted, spelling, found, asks⟩ := written.spelled named
  refine ⟨⟨item.demand field, ClauseSpelling.text ⟨inverted, body⟩, span⟩, ?_, rfl⟩
  rw [Clause.read_eq_ok_iff, ConditionItem.ofPiece_around leading trailing, spelling]
  refine ⟨?_, notLess, field, _, by rw [found]; exact declared, asks field, rfl⟩
  rintro rfl
  have identifier := written.isIdentifier
  rw [← found] at identifier
  cases identifier

/-- One clause for each item, which asks the item's demand of the field with its name. -/
def Matches (layout : Layout) (items : List ConditionItem) (clauses : List Clause) : Prop :=
  List.Forall₂ (fun item clause => ∃ field, layout.find? (ConditionItem.name item) = some field ∧
    Clause.demand clause = item.demand field) items clauses

theorem readPieces_of_carries {layout : Layout} {output : Text} {pieces : List Text}
    {items : List ConditionItem} (carries : List.Forall₂ Carries pieces items)
    (named : ∀ item ∈ items, ¬ item.name.IsNot)
    (declared : ∀ item ∈ items, (layout.find? item.name).isSome = true) (offset : Nat) :
    ∃ clauses, readPieces layout output offset pieces = .ok clauses ∧
      Matches layout items clauses := by
  induction carries generalizing offset with
  | nil => exact ⟨[], rfl, .nil⟩
  | @cons piece item pieces items first _ ih =>
    rw [List.forall_mem_cons] at named declared
    obtain ⟨field, found⟩ := Option.isSome_iff_exists.mp declared.1
    obtain ⟨clause, read, asked⟩ := read_of_carries first named.1 found
    obtain ⟨clauses, others, each⟩ := ih named.2 declared.2 (offset + Text.byteLength piece + 3)
    refine ⟨clause :: clauses, ?_, .cons ⟨field, found, asked⟩ each⟩
    rw [readPieces, read, others]
    rfl

/-- A condition that is written with items over declared names is read as these items, whatever the
blanks and parentheses. -/
theorem written_items_read_back {layout : Layout} {statement : Statement}
    {items : List ConditionItem} (writes : Writes statement.rhs items)
    (unreserved : ∀ item ∈ items, ¬ item.name.IsReserved)
    (declared : ∀ item ∈ items, (layout.find? item.name).isSome = true) :
    ∃ clauses, Condition.read layout statement = .ok clauses ∧ Matches layout items clauses := by
  obtain ⟨opening, text, closing, rhs, opens, joined, closes⟩ := writes
  have other : ∀ {keyword : Text}, Text.lower keyword ∈
      [['a', 'n', 'd'], ['w', 'h', 'e', 'n'], ['e', 'l', 's', 'e'], ['n', 'o', 't']] →
      ∀ item ∈ items, Text.lower item.name ≠ Text.lower keyword := by
    intro keyword reserved item listed same
    exact unreserved item listed (by rw [Text.IsReserved, same]; exact reserved)
  obtain ⟨c, member, starts⟩ := joined.exists_startsName
  obtain ⟨offset, opened, reached, head⟩ := extent_of_writes opens closes
    (List.ne_nil_of_mem member)
    (joined.keyword_free Text.isKeyword_when (by decide) (by decide) (other (by decide)))
    (joined.keyword_free Text.isKeyword_else (by decide) (by decide) (other (by decide)))
  have pieces :
      Text.pieces ['a', 'n', 'd'] opened text = Text.pieces ['a', 'n', 'd'] true text := by
    rcases head with rfl | delimited
    · rfl
    · exact Text.pieces_unopened Text.isKeyword_and delimited opened
  have conditional : isUnconditional statement.rhs = false :=
    isUnconditional_of_startsName (by rw [rhs]; simp [member]) starts
  rw [Condition.read, conditional, rhs, reached]
  simp only [pieces]
  exact readPieces_of_carries (joined.pieces_carry (other (by decide)))
    (other (by decide : Text.lower ['n', 'o', 't'] ∈ _)) declared _

def packedRhs : Text :=
  "'1' WHEN(f > 02)and\tNot  a)and(! a)Else '0'".toList

def packedItems : List ConditionItem :=
  [.clause (.compare .above ['f'] 2), .negated ['a'], .clause (.level ['a'] true)]

theorem packedRhs_read_back :
    Writes packedRhs packedItems ∧
      ∃ clauses, Condition.read bitAndPair (sampleStatement packedRhs) = .ok clauses ∧
        Matches bitAndPair packedItems clauses := by
  have above : ConditionItem.Written "f > 02".toList (.clause (.compare .above ['f'] 2)) :=
    .clause (@ClauseForm.Written.compared ['f'] [' '] [' '] "02".toList .above (by decide)
      gap_space.2 gap_space.2 (by decide) (by decide))
  have negated : ConditionItem.Written "Not  a".toList (.negated ['a']) :=
    @ConditionItem.Written.negated "Not".toList [' ', ' '] ['a'] (by decide)
      ⟨by decide, by simp [Text.PlainBlank, Text.isPlainBlank]⟩ (by decide)
  have marked : ConditionItem.Written "! a".toList (.clause (.level ['a'] true)) :=
    @ConditionItem.Written.marked [' '] ['a'] gap_space (by decide)
  have close : Text.Delimiters [')'] := ⟨by decide, by decide⟩
  have third : Joined "(! a)".toList [.clause (.level ['a'] true)] :=
    @Joined.last ['('] _ [')'] _ (by decide) marked (by decide)
  have second : Joined "\tNot  a)and(! a)".toList [.negated ['a'], .clause (.level ['a'] true)] :=
    @Joined.and ['\t'] _ [')'] "and".toList _ _ _ (by decide) negated close (by decide) (by decide)
      third
  have first : Joined "(f > 02)and\tNot  a)and(! a)".toList packedItems :=
    @Joined.and ['('] _ [')'] "and".toList _ _ _ (by decide) above close (by decide) (by decide)
      second
  have writes : Writes packedRhs packedItems :=
    ⟨"'1' WHEN".toList, _, "Else '0'".toList, by decide,
      @Opening.level [] [' '] "WHEN".toList _ (by decide) gap_space.delimiters (by decide)
        (by decide),
      first,
      @Closing.level _ "Else".toList [' '] [] (by decide) (by decide) gap_space.delimiters
        (by decide)⟩
  exact ⟨writes, written_items_read_back writes (by decide) (by decide)⟩

end Condition

end TriggerLogic
