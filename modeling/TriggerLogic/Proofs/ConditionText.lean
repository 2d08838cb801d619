import TriggerLogic.Proofs.PieceReading

namespace TriggerLogic

inductive Formula where
  | clause (form : ClauseForm)
  | not (inner : Formula)
  | and (left right : Formula)
  deriving DecidableEq, Repr

namespace Formula

/-- The texts of a formula, given whether it is to stand behind a `not`: there an `and` needs
parentheses around it. -/
inductive Written : Bool → Text → Formula → Prop
  | clause {text : Text} {form : ClauseForm} : form.Written text → Written true text (.clause form)
  | not {word gap text : Text} {inner : Formula} : word.IsNot → gap.Gap → Written true text inner →
      Written true (word ++ gap ++ text) (.not inner)
  | group {lead text tail : Text} {inner : Formula} : lead.PlainBlank → tail.PlainBlank →
      Written false text inner → Written true ('(' :: lead ++ text ++ (tail ++ [')'])) inner
  | and {word lead tail first second : Text} {left right : Formula} :
      Text.lower word = ['a', 'n', 'd'] → lead.Gap → tail.Gap →
      Written false first left → Written true second right →
      Written false (first ++ lead ++ (word ++ tail ++ second)) (.and left right)
  | alone {text : Text} {formula : Formula} : Written true text formula → Written false text formula

def Holds (layout : Layout) (input : List Bool) : Formula → Prop
  | .clause form => form.Holds layout input
  | .not inner => ¬ inner.Holds layout input
  | .and left right => left.Holds layout input ∧ right.Holds layout input

instance decidableHolds (layout : Layout) (input : List Bool) :
    (formula : Formula) → Decidable (formula.Holds layout input)
  | .clause form => inferInstanceAs (Decidable (form.Holds layout input))
  | .not inner =>
    have := decidableHolds layout input inner
    inferInstanceAs (Decidable (¬ inner.Holds layout input))
  | .and left right =>
    have := decidableHolds layout input left
    have := decidableHolds layout input right
    inferInstanceAs (Decidable (left.Holds layout input ∧ right.Holds layout input))

def names : Formula → List Text
  | .clause form => [form.name]
  | .not inner => inner.names
  | .and left right => left.names ++ right.names

/-- The clauses between the `and`s, each with the number of `not`s right before it. -/
def conjuncts : Formula → List (Nat × ClauseForm)
  | .clause form => [(0, form)]
  | .not inner => inner.conjuncts.modifyHead fun item => (item.1 + 1, item.2)
  | .and left right => left.conjuncts ++ right.conjuncts

def AndFree : Formula → Prop
  | .clause _ => True
  | .not inner => inner.AndFree
  | .and _ _ => False

def Flat : Formula → Prop
  | .clause _ => True
  | .not inner => inner.AndFree
  | .and left right => left.Flat ∧ right.Flat

def NotsApart (formula : Formula) : Prop :=
  ∀ item ∈ formula.conjuncts, item.1 ≤ 1

instance (formula : Formula) : Decidable formula.NotsApart :=
  inferInstanceAs (Decidable (∀ item ∈ formula.conjuncts, _))

def Reserved (formula : Formula) : Prop :=
  ∃ name ∈ formula.names, Text.lower name ∈ [['a', 'n', 'd'], ['e', 'l', 's', 'e'], ['n', 'o', 't']]

instance (formula : Formula) : Decidable formula.Reserved :=
  inferInstanceAs (Decidable (∃ name ∈ formula.names, _))

theorem holds_of_andFree {formula : Formula} (free : formula.AndFree) (layout : Layout)
    (input : List Bool) :
    ∃ count form, formula.conjuncts = [(count, form)] ∧
      (formula.Holds layout input ↔ Negated count (form.Holds layout input)) := by
  induction formula with
  | clause form => exact ⟨0, form, rfl, Iff.rfl⟩
  | not inner ih =>
    obtain ⟨count, form, single, same⟩ := ih free
    exact ⟨count + 1, form, by rw [conjuncts, single]; rfl, not_congr same⟩
  | and left right _ _ => cases free

theorem holds_iff_conjuncts {formula : Formula} (flat : formula.Flat) (layout : Layout)
    (input : List Bool) :
    formula.Holds layout input ↔
      ∀ item ∈ formula.conjuncts, Negated item.1 (item.2.Holds layout input) := by
  induction formula with
  | clause form => simp [Holds, conjuncts, Negated]
  | not inner _ =>
    obtain ⟨count, form, single, same⟩ := holds_of_andFree flat layout input
    rw [Holds, conjuncts, single, same]
    simp [Negated]
  | and left right ihLeft ihRight =>
    rw [Holds, conjuncts, List.forall_mem_append, ihLeft flat.1, ihRight flat.2]

theorem name_mem_of_conjunct {formula : Formula} {item : Nat × ClauseForm}
    (listed : item ∈ formula.conjuncts) : item.2.name ∈ formula.names := by
  induction formula generalizing item with
  | clause form =>
    rw [List.mem_singleton.mp listed]
    exact List.mem_singleton_self _
  | not inner ih =>
    rw [conjuncts] at listed
    cases items : inner.conjuncts with
    | nil =>
      rw [items] at listed
      cases listed
    | cons first more =>
      rw [items] at ih listed
      rcases List.mem_cons.mp listed with rfl | later
      · exact @ih first List.mem_cons_self
      · exact ih (List.mem_cons_of_mem _ later)
  | and left right ihLeft ihRight =>
    rcases List.mem_append.mp listed with inLeft | inRight
    · exact List.mem_append_left _ (ihLeft inLeft)
    · exact List.mem_append_right _ (ihRight inRight)

end Formula

namespace Text

theorem bare_append (first second : Text) : bare (first ++ second) = bare first ++ bare second :=
  List.filter_append ..

theorem bare_of_dark {text : Text} (dark : ∀ c ∈ text, isDelimiter c = false) : bare text = text := by
  rw [bare, List.filter_eq_self]
  intro c member
  have other := dark c member
  simp only [isDelimiter, Bool.or_eq_false_iff] at other
  simp [bne, other.1.2, other.2]

theorem PlainBlank.bare_eq {text : Text} (plain : text.PlainBlank) : bare text = text := by
  rw [bare, List.filter_eq_self]
  intro c member
  have blank := plain c member
  simp only [isPlainBlank, Bool.or_eq_true, beq_iff_eq] at blank
  rcases blank with (((rfl | rfl) | rfl) | rfl) | rfl <;> decide

theorem PlainBlank.opens {lead : Text} (plain : lead.PlainBlank) : Delimiters ('(' :: lead) :=
  ⟨List.cons_ne_nil _ _, List.forall_mem_cons.mpr ⟨rfl, plain.delimits⟩⟩

theorem PlainBlank.closes {tail : Text} (plain : tail.PlainBlank) : Delimiters (tail ++ [')']) :=
  ⟨by simp, List.forall_mem_append.mpr ⟨plain.delimits, by simp [isDelimiter]⟩⟩

end Text

namespace Clause

def Leads (count : Nat) (lead : Text) : Prop :=
  ∃ nots, nots.length = count ∧ (∀ word ∈ nots, Text.IsNot word) ∧
    ∀ piece, Text.words (Text.bare (lead ++ piece)) = nots ++ Text.words piece.bare

def Trails (tail : Text) : Prop :=
  ∀ piece, Text.words (Text.bare (piece ++ tail)) = Text.words piece.bare

theorem leads_blank {lead : Text} (plain : lead.PlainBlank) : Leads 0 lead := by
  refine ⟨[], rfl, by simp, ?_⟩
  intro piece
  rw [Text.bare_append, plain.bare_eq, Text.words_allBlank_append plain.allBlank, List.nil_append]

theorem leads_open {lead : Text} (plain : lead.PlainBlank) : Leads 0 ('(' :: lead) := by
  obtain ⟨nots, none, areNots, adds⟩ := leads_blank plain
  exact ⟨nots, none, areNots, fun piece => adds piece⟩

theorem leads_not {word gap : Text} (isNot : word.IsNot) (spaced : gap.Gap) :
    Leads 1 (word ++ gap) := by
  refine ⟨[word], rfl, by simpa using isNot, ?_⟩
  intro piece
  obtain ⟨c, blanks, rfl⟩ := List.exists_cons_of_ne_nil spaced.1
  have blank : Text.isBlank c = true := spaced.2.allBlank c List.mem_cons_self
  have nonempty : word ≠ [] := Text.isKeyword_not.ne_nil_of_spelled isNot
  have dark : ∀ d ∈ word, Text.isBlank d = false := fun d member =>
    Text.isBlank_of_isAlpha (isNot.isAlpha d member)
  rw [Text.bare_append, Text.bare_append, spaced.2.bare_eq,
    Text.bare_of_dark (Text.isKeyword_not.dark_of_spelled isNot), List.append_assoc,
    Text.words_dark_append nonempty dark (by simpa using blank), Text.words_allBlank_append spaced.2.allBlank]
  rfl

theorem trails_blank {tail : Text} (plain : tail.PlainBlank) : Trails tail := by
  intro piece
  rw [Text.bare_append, plain.bare_eq, Text.words_append_allBlank plain.allBlank]

theorem trails_close {tail : Text} (plain : tail.PlainBlank) : Trails (tail ++ [')']) := by
  intro piece
  have closed : Text.bare (piece ++ (tail ++ [')'])) = Text.bare (piece ++ tail) := by
    rw [← List.append_assoc, Text.bare_append]
    exact List.append_nil _
  rw [closed, trails_blank plain piece]

theorem void_nil : Void [] := by
  simp [Void, Text.bare, Text.words]

theorem Void.lead {count : Nat} {lead piece : Text} (leads : Leads count lead) (void : Void piece) :
    Void (lead ++ piece) := by
  obtain ⟨nots, -, areNots, adds⟩ := leads
  rw [Void, adds, List.forall_mem_append]
  exact ⟨areNots, void⟩

theorem Void.trail {tail piece : Text} (trails : Trails tail) (void : Void piece) :
    Void (piece ++ tail) := by
  rw [Void, trails piece]
  exact void

theorem Spelled.lead {count : Nat} {lead piece : Text} {item : Nat × ClauseForm}
    (leads : Leads count lead) (spelled : Spelled piece item) :
    Spelled (lead ++ piece) (item.1 + count, item.2) := by
  obtain ⟨before, counted, areBefore, adds⟩ := leads
  obtain ⟨nots, text, words, number, areNots, written⟩ := spelled
  refine ⟨before ++ nots, text, by rw [adds, words, List.append_assoc], ?_, ?_, written⟩
  · rw [List.length_append, counted, number, Nat.add_comm]
  · exact List.forall_mem_append.mpr ⟨areBefore, areNots⟩

theorem Spelled.trail {tail piece : Text} {item : Nat × ClauseForm} (trails : Trails tail)
    (spelled : Spelled piece item) : Spelled (piece ++ tail) item := by
  obtain ⟨nots, text, words, facts⟩ := spelled
  exact ⟨nots, text, by rw [trails piece, words], facts⟩

theorem exists_void_modifyHead {count : Nat} {lead : Text} {pieces : List Text}
    (leads : Leads count lead) (void : ∃ piece ∈ pieces, Void piece) :
    ∃ piece ∈ pieces.modifyHead (lead ++ ·), Void piece := by
  obtain ⟨piece, listed, empty⟩ := void
  cases pieces with
  | nil => cases listed
  | cons first more =>
    rcases List.mem_cons.mp listed with rfl | later
    · exact ⟨lead ++ piece, List.mem_cons_self, empty.lead leads⟩
    · exact ⟨piece, List.mem_cons_of_mem _ later, empty⟩

theorem exists_void_seam {tail : Text} {pieces : List Text} (trails : Trails tail)
    (void : ∃ piece ∈ pieces, Void piece) : ∃ piece ∈ Text.seam pieces [tail], Void piece := by
  obtain ⟨piece, listed, empty⟩ := void
  induction pieces with
  | nil => cases listed
  | cons first more ih =>
    cases more with
    | nil =>
      rw [List.mem_singleton] at listed
      subst listed
      exact ⟨piece ++ tail, List.mem_cons_self, empty.trail trails⟩
    | cons next more =>
      rw [Text.seam_cons (List.cons_ne_nil _ _)]
      rcases List.mem_cons.mp listed with rfl | later
      · exact ⟨piece, List.mem_cons_self, empty⟩
      · obtain ⟨found, inside, facts⟩ := ih later
        exact ⟨found, List.mem_cons_of_mem _ inside, facts⟩

end Clause

namespace Formula

/-- The pieces of a text spell conjuncts, or else one of the names was taken for a keyword, which
leaves a piece without clause. -/
def PiecesSpell (reserved : Prop) (pieces : List Text) (items : List (Nat × ClauseForm)) : Prop :=
  List.Forall₂ Clause.Spelled pieces items ∨ reserved ∧ ∃ piece ∈ pieces, Clause.Void piece

section PiecesSpell

variable {reserved : Prop} {pieces : List Text} {items : List (Nat × ClauseForm)}

theorem PiecesSpell.lead {count : Nat} {lead : Text} (leads : Clause.Leads count lead)
    (spell : PiecesSpell reserved pieces items) :
    PiecesSpell reserved (pieces.modifyHead (lead ++ ·))
      (items.modifyHead fun item => (item.1 + count, item.2)) := by
  rcases spell with each | ⟨keyword, void⟩
  · left
    cases each with
    | nil => exact .nil
    | cons first more => exact .cons (first.lead leads) more
  · exact .inr ⟨keyword, Clause.exists_void_modifyHead leads void⟩

theorem PiecesSpell.lead_zero {lead : Text} (leads : Clause.Leads 0 lead)
    (spell : PiecesSpell reserved pieces items) :
    PiecesSpell reserved (pieces.modifyHead (lead ++ ·)) items := by
  have led := spell.lead leads
  have same : (items.modifyHead fun item => (item.1 + 0, item.2)) = items := by cases items <;> rfl
  rw [same] at led
  exact led

theorem PiecesSpell.trail {tail : Text} (trails : Clause.Trails tail) (nonempty : pieces ≠ [])
    (spell : PiecesSpell reserved pieces items) :
    PiecesSpell reserved (Text.seam pieces [tail]) items := by
  rcases spell with each | ⟨keyword, void⟩
  · left
    induction each with
    | nil => exact absurd rfl nonempty
    | @cons piece item others more first rest ih =>
      cases others with
      | nil =>
        cases rest
        exact .cons (first.trail trails) .nil
      | cons next others =>
        rw [Text.seam_cons (List.cons_ne_nil _ _)]
        exact .cons first (ih (List.cons_ne_nil _ _))
  · exact .inr ⟨keyword, Clause.exists_void_seam trails void⟩

theorem PiecesSpell.append {otherReserved : Prop} {others : List Text}
    {more : List (Nat × ClauseForm)} (first : PiecesSpell reserved pieces items)
    (second : PiecesSpell otherReserved others more) :
    PiecesSpell (reserved ∨ otherReserved) (pieces ++ others) (items ++ more) := by
  rcases first with each | ⟨keyword, piece, listed, void⟩
  · rcases second with eachOther | ⟨keyword, piece, listed, void⟩
    · exact .inl (List.rel_append each eachOther)
    · exact .inr ⟨.inr keyword, piece, List.mem_append_right _ listed, void⟩
  · exact .inr ⟨.inl keyword, piece, List.mem_append_left _ listed, void⟩

end PiecesSpell

theorem reserved_and_iff (left right : Formula) :
    (Formula.and left right).Reserved ↔ left.Reserved ∨ right.Reserved := by
  simp only [Reserved, names, List.mem_append, or_and_right, exists_or]

theorem reserved_clause {form : ClauseForm}
    (named : Text.lower form.name ∈ [['a', 'n', 'd'], ['e', 'l', 's', 'e'], ['n', 'o', 't']]) :
    (Formula.clause form).Reserved :=
  ⟨form.name, List.mem_singleton_self _, named⟩

theorem bare_of_written {text : Text} {form : ClauseForm} (written : form.Written text) :
    text.bare = text := by
  obtain ⟨head, rest, rfl, shape, follows⟩ := written.split
  have headBare : head.bare = head := Text.bare_of_dark fun c member =>
    (ClauseForm.dark_of_mem_head written.isIdentifier shape member).1
  have restBare : rest.bare = rest := by
    rw [Text.bare, List.filter_eq_self]
    intro c member
    simp [(follows c member).2.1, (follows c member).2.2.1]
  rw [Text.bare_append, headBare, restBare]

/-- A clause is read as one piece unless its name is taken for the keyword. -/
theorem keyword_of_clause {text keyword : Text} {form : ClauseForm} (written : form.Written text)
    (isKeyword : Text.IsKeyword keyword) :
    Text.cutKeyword? keyword true text = none ∨
      Text.lower form.name = Text.lower keyword ∧
        ∃ rest, Text.cutKeyword? keyword true text = some ([], rest) := by
  obtain ⟨head, rest, rfl, shape, follows⟩ := written.split
  have identifier := written.isIdentifier
  have nonempty : head ≠ [] := by
    rcases shape with rfl | rfl
    · exact Text.ne_nil_of_isIdentifier identifier
    · exact List.cons_ne_nil _ _
  have dark : ∀ c ∈ head, Text.isDelimiter c = false := fun c member =>
    (ClauseForm.dark_of_mem_head identifier shape member).1
  have other : ∀ c ∈ rest, c.isAlpha = false := fun c member => (follows c member).1
  rcases Text.cutKeyword?_word isKeyword nonempty dark other with none | ⟨spelled, found⟩
  · exact .inl none
  · right
    refine ⟨?_, rest, found⟩
    rcases shape with rfl | rfl
    · exact spelled
    · have letter := isKeyword.letters '!' (spelled ▸ List.mem_cons_self)
      cases letter

theorem Written.pieces_spell {tight : Bool} {text : Text} {formula : Formula}
    (written : Written tight text formula) :
    PiecesSpell formula.Reserved (Text.pieces ['a', 'n', 'd'] true text) formula.conjuncts := by
  -- Parentheses and a `not` only change the first or the last piece, which is why a `not` reaches
  -- no further than the next `and`.
  induction written with
  | @clause text form written =>
    rw [Text.pieces_eq _ _ _ Text.isKeyword_and.nonempty]
    rcases keyword_of_clause written Text.isKeyword_and with none | ⟨named, rest, found⟩
    · rw [none]
      left
      exact .cons ⟨[], text, by rw [bare_of_written written]; rfl, rfl, by simp, written⟩ .nil
    · rw [found]
      right
      exact ⟨reserved_clause (by rw [named]; decide), [], List.mem_cons_self, Clause.void_nil⟩
  | @not word gap text inner isNot spaced _ ih =>
    have differs : Text.lower word ≠ Text.lower ['a', 'n', 'd'] := by
      rw [isNot]
      decide
    have nonempty : word ≠ [] := Text.isKeyword_not.ne_nil_of_spelled isNot
    have dark : ∀ c ∈ word, Text.isDelimiter c = false := Text.isKeyword_not.dark_of_spelled isNot
    rw [Text.pieces_other Text.isKeyword_and spaced.delimiters nonempty dark differs]
    exact ih.lead (Clause.leads_not isNot spaced)
  | @group lead text tail inner leading trailing _ ih =>
    have trailed := ih.trail (Clause.trails_close trailing) (Text.pieces_ne_nil _ _ _)
    rw [List.append_assoc, Text.pieces_lead Text.isKeyword_and leading.opens,
      Text.pieces_trail Text.isKeyword_and trailing.closes]
    exact trailed.lead_zero (Clause.leads_open leading)
  | @and word lead tail first second left right spelled leading trailing _ _ ihLeft ihRight =>
    rw [Text.pieces_keyword Text.isKeyword_and trailing.delimiters leading.delimiters spelled]
    have trailed := ihLeft.trail (Clause.trails_blank leading.2) (Text.pieces_ne_nil _ _ _)
    have led := ihRight.lead_zero (Clause.leads_blank trailing.2)
    rw [PiecesSpell, reserved_and_iff]
    exact trailed.append led
  | alone _ ih => exact ih

def CutShort (text : Text) : Prop :=
  ∃ before after, Text.cutKeyword? ['e', 'l', 's', 'e'] true text = some (before, after) ∧
    ∃ piece ∈ Text.pieces ['a', 'n', 'd'] true before, Clause.Void piece

theorem Written.else_free {tight : Bool} {text : Text} {formula : Formula}
    (written : Written tight text formula) :
    Text.cutKeyword? ['e', 'l', 's', 'e'] true text = none ∨ formula.Reserved ∧ CutShort text := by
  induction written with
  | @clause text form written =>
    rcases keyword_of_clause written Text.isKeyword_else with none | ⟨named, rest, found⟩
    · exact .inl none
    · right
      exact ⟨reserved_clause (by rw [named]; decide), [], rest, found, [], List.mem_cons_self,
        Clause.void_nil⟩
  | @not word gap text inner isNot spaced _ ih =>
    have nonempty : word ≠ [] := Text.isKeyword_not.ne_nil_of_spelled isNot
    have dark : ∀ c ∈ word, Text.isDelimiter c = false := Text.isKeyword_not.dark_of_spelled isNot
    have step := Text.cutKeyword?_other Text.isKeyword_else spaced.delimiters nonempty dark
      (by rw [isNot]; decide) text
    rcases ih with none | ⟨reserved, before, after, found, void⟩
    · left
      rw [step, none]
      rfl
    · refine .inr ⟨reserved, word ++ gap ++ before, after, by rw [step, found]; rfl, ?_⟩
      rw [Text.pieces_other Text.isKeyword_and spaced.delimiters nonempty dark
        (by rw [isNot]; decide)]
      exact Clause.exists_void_modifyHead (Clause.leads_not isNot spaced) void
  | @group lead text tail inner leading trailing _ ih =>
    rw [List.append_assoc]
    have step : Text.cutKeyword? ['e', 'l', 's', 'e'] true
        ('(' :: lead ++ (text ++ (tail ++ [')']))) = _ :=
      Text.cutKeyword?_lead Text.isKeyword_else leading.opens true _
    rw [Text.cutKeyword?_trail Text.isKeyword_else trailing.closes] at step
    rcases ih with none | ⟨reserved, before, after, found, void⟩
    · left
      rw [step, none]
      rfl
    · refine .inr ⟨reserved, '(' :: lead ++ before, _, by rw [step, found]; rfl, ?_⟩
      rw [Text.pieces_lead Text.isKeyword_and leading.opens]
      exact Clause.exists_void_modifyHead (Clause.leads_open leading) void
  | @and word lead tail first second left right spelled leading trailing _ _ ihLeft ihRight =>
    have step := Text.cutKeyword?_gap Text.isKeyword_else leading.delimiters true first
      (word ++ tail ++ second)
    rw [Text.cutKeyword?_other Text.isKeyword_else trailing.delimiters
      (Text.isKeyword_and.ne_nil_of_spelled spelled) (Text.isKeyword_and.dark_of_spelled spelled)
      (by rw [spelled]; decide)] at step
    rw [reserved_and_iff]
    rcases ihLeft with none | ⟨reserved, before, after, found, void⟩
    · rcases ihRight with noneRight | ⟨reserved, before, after, found, void⟩
      · left
        rw [step, none, noneRight]
        rfl
      · refine .inr ⟨.inr reserved, first ++ lead ++ (word ++ tail ++ before), after,
          by rw [step, none, found]; rfl, ?_⟩
        rw [Text.pieces_keyword Text.isKeyword_and trailing.delimiters leading.delimiters spelled]
        obtain ⟨piece, listed, empty⟩ :=
          Clause.exists_void_modifyHead (Clause.leads_blank trailing.2) void
        exact ⟨piece, List.mem_append_right _ listed, empty⟩
    · exact .inr ⟨.inl reserved, before, _, by rw [step, found], void⟩
  | alone _ ih => exact ih

end Formula

end TriggerLogic
