import TriggerLogic.Proofs.ConditionRoundTrip
import TriggerLogic.Proofs.SpelledNames

namespace TriggerLogic

namespace ClauseSpelling

variable {spelling : ClauseSpelling}

def IsWord (spelling : ClauseSpelling) : Prop :=
  spelling.body ≠ [] ∧
    ∀ c ∈ spelling.body, Text.isBlank c = false ∧ Text.isDelimiter c = false

theorem isWord_ofPiece {piece : Text} (nonempty : (ofPiece piece).body ≠ []) :
    (ofPiece piece).IsWord := by
  refine ⟨nonempty, ?_⟩
  have compacted : ∀ {text : Text}, text ⊆ Text.trim piece.bare →
      ∀ c ∈ Text.compact text, Text.isBlank c = false ∧ Text.isDelimiter c = false := by
    intro text inside c member
    simp only [Text.compact, List.mem_filter, Bool.not_eq_true'] at member
    have outside : c ≠ '(' ∧ c ≠ ')' := by
      obtain ⟨lead, tail, whole, -, -⟩ := Text.exists_trim piece.bare
      have inBare : c ∈ piece.bare := by
        rw [whole]
        simp [inside member.1]
      simpa [Text.bare] using (List.mem_filter.mp inBare).2
    refine ⟨member.2, ?_⟩
    rw [Text.isDelimiter, Text.isPlainBlank_of_dark member.2]
    simp [outside]
  rw [ofPiece_bare]
  cases found : Text.afterKeyword? ['n', 'o', 't'] (Text.trim piece.bare) with
  | none => exact compacted (List.Subset.refl _)
  | some rest =>
    obtain ⟨word, c, more, whole, -, -, rfl⟩ := Text.exists_of_afterKeyword?_not found
    apply compacted
    rw [whole]
    exact List.subset_append_right _ _

section Word

variable (isWord : spelling.IsWord)

include isWord

theorem ofPiece_text : ofPiece spelling.text = spelling := by
  obtain ⟨inverted, body⟩ := spelling
  obtain ⟨nonempty, dark⟩ := isWord
  have darkBody : ∀ c ∈ body, Text.isBlank c = false := fun c member => (dark c member).1
  have bareBody : body.bare = body := Text.bare_of_dark fun c member => (dark c member).2
  have solid : body.Solid := Text.solid_of_forall nonempty darkBody
  cases inverted with
  | false =>
    have alone := Text.afterKeyword?_word darkBody rfl (.inl rfl)
    rw [List.append_nil] at alone
    show ofPiece body = _
    rw [ofPiece_bare, bareBody, Text.trim_solid solid, alone]
    simp only
    rw [Text.compact_of_dark darkBody]
  | true =>
    have isNot : Text.IsNot ['n', 'o', 't'] := by decide
    have bareText : Text.bare (['n', 'o', 't', ' '] ++ body) = ['n', 'o', 't'] ++ ' ' :: body := by
      rw [Text.bare_append, bareBody]
      rfl
    have solidText : Text.Solid (['n', 'o', 't'] ++ ' ' :: body) := by
      have solidNot : Text.Solid ['n', 'o', 't'] := Text.solid_of_forall (by decide) (by decide)
      have joined := solidNot.append solid [' ']
      rw [List.append_assoc] at joined
      exact joined
    show ofPiece (['n', 'o', 't', ' '] ++ body) = _
    rw [ofPiece_bare, bareText, Text.trim_solid solidText, Text.afterKeyword?_not isNot (by decide)]
    simp only
    rw [Text.compact_blank_cons (by decide), Text.compact_of_dark darkBody]

theorem text_keyword_free {keyword : Text} (isKeyword : Text.IsKeyword keyword)
    (notNot : Text.lower keyword ≠ ['n', 'o', 't'])
    (other : Text.lower spelling.body ≠ Text.lower keyword) :
    Text.cutKeyword? keyword true spelling.text = none := by
  obtain ⟨inverted, body⟩ := spelling
  obtain ⟨nonempty, dark⟩ := isWord
  have lone : Text.cutKeyword? keyword true body = none :=
    Text.cutKeyword?_lone isKeyword nonempty (fun c member => (dark c member).2) other
  cases inverted with
  | false => exact lone
  | true =>
    have space : Text.Delimiters [' '] := ⟨by decide, by decide⟩
    have step := Text.cutKeyword?_other isKeyword space (by decide : (['n', 'o', 't'] : Text) ≠ [])
      (by decide) (Ne.symm notNot) body
    rw [lone] at step
    exact step

end Word

end ClauseSpelling

namespace Clause

variable {layout : Layout} {output piece : Text} {span : Span} {clause : Clause}

theorem isWord_of_read (found : read layout output span piece = .ok clause) :
    (ClauseSpelling.ofPiece piece).IsWord :=
  ClauseSpelling.isWord_ofPiece (read_eq_ok_iff.mp found).1

theorem read_of_ofPiece_eq {other : Text} (found : read layout output span piece = .ok clause)
    (same : ClauseSpelling.ofPiece other = ClauseSpelling.ofPiece piece) (target : Text)
    (place : Span) : read layout target place other = .ok { clause with span := place } := by
  rw [read_eq_ok_iff] at found ⊢
  rw [same]
  obtain ⟨nonempty, notLess, field, demand, declared, asked, rfl⟩ := found
  exact ⟨nonempty, notLess, field, demand, declared, asked, rfl⟩

theorem read_text (found : read layout output span piece = .ok clause) {lead tail : Text}
    (leading : lead.Delimiting) (trailing : tail.Delimiting) (target : Text) (place : Span) :
    read layout target place (lead ++ clause.text ++ tail) = .ok { clause with span := place } := by
  apply read_of_ofPiece_eq found
  rw [ConditionItem.ofPiece_around leading trailing, text_of_read found,
    ClauseSpelling.ofPiece_text (isWord_of_read found)]

theorem startsName_of_read (names : layout.NamesIdentifiers)
    (found : read layout output span piece = .ok clause) :
    ∃ c ∈ clause.text, Text.startsName c = true := by
  rw [text_of_read found]
  obtain ⟨-, -, field, demand, declared, -, -⟩ := read_eq_ok_iff.mp found
  have identifier := names.isIdentifier declared
  obtain ⟨mark, tail, around, -, -⟩ := ClauseSpelling.exists_around_name identifier
  generalize ClauseSpelling.ofPiece piece = spelling at *
  cases named : spelling.form.name with
  | nil =>
    rw [named] at identifier
    cases identifier
  | cons c letters =>
    rw [named] at identifier around
    simp only [Text.isIdentifier, Bool.and_eq_true] at identifier
    have inBody : c ∈ spelling.body := by
      have inside : c ∈ ClauseSpelling.unquoted spelling.body := by
        rw [around]
        simp
      exact List.mem_of_mem_filter inside
    refine ⟨c, ?_, identifier.1⟩
    unfold ClauseSpelling.text
    split
    · exact List.mem_append_right _ inBody
    · exact inBody

end Clause

def Layout.NamesUnreserved (layout : Layout) : Prop :=
  ∀ field ∈ layout.fields, Text.lower field.name ∉
    [['a', 'n', 'd'], ['w', 'h', 'e', 'n'], ['e', 'l', 's', 'e']]

instance (layout : Layout) : Decidable layout.NamesUnreserved :=
  inferInstanceAs (Decidable (∀ field ∈ layout.fields, _))

theorem Clause.keyword_free_text {layout : Layout} {output piece : Text} {span : Span} {clause : Clause}
    (unreserved : layout.NamesUnreserved) (found : read layout output span piece = .ok clause)
    {keyword : Text}
    (listed : keyword ∈ [['a', 'n', 'd'], ['w', 'h', 'e', 'n'], ['e', 'l', 's', 'e']]) :
    Text.cutKeyword? keyword true clause.text = none := by
  have isKeyword : Text.IsKeyword keyword ∧ Text.lower keyword = keyword ∧
      keyword ≠ ['n', 'o', 't'] := by
    simp only [List.mem_cons, List.not_mem_nil, or_false] at listed
    rcases listed with rfl | rfl | rfl
    · exact ⟨Text.isKeyword_and, by decide, by decide⟩
    · exact ⟨Text.isKeyword_when, by decide, by decide⟩
    · exact ⟨Text.isKeyword_else, by decide, by decide⟩
  obtain ⟨isKeyword, lowered, notNot⟩ := isKeyword
  have isWord := isWord_of_read found
  obtain ⟨-, -, field, demand, declared, -, rfl⟩ := read_eq_ok_iff.mp found
  apply ClauseSpelling.text_keyword_free isWord isKeyword (lowered.symm ▸ notNot)
  generalize ClauseSpelling.ofPiece piece = spelling at *
  intro same
  have identifier := Text.isIdentifier_of_letters isWord.1 (isKeyword.isAlpha_of_spelled same)
  have named : spelling.form.name = spelling.body :=
    congrArg ClauseForm.name (ClauseSpelling.form_bare identifier spelling.inverted)
  rw [named] at declared
  apply unreserved field (List.mem_of_find?_eq_some declared)
  rw [show field.name = spelling.body by simpa using List.find?_some declared, same, lowered]
  exact listed

namespace Condition

section Joined

variable {texts : List Text} {lead : Text} (leading : lead.Delimiting)

theorem join_cons_cons (lead text next : Text) (texts : List Text) :
    lead ++ Text.join " and ".toList (text :: next :: texts) = lead ++ text ++ [' '] ++
      (['a', 'n', 'd'] ++ ([' '] ++ Text.join " and ".toList (next :: texts))) := by
  rw [Text.join, List.intercalate_cons_cons]
  simp [Text.join]

theorem exists_join_cons (text : Text) (texts : List Text) :
    ∃ rest, Text.join " and ".toList (text :: texts) = text ++ rest := by
  rw [Text.join]
  cases texts with
  | nil => exact ⟨[], by rw [List.intercalate_singleton, List.append_nil]⟩
  | cons next texts => exact ⟨_, by rw [List.intercalate_cons_cons, List.append_assoc]⟩

include leading

theorem cutKeyword?_join {keyword : Text} (isKeyword : Text.IsKeyword keyword)
    (notAnd : Text.lower keyword ≠ ['a', 'n', 'd'])
    (free : ∀ text ∈ texts, Text.cutKeyword? keyword true text = none) :
    Text.cutKeyword? keyword true (lead ++ Text.join " and ".toList texts) = none := by
  have space : Text.Delimiters [' '] := ⟨by decide, by decide⟩
  have lone : Text.cutKeyword? keyword true ['a', 'n', 'd'] = none :=
    Text.cutKeyword?_lone isKeyword (by decide) (by decide) (Ne.symm notAnd)
  induction texts generalizing lead with
  | nil =>
    rw [Text.join, List.intercalate_nil, List.append_nil]
    exact Text.cutKeyword?_delimiting isKeyword leading
  | cons text texts ih =>
    rw [List.forall_mem_cons] at free
    cases texts with
    | nil =>
      have alone := Text.cutKeyword?_around isKeyword leading (by decide : Text.Delimiting []) free.1
      rw [List.append_nil] at alone
      rw [Text.join, List.intercalate_singleton, alone]
    | cons next texts =>
      have first := Text.cutKeyword?_around isKeyword leading space.2 free.1
      rw [join_cons_cons, Text.cutKeyword?_seam isKeyword first (.inl (space.getLast? _)),
        Text.cutKeyword?_seam isKeyword lone (.inr (space.head? _)), ih space.2 free.2]
      rfl

theorem pieces_join (nonempty : texts ≠ [])
    (free : ∀ text ∈ texts, Text.cutKeyword? ['a', 'n', 'd'] true text = none) :
    List.Forall₂ (fun piece text => ∃ lead tail : Text, piece = lead ++ text ++ tail ∧
        lead.Delimiting ∧ tail.Delimiting)
      (Text.pieces ['a', 'n', 'd'] true (lead ++ Text.join " and ".toList texts)) texts := by
  have space : Text.Delimiters [' '] := ⟨by decide, by decide⟩
  induction texts generalizing lead with
  | nil => exact absurd rfl nonempty
  | cons text texts ih =>
    rw [List.forall_mem_cons] at free
    rw [Text.pieces_eq _ _ _ Text.isKeyword_and.nonempty]
    cases texts with
    | nil =>
      have empty : Text.Delimiting [] := by decide
      have alone := Text.cutKeyword?_around Text.isKeyword_and leading empty free.1
      rw [List.append_nil] at alone
      rw [Text.join, List.intercalate_singleton, alone]
      exact .cons ⟨lead, [], by simp, leading, empty⟩ .nil
    | cons next texts =>
      have first := Text.cutKeyword?_around Text.isKeyword_and leading space.2 free.1
      have starts := space.head? (Text.join " and ".toList (next :: texts))
      rw [join_cons_cons, Text.cutKeyword?_seam Text.isKeyword_and first (.inl (space.getLast? _)),
        Text.cutKeyword?_keyword Text.isKeyword_and rfl starts]
      simp only [Option.map_some, List.append_nil]
      rw [Text.pieces_unopened Text.isKeyword_and starts]
      exact .cons ⟨lead, [' '], rfl, leading, space.2⟩ (ih space.2 (List.cons_ne_nil _ _) free.2)

end Joined

section Shown

variable {layout : Layout} {output : Text} {clauses : List Clause}

theorem exists_readPieces {pieces : List Text}
    (reads : List.Forall₂ (fun piece (clause : Clause) => ∀ place,
      Clause.read layout output place piece = .ok { clause with span := place }) pieces clauses)
    (offset : Nat) :
    ∃ others, readPieces layout output offset pieces = .ok others ∧
      others.map (fun clause => (clause.demand, clause.text)) =
        clauses.map fun clause => (clause.demand, clause.text) := by
  induction reads generalizing offset with
  | nil => exact ⟨[], rfl, rfl⟩
  | @cons piece clause pieces clauses first _ ih =>
    obtain ⟨others, rest, same⟩ := ih (offset + Text.byteLength piece + 3)
    refine ⟨{ clause with span := pieceSpan offset piece } :: others, ?_, ?_⟩
    · rw [readPieces, first, rest]
      rfl
    · simp only [List.map_cons, same]

theorem exists_read_of_mem {statement : Statement} (found : read layout statement = .ok clauses) :
    clauses ≠ [] ∧ ∀ clause ∈ clauses, ∃ span piece,
      Clause.read layout statement.target span piece = .ok clause := by
  rw [read] at found
  split at found
  · cases found
  · have reads := forall₂_of_readPieces found
    constructor
    · rintro rfl
      exact Text.pieces_ne_nil _ _ _ (List.forall₂_nil_right_iff.mp reads)
    · intro clause listed
      obtain ⟨piece, span, first⟩ := exists_of_forall₂ reads.flip listed
      exact ⟨span, piece, first⟩

theorem isUnconditional_join {piece : Text} {span : Span} {clause : Clause}
    (names : layout.NamesIdentifiers) (found : Clause.read layout output span piece = .ok clause)
    (texts : List Text) :
    isUnconditional (Text.join " and ".toList (clause.text :: texts)) = false := by
  obtain ⟨c, member, starts⟩ := Clause.startsName_of_read names found
  obtain ⟨rest, joined⟩ := exists_join_cons clause.text texts
  apply isUnconditional_of_startsName _ starts
  rw [joined]
  exact List.mem_append_left rest member

/-- The texts of the clauses joined by `and` are a condition with the same clauses. -/
theorem shown_condition_reads_back {statement again : Statement} (names : layout.NamesIdentifiers)
    (unreserved : layout.NamesUnreserved) (found : read layout statement = .ok clauses)
    (shown : again.rhs = Text.join " and ".toList (clauses.map Clause.text)) :
    ∃ others, read layout again = .ok others ∧
      others.map (fun clause => (clause.demand, clause.text)) =
        clauses.map fun clause => (clause.demand, clause.text) := by
  obtain ⟨nonempty, reads⟩ := exists_read_of_mem found
  have free : ∀ keyword ∈ [['a', 'n', 'd'], ['w', 'h', 'e', 'n'], ['e', 'l', 's', 'e']],
      ∀ text ∈ clauses.map Clause.text, Text.cutKeyword? keyword true text = none := by
    intro keyword listed text member
    obtain ⟨clause, inClauses, rfl⟩ := List.mem_map.mp member
    obtain ⟨span, piece, first⟩ := reads clause inClauses
    exact Clause.keyword_free_text unreserved first listed
  have empty : Text.Delimiting [] := by decide
  have whenFree := cutKeyword?_join empty Text.isKeyword_when (by decide) (free _ (by decide))
  have elseFree := cutKeyword?_join empty Text.isKeyword_else (by decide) (free _ (by decide))
  have pieces := pieces_join empty (by simpa using nonempty) (free _ (by decide))
  rw [List.nil_append, ← shown] at whenFree elseFree pieces
  have whole : extent again.rhs = ⟨0, true, again.rhs⟩ := by
    simp only [extent, afterWhen, whenFree, elseFree]
  have conditional : isUnconditional again.rhs = false := by
    obtain ⟨clause, others, rfl⟩ := List.exists_cons_of_ne_nil nonempty
    obtain ⟨span, piece, first⟩ := reads clause List.mem_cons_self
    rw [shown, List.map_cons]
    exact isUnconditional_join names first _
  rw [read, conditional, whole]
  apply exists_readPieces
  rw [List.forall₂_map_right_iff, List.forall₂_iff_zip] at pieces
  rw [List.forall₂_iff_zip]
  refine ⟨pieces.1, ?_⟩
  intro piece clause paired place
  obtain ⟨lead, tail, rfl, leading, trailing⟩ := pieces.2 paired
  obtain ⟨span, original, first⟩ := reads clause (List.of_mem_zip paired).2
  exact Clause.read_text first leading trailing again.target place

end Shown

def notAsName : Layout :=
  ⟨[⟨['a'], 0, 1⟩, ⟨['n', 'b'], 1, 3⟩, ⟨['n', 'o', 't'], 4, 1⟩]⟩

def crowdedRhs : Text :=
  "'1' when (NOT a)And( nb >\"3\") and not\tnot else '0'".toList

theorem crowdedRhs_reads_back :
    notAsName.NamesIdentifiers ∧ notAsName.NamesUnreserved ∧ ∃ clauses others,
      read notAsName (sampleStatement crowdedRhs) = .ok clauses ∧
      clauses.map Clause.text = ["not a".toList, "nb>\"3\"".toList, "not not".toList] ∧
      read notAsName (sampleStatement "not a and nb>\"3\" and not not".toList) = .ok others ∧
      others.map (fun clause => (clause.demand, clause.text)) =
        clauses.map fun clause => (clause.demand, clause.text) := by
  have accepted : read notAsName (sampleStatement crowdedRhs) = .ok
      [⟨.literal ⟨0, true⟩, "not a".toList, ⟨13, 20⟩⟩,
        ⟨.compare .above ⟨['n', 'b'], 1, 3⟩ 3, "nb>\"3\"".toList, ⟨23, 33⟩⟩,
        ⟨.literal ⟨4, true⟩, "not not".toList, ⟨38, 45⟩⟩] := by decide
  have shown : (sampleStatement "not a and nb>\"3\" and not not".toList).rhs =
      Text.join " and ".toList ["not a".toList, "nb>\"3\"".toList, "not not".toList] := by decide
  obtain ⟨others, again, same⟩ := shown_condition_reads_back (by decide) (by decide) accepted shown
  exact ⟨by decide, by decide, _, others, accepted, rfl, again, same⟩

end Condition

end TriggerLogic
