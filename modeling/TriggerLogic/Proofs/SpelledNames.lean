import TriggerLogic.Proofs.ClauseGrammar

namespace TriggerLogic

namespace Text

def isPassedOver (c : Char) : Bool :=
  isBlank c || c == '(' || c == ')' || c == '\'' || c == '"'

def kept (text : Text) : Text :=
  text.filter fun c => !isPassedOver c

theorem kept_append (first second : Text) : kept (first ++ second) = kept first ++ kept second :=
  List.filter_append ..

theorem kept_cons {c : Char} (stays : isPassedOver c = false) (rest : Text) :
    kept (c :: rest) = c :: kept rest := by
  simp [kept, stays]

theorem exists_of_kept_eq_cons {text rest : Text} {c : Char} (whole : kept text = c :: rest) :
    ∃ gap more, text = gap ++ c :: more ∧ kept gap = [] ∧ isPassedOver c = false ∧
      kept more = rest := by
  obtain ⟨gap, more, split, passed, stays, others⟩ := List.filter_eq_cons_iff.mp whole
  exact ⟨gap, more, split, List.filter_eq_nil_iff.mpr passed, by simpa using stays, others⟩

theorem unquoted_compact_bare (text : Text) :
    ClauseSpelling.unquoted (compact text.bare) = text.kept := by
  rw [ClauseSpelling.unquoted, compact, bare, kept, List.filter_filter, List.filter_filter]
  congr 1
  funext c
  rw [isPassedOver]
  cases isBlank c <;> simp [bne, Bool.and_comm, Bool.and_assoc]

theorem kept_bare (text : Text) : kept text.bare = text.kept := by
  rw [← unquoted_compact_bare, ← unquoted_compact_bare, bare, bare, List.filter_filter]
  simp only [Bool.and_self]

theorem kept_of_allBlank {text : Text} (blank : text.AllBlank) : text.kept = [] := by
  rw [kept, List.filter_eq_nil_iff]
  intro c member
  simp [isPassedOver, blank c member]

theorem isPassedOver_of_continuesName {c : Char} (continues : continuesName c = true) :
    isPassedOver c = false := by
  have range := toNat_of_continuesName continues
  have differs : ∀ d : Char, d.toNat < 48 → c ≠ d := by
    rintro d low rfl
    omega
  rw [isPassedOver, isBlank_of_continuesName continues]
  simp [differs]

def endsName (c : Char) : Bool :=
  !continuesName c

theorem isPassedOver_of_isBlank {c : Char} (blank : isBlank c = true) : isPassedOver c = true := by
  simp [isPassedOver, blank]

theorem IsNot.kept_eq {word : Text} (isNot : word.IsNot) : word.kept = word := by
  rw [kept, List.filter_eq_self]
  intro c member
  have letter := isNot.isAlpha c member
  rw [isPassedOver_of_continuesName (by simp [continuesName, Char.isAlphanum, letter])]
  rfl

theorem endsName_of_isPassedOver {c : Char} (passed : isPassedOver c = true) : endsName c = true := by
  rw [endsName, Bool.not_eq_true']
  rw [← Bool.not_eq_true]
  intro continues
  rw [isPassedOver_of_continuesName continues] at passed
  cases passed

theorem head?_of_kept {text : Text} (ends : (kept text).head?.all endsName = true) :
    text.head?.all endsName = true := by
  cases text with
  | nil => rfl
  | cons c rest =>
    by_cases passed : isPassedOver c = true
    · exact endsName_of_isPassedOver passed
    · rw [Bool.not_eq_true] at passed
      rw [kept_cons passed] at ends
      exact ends

theorem getLast?_of_kept {text : Text} (ends : (kept text).getLast?.all endsName = true) :
    text.getLast?.all endsName = true := by
  rw [List.getLast?_eq_head?_reverse] at ends ⊢
  apply head?_of_kept
  rw [kept, List.filter_reverse]
  exact ends

theorem exists_stretch {text mark name tail : Text} (nonempty : name ≠ [])
    (whole : kept text = mark ++ name ++ tail) :
    ∃ before stretch after, text = before ++ stretch ++ after ∧ kept before = mark ∧
      kept stretch = name ∧ kept after = tail ∧ stretch.head? = name.head? ∧
      stretch.getLast? = name.getLast? := by
  rw [List.append_assoc] at whole
  obtain ⟨front, rest, rfl, keptFront, keptRest⟩ := List.filter_eq_append_iff.mp whole
  obtain ⟨c, letters, rfl⟩ := List.exists_cons_of_ne_nil nonempty
  obtain ⟨gap, inner, rfl, keptGap, stays, keptInner⟩ := exists_of_kept_eq_cons keptRest
  obtain ⟨initial, d, last⟩ := (List.eq_nil_or_concat (c :: letters)).resolve_left nonempty
  rw [List.concat_eq_append] at last
  have fromFirst : kept (c :: inner) = initial ++ ([d] ++ tail) := by
    rw [kept_cons stays, keptInner, ← List.append_assoc, ← last]
    rfl
  obtain ⟨body, others, split, keptBody, keptOthers⟩ := List.filter_eq_append_iff.mp fromFirst
  obtain ⟨lead, after, rfl, keptLead, staysLast, keptAfter⟩ := exists_of_kept_eq_cons keptOthers
  refine ⟨front ++ gap, body ++ lead ++ [d], after, ?_, ?_, ?_, keptAfter, ?_, ?_⟩
  · rw [split]
    simp
  · rw [kept_append, keptGap, List.append_nil]
    exact keptFront
  · rw [kept_append, kept_append, keptLead, List.append_nil, kept_cons staysLast, last]
    exact congrArg (· ++ [d]) keptBody
  · have starts : (body ++ lead ++ [d] ++ after).head? = some c := by
      rw [List.append_assoc, List.singleton_append, List.append_assoc, ← split]
      rfl
    rw [List.head?_append_of_ne_nil _ (by simp)] at starts
    exact starts
  · rw [last, List.getLast?_concat, List.getLast?_concat]

def OccursIn (name piece : Text) : Prop :=
  ∃ before after, piece = before ++ name ++ after ∧ before.getLast?.all endsName = true ∧
    after.head?.all endsName = true

/-- The name stands in the piece, with nothing inside it that is not passed over. Before it there
is at most a `not` and a mark, and behind it comes an operator or nothing. -/
def SpelledIn (name piece : Text) : Prop :=
  ∃ before stretch after, piece = before ++ stretch ++ after ∧
    kept stretch = name ∧ stretch.head? = name.head? ∧ stretch.getLast? = name.getLast? ∧
    before.getLast?.all endsName = true ∧ after.head?.all endsName = true ∧
    (∃ word mark : Text, kept before = word ++ mark ∧ (word = [] ∨ word.IsNot) ∧
      (mark = [] ∨ mark = ['!'])) ∧
    (kept after = [] ∨ ∃ comparator more, kept after = Comparator.symbol comparator ++ more)

end Text

namespace ClauseSpelling

theorem exists_around_name {spelling : ClauseSpelling}
    (identifier : Text.isIdentifier spelling.form.name = true) :
    ∃ mark tail : Text, unquoted spelling.body = mark ++ spelling.form.name ++ tail ∧
      (mark = [] ∨ mark = ['!']) ∧
      (tail = [] ∨ ∃ comparator more, tail = Comparator.symbol comparator ++ more) := by
  rcases form_cases spelling with ⟨name, level, whole, form⟩ | form
  · rw [form] at identifier ⊢
    have plain : unquoted name = name := unquoted_eq_self (unquoted_of_isIdentifier identifier)
    refine ⟨[], ['='] ++ unquoted (levelText level), ?_, .inl rfl, .inr ⟨.equal, _, rfl⟩⟩
    rw [whole, List.append_assoc, unquoted, List.filter_append, List.filter_append]
    exact congrArg (· ++ _) plain
  · rw [form]
    rcases plainForm_cases (unquoted spelling.body) with
      ⟨comparator, name, numeral, value, whole, -, -, compares⟩ | ⟨name, whole, marked⟩ | bare
    · rw [compares, whole]
      exact ⟨[], comparator.symbol ++ numeral, List.append_assoc _ _ _, .inl rfl,
        .inr ⟨comparator, numeral, rfl⟩⟩
    · rw [marked, whole]
      exact ⟨['!'], [], (List.append_nil _).symm, .inr rfl, .inl rfl⟩
    · rw [bare]
      exact ⟨[], [], (List.append_nil _).symm, .inl rfl, .inl rfl⟩

theorem exists_opening (piece : Text) :
    ∃ opening rest : Text, piece = opening ++ rest ∧ rest.kept = unquoted (ofPiece piece).body ∧
      opening.getLast?.all Text.endsName = true ∧
      (opening.kept = [] ∨ opening.kept.IsNot) := by
  rw [ofPiece_bare]
  cases found : Text.afterKeyword? ['n', 'o', 't'] (Text.trim piece.bare) with
  | none =>
    refine ⟨[], piece, rfl, ?_, rfl, .inl rfl⟩
    simp only
    rw [Text.compact_trim, Text.unquoted_compact_bare]
  | some rest =>
    obtain ⟨word, c, more, trimmed, isNot, plain, rfl⟩ := Text.exists_of_afterKeyword?_not found
    have blank := Text.isBlank_of_isPlainBlank plain
    obtain ⟨lead, tail, whole, leadBlank, tailBlank⟩ := Text.exists_trim piece.bare
    rw [trimmed] at whole
    have split : piece.bare = lead ++ word ++ c :: (more ++ tail) := by
      rw [whole]
      simp
    obtain ⟨front, others, same, bareFront, bareOthers⟩ := List.filter_eq_append_iff.mp split
    obtain ⟨gap, rest, rfl, closed, -, bareRest⟩ := List.filter_eq_cons_iff.mp bareOthers
    have passed := Text.isPassedOver_of_isBlank blank
    refine ⟨front ++ gap ++ [c], rest, by rw [same]; simp, ?_, ?_, .inr ?_⟩
    · rw [← Text.unquoted_compact_bare, show Text.bare rest = more ++ tail from bareRest]
      simp only
      rw [Text.compact_append, Text.compact_of_allBlank tailBlank, List.append_nil,
        Text.compact_blank_cons blank]
    · rw [List.getLast?_concat]
      exact Text.endsName_of_isPassedOver passed
    · have keptFront : Text.kept front = word := by
        rw [← Text.kept_bare, show Text.bare front = lead ++ word from bareFront, Text.kept_append,
          Text.kept_of_allBlank leadBlank, isNot.kept_eq, List.nil_append]
      have keptGap : Text.kept gap = [] := by
        rw [← Text.kept_bare, show Text.bare gap = [] from List.filter_eq_nil_iff.mpr closed]
        rfl
      have keptBlank : Text.kept [c] = [] := by simp [Text.kept, passed]
      rw [Text.kept_append, Text.kept_append, keptFront, keptGap, keptBlank, List.append_nil,
        List.append_nil]
      exact isNot

end ClauseSpelling

def Demand.About (field : Field) : Demand → Prop
  | .literal asked => asked.bit = field.start
  | .compare _ compared _ => compared = field

theorem ClauseForm.about_of_ask? {inverted : Bool} {field : Field} {form : ClauseForm}
    {demand : Demand} (asked : form.ask? inverted field = some demand) : demand.About field := by
  cases form with
  | level name negated =>
    cases asked
    rfl
  | compare comparator name threshold =>
    cases inverted with
    | true => cases asked
    | false =>
      cases asked
      rfl

namespace Clause

variable {layout : Layout} {output piece : Text} {span : Span} {clause : Clause}

/-- A clause is about the field with the name that is spelled in it, whatever is passed over inside
the name. -/
theorem name_spelled_in_piece (names : layout.NamesIdentifiers)
    (found : read layout output span piece = .ok clause) :
    ∃ field, layout.find? (ClauseSpelling.ofPiece piece).form.name = some field ∧
      clause.demand.About field ∧ field.name.SpelledIn piece := by
  obtain ⟨-, -, field, demand, declared, asked, rfl⟩ := read_eq_ok_iff.mp found
  have identifier := names.isIdentifier declared
  have same : field.name = (ClauseSpelling.ofPiece piece).form.name := by
    simpa using List.find?_some declared
  refine ⟨field, declared, ClauseForm.about_of_ask? asked, ?_⟩
  obtain ⟨mark, tail, around, marked, tailed⟩ := ClauseSpelling.exists_around_name identifier
  obtain ⟨opening, rest, split, keptRest, ends, opened⟩ := ClauseSpelling.exists_opening piece
  rw [around] at keptRest
  obtain ⟨before, stretch, after, whole, keptBefore, keptStretch, keptAfter, head, last⟩ :=
    Text.exists_stretch (Text.ne_nil_of_isIdentifier identifier) keptRest
  rw [same]
  refine ⟨opening ++ before, stretch, after, by rw [split, whole]; simp, keptStretch, head, last, ?_, ?_,
    ⟨opening.kept, mark, by rw [Text.kept_append, keptBefore], opened, marked⟩, keptAfter ▸ tailed⟩
  · rcases List.eq_nil_or_concat before with rfl | ⟨front, c, rfl⟩
    · rw [List.append_nil]
      exact ends
    · have marking : (Text.kept (front.concat c)).getLast?.all Text.endsName = true := by
        rw [keptBefore]
        rcases marked with rfl | rfl <;> decide
      rw [List.getLast?_append_of_ne_nil _ (by simp)]
      exact Text.getLast?_of_kept marking
  · apply Text.head?_of_kept
    rw [keptAfter]
    rcases tailed with rfl | ⟨comparator, more, rfl⟩
    · rfl
    · cases comparator <;> rfl

def indexedName : Layout :=
  ⟨[⟨['c', '0'], 4, 1⟩]⟩

theorem indexedName_spelled :
    read indexedName ['y'] ⟨0, 13⟩ "Not (! c(0)) ".toList =
        .ok ⟨.literal ⟨4, false⟩, "not !c0".toList, ⟨0, 13⟩⟩ ∧
      Text.SpelledIn ['c', '0'] "Not (! c(0)) ".toList := by
  have accepted : read indexedName ['y'] ⟨0, 13⟩ "Not (! c(0)) ".toList =
      .ok ⟨.literal ⟨4, false⟩, "not !c0".toList, ⟨0, 13⟩⟩ := by decide
  obtain ⟨field, declared, -, spelled⟩ := name_spelled_in_piece (by decide) accepted
  cases declared
  exact ⟨accepted, spelled⟩

/-- A parenthesis, a blank or a quote inside a name is passed over, so the name need not occur. -/
theorem split_names_found :
    indexedName.NamesIdentifiers ∧
      ∀ piece ∈ ["c(0)".toList, "c 0".toList, "c\"0".toList], ∃ clause field,
        read indexedName ['y'] ⟨0, 4⟩ piece = .ok clause ∧
        indexedName.find? (ClauseSpelling.ofPiece piece).form.name = some field ∧
        clause.demand.About field ∧ ¬ field.name.OccursIn piece := by
  have absent : ∀ {piece : Text}, ¬ ['c', '0'] <:+: piece → ¬ Text.OccursIn ['c', '0'] piece := by
    rintro piece none ⟨before, after, whole, -, -⟩
    exact none ⟨before, after, whole.symm⟩
  refine ⟨by decide, ?_⟩
  simp only [List.forall_mem_cons]
  refine ⟨?_, ?_, ?_, by simp⟩
  · exact ⟨⟨.literal ⟨4, false⟩, "c0".toList, ⟨0, 4⟩⟩, ⟨['c', '0'], 4, 1⟩, by decide, by decide, rfl,
      absent (by decide)⟩
  · exact ⟨⟨.literal ⟨4, false⟩, "c0".toList, ⟨0, 4⟩⟩, ⟨['c', '0'], 4, 1⟩, by decide, by decide, rfl,
      absent (by decide)⟩
  · exact ⟨⟨.literal ⟨4, false⟩, "c\"0".toList, ⟨0, 4⟩⟩, ⟨['c', '0'], 4, 1⟩, by decide, by decide, rfl,
      absent (by decide)⟩

end Clause

end TriggerLogic
