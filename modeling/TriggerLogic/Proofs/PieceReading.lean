import TriggerLogic.Proofs.ClauseText

namespace TriggerLogic

namespace Text

/-- Every blank is one that may stand next to a keyword. -/
def PlainlySpaced (text : Text) : Prop :=
  ∀ c ∈ text, isBlank c = true → isPlainBlank c = true

def bare (text : Text) : Text :=
  text.filter fun c => c != '(' && c != ')'

def IsNot (word : Text) : Prop :=
  lower word = ['n', 'o', 't']

instance (word : Text) : Decidable word.IsNot :=
  inferInstanceAs (Decidable (_ = _))

theorem IsNot.length {word : Text} (isNot : word.IsNot) : word.length = 3 := by
  have lengths := congrArg List.length isNot
  simpa [lower] using lengths

theorem IsNot.isAlpha {word : Text} (isNot : word.IsNot) : ∀ c ∈ word, c.isAlpha = true :=
  isKeyword_not.isAlpha_of_spelled isNot

theorem afterKeyword?_not {word : Text} (isNot : word.IsNot) {c : Char}
    (plain : isPlainBlank c = true) (rest : Text) :
    afterKeyword? ['n', 'o', 't'] (word ++ c :: rest) = some (c :: rest) := by
  have length : (['n', 'o', 't'] : Text).length = word.length := isNot.length.symm
  have spelled : lower word = lower ['n', 'o', 't'] := isNot
  simp only [afterKeyword?]
  rw [length, List.take_left, List.drop_left, spelled]
  simp [plain]

theorem exists_of_afterKeyword?_not {text rest : Text}
    (found : afterKeyword? ['n', 'o', 't'] text = some rest) :
    ∃ (word : Text) (c : Char) (more : Text), text = word ++ c :: more ∧ word.IsNot ∧
      isPlainBlank c = true ∧ rest = c :: more := by
  simp only [afterKeyword?, Option.ite_none_right_eq_some, Bool.and_eq_true, beq_iff_eq,
    Option.some.injEq] at found
  obtain ⟨⟨spelled, blank⟩, rfl⟩ := found
  obtain ⟨c, starts, plain⟩ := (Option.any_eq_true _ _).mp blank
  obtain ⟨more, dropped⟩ := List.head?_eq_some_iff.mp starts
  refine ⟨text.take 3, c, more, ?_, spelled, plain, dropped⟩
  rw [← dropped]
  exact (List.take_append_drop 3 text).symm

theorem afterKeyword?_word {word rest : Text} (dark : ∀ c ∈ word, isBlank c = false)
    (blank : rest.head?.all isPlainBlank = true) (other : rest = [] ∨ ¬ word.IsNot) :
    afterKeyword? ['n', 'o', 't'] (word ++ rest) = none := by
  simp only [afterKeyword?, ite_eq_right_iff, reduceCtorEq, imp_false, Bool.and_eq_true, beq_iff_eq,
    not_and]
  intro spelled ends
  rcases Nat.lt_trichotomy word.length 3 with short | equal | long
  · cases rest with
    | nil =>
      have lengths := congrArg List.length spelled
      simp only [lower, List.length_map, List.length_take, List.append_nil, List.length_cons,
        List.length_nil] at lengths
      omega
    | cons c rest =>
      obtain ⟨extra, counted⟩ : ∃ extra, 3 - word.length = extra + 1 := ⟨2 - word.length, by omega⟩
      have taken : c ∈ (word ++ c :: rest).take 3 := by
        rw [List.take_append, counted, List.take_succ_cons]
        simp
      have plain : isPlainBlank c = true := by simpa using blank
      have letter := isAlpha_of_isDelimiter (isDelimiter_of_isPlainBlank plain)
      exact isKeyword_not.not_mem letter (spelled ▸ List.mem_map_of_mem taken)
  · rcases other with rfl | other
    · rw [List.append_nil, List.drop_of_length_le (by simp [equal])] at ends
      cases ends
    · apply other
      have length : (['n', 'o', 't'] : Text).length = word.length := equal.symm
      rw [length, List.take_left] at spelled
      exact spelled
  · have remains : word.drop 3 ≠ [] := by
      rw [ne_eq, List.drop_eq_nil_iff]
      omega
    obtain ⟨d, more, dropped⟩ := List.exists_cons_of_ne_nil remains
    rw [show (['n', 'o', 't'] : Text).length = 3 from rfl, List.drop_append_of_le_length (by omega),
      dropped] at ends
    have plain : isPlainBlank d = true := by simpa using ends
    have darkened := dark d (List.mem_of_mem_drop (dropped ▸ List.mem_cons_self))
    rw [isBlank_of_isPlainBlank plain] at darkened
    cases darkened

end Text

namespace ClauseSpelling

def ofWords : List Text → ClauseSpelling
  | first :: second :: more =>
    if first.IsNot then ⟨true, (second :: more).flatten⟩ else ⟨false, (first :: second :: more).flatten⟩
  | words => ⟨false, words.flatten⟩

theorem ofPiece_bare (piece : Text) :
    ofPiece piece =
      match Text.afterKeyword? ['n', 'o', 't'] (Text.trim piece.bare) with
      | some rest => ⟨true, Text.compact rest⟩
      | none => ⟨false, Text.compact (Text.trim piece.bare)⟩ := rfl

theorem ofPiece_eq_ofWords {piece : Text} (spaced : piece.PlainlySpaced) :
    ofPiece piece = ofWords (Text.words piece.bare) := by
  have spacedBare : piece.bare.PlainlySpaced := fun c member =>
    spaced c (List.mem_of_mem_filter member)
  rw [ofPiece_bare]
  generalize piece.bare = text at *
  rcases Text.words_cases text with blank | ⟨lead, word, rest, rfl, leadBlank, nonempty, dark, ends⟩
  · rw [Text.trim_of_allBlank blank, Text.words_of_allBlank blank]
    rfl
  have solid : word.Solid := Text.solid_of_forall nonempty dark
  rw [List.append_assoc lead, Text.words_allBlank_append leadBlank,
    Text.words_dark_append nonempty dark ends, ← List.append_assoc]
  rcases Text.words_cases rest with blank | ⟨gap, next, later, rfl, gapBlank, some, darkNext, stops⟩
  · have noMore := Text.afterKeyword?_word dark rfl (.inl rfl)
    rw [List.append_nil] at noMore
    rw [Text.trim_of_solid leadBlank solid blank, Text.words_of_allBlank blank, noMore]
    simp [ofWords, Text.compact_of_dark dark]
  · obtain ⟨d, letters, rfl⟩ := List.exists_cons_of_ne_nil some
    have darkFirst : Text.isBlank d = false := darkNext d List.mem_cons_self
    obtain ⟨core, tail, same, solidCore, tailBlank⟩ :=
      Text.exists_solid_append ⟨d, letters ++ later, rfl, darkFirst⟩
    rw [← List.cons_append] at same
    cases gap with
    | nil =>
      have blank : Text.isBlank d = true := by simpa using ends
      rw [darkFirst] at blank
      cases blank
    | cons c gap =>
      have blank : Text.isBlank c = true := gapBlank c List.mem_cons_self
      have plain : Text.isPlainBlank c = true := spacedBare c (by simp) blank
      have trimmed : Text.trim (lead ++ word ++ (c :: gap ++ (d :: letters) ++ later)) =
          word ++ (c :: gap ++ core) := by
        have shape : lead ++ word ++ (c :: gap ++ (d :: letters) ++ later) =
            lead ++ (word ++ c :: gap ++ core) ++ tail := by
          rw [List.append_assoc (c :: gap), same]
          simp
        rw [shape, Text.trim_of_solid leadBlank (solid.append solidCore _) tailBlank]
        simp
      have remaining : Text.compact (c :: gap ++ core) =
          (Text.words (c :: gap ++ (d :: letters) ++ later)).flatten := by
        rw [Text.compact_append, Text.compact_of_allBlank gapBlank, List.nil_append,
          Text.compact_eq_flatten_words, List.append_assoc, same,
          Text.words_allBlank_append gapBlank, Text.words_append_allBlank tailBlank]
      have more : Text.words (c :: gap ++ (d :: letters) ++ later) =
          (d :: letters) :: Text.words later := by
        rw [List.append_assoc, Text.words_allBlank_append gapBlank,
          Text.words_dark_append some darkNext stops]
      rw [trimmed]
      by_cases isNot : word.IsNot
      · rw [List.cons_append, Text.afterKeyword?_not isNot plain, ← List.cons_append]
        simp only
        rw [remaining, more, ofWords, if_pos isNot]
      · rw [Text.afterKeyword?_word dark (by simpa using plain) (.inr isNot)]
        simp only
        rw [Text.compact_append, Text.compact_of_dark dark, remaining, more, ofWords, if_neg isNot]
        rfl

theorem name_form_append {word : Text} (isNot : word.IsNot) (inverted : Bool) (rest : Text) :
    ∃ more, (form ⟨inverted, word ++ rest⟩).name = word ++ more := by
  have fresh : ∀ {c : Char}, c.isAlpha = false → c ∉ word := by
    intro c other member
    rw [isNot.isAlpha c member] at other
    cases other
  have extends_cut : ∀ {c : Char} {name value text : Text}, c.isAlpha = false →
      word ++ text = name ++ [c] ++ value → ∃ more, name = word ++ more := by
    intro c name value text other whole
    rw [List.append_assoc, List.append_eq_append_iff] at whole
    rcases whole with ⟨more, whole, -⟩ | ⟨more, whole, behind⟩
    · exact ⟨more, whole⟩
    · cases more with
      | nil => exact ⟨[], by simp [whole]⟩
      | cons d more =>
        have same : c = d := (List.cons.inj behind).1
        exact absurd (by simp [whole, same]) (fresh other)
  have plain : unquoted (word ++ rest) = word ++ unquoted rest := by
    have kept : unquoted word = word := by
      apply unquoted_eq_self
      intro c member
      constructor
      · rintro rfl
        exact fresh (by decide) member
      · rintro rfl
        exact fresh (by decide) member
    rw [unquoted, List.filter_append]
    exact congrArg (· ++ unquoted rest) kept
  rcases form_cases ⟨inverted, word ++ rest⟩ with ⟨name, level, whole, shape⟩ | shape
  · rw [shape]
    exact extends_cut (by decide) whole
  rw [shape, plain]
  rcases plainForm_cases (word ++ unquoted rest) with
    ⟨comparator, name, numeral, value, whole, -, -, compares⟩ | ⟨name, whole, -⟩ | bare
  · rw [compares]
    cases comparator with
    | above => exact extends_cut (by decide) whole
    | equal => exact extends_cut (by decide) whole
  · cases word with
    | nil => exact absurd isNot.length (by decide)
    | cons letter letters =>
      have marked : '!' ∈ letter :: letters := by
        rw [(List.cons.inj whole).1]
        exact List.mem_cons_self
      exact absurd marked (fresh (by decide))
  · rw [bare]
    exact ⟨unquoted rest, rfl⟩

end ClauseSpelling

theorem ClauseForm.Written.words {text : Text} {form : ClauseForm} (written : form.Written text) :
    ∃ word more, Text.words text = word :: more ∧ (word.IsNot → form.name.IsNot) := by
  obtain ⟨head, rest, rfl, shape, follows⟩ := written.split
  have identifier := written.isIdentifier
  have dark : ∀ c ∈ head, Text.isBlank c = false := fun c member =>
    (ClauseForm.dark_of_mem_head identifier shape member).2
  have nonempty : head ≠ [] := by
    rcases shape with rfl | rfl
    · exact Text.ne_nil_of_isIdentifier identifier
    · exact List.cons_ne_nil _ _
  have whole : rest = rest.takeWhile (fun c => !Text.isBlank c) ++
      rest.dropWhile fun c => !Text.isBlank c :=
    List.takeWhile_append_dropWhile.symm
  have stops := List.head?_dropWhile_not (fun c => !Text.isBlank c) rest
  have darkRest : ∀ c ∈ rest.takeWhile (fun c => !Text.isBlank c), Text.isBlank c = false := by
    intro c member
    simpa using List.mem_takeWhile_imp member
  have followsRest : ∀ c ∈ rest.takeWhile (fun c => !Text.isBlank c), c.isAlpha = false :=
    fun c member => (follows c (List.takeWhile_subset _ member)).1
  generalize rest.takeWhile (fun c => !Text.isBlank c) = stuff at *
  generalize rest.dropWhile (fun c => !Text.isBlank c) = more at *
  subst whole
  refine ⟨head ++ stuff, Text.words more, ?_, ?_⟩
  · rw [← List.append_assoc]
    apply Text.words_dark_append (List.append_ne_nil_of_left_ne_nil nonempty _)
    · exact List.forall_mem_append.mpr ⟨dark, darkRest⟩
    · cases more with
      | nil => rfl
      | cons c more => simpa using stops
  · intro isNot
    have letters := isNot.isAlpha
    rw [List.forall_mem_append] at letters
    have none : stuff = [] := by
      rw [List.eq_nil_iff_forall_not_mem]
      intro c member
      have letter := letters.2 c member
      rw [followsRest c member] at letter
      cases letter
    rw [none, List.append_nil] at isNot
    rcases shape with rfl | rfl
    · exact isNot
    · exact absurd (letters.1 '!' List.mem_cons_self) (by decide)

theorem ClauseSpelling.ofWords_written {text : Text} {form : ClauseForm} (written : form.Written text)
    (named : ¬ form.name.IsNot) : ofWords (Text.words text) = ⟨false, Text.compact text⟩ := by
  obtain ⟨word, more, split, notName⟩ := written.words
  have first : ¬ word.IsNot := fun isNot => named (notName isNot)
  rw [Text.compact_eq_flatten_words, split]
  cases more with
  | nil => rfl
  | cons next more => rw [ofWords, if_neg first]

theorem ClauseSpelling.ofWords_not {text not : Text} {form : ClauseForm} (written : form.Written text)
    (isNot : not.IsNot) : ofWords (not :: Text.words text) = ⟨true, Text.compact text⟩ := by
  obtain ⟨word, more, split, -⟩ := written.words
  rw [Text.compact_eq_flatten_words, split, ofWords, if_pos isNot]

def ClauseForm.demand (field : Field) : ClauseForm → Demand
  | .level _ negated => .literal ⟨field.start, negated⟩
  | .compare comparator _ threshold => .compare comparator field threshold

def ClauseForm.ask? (inverted : Bool) (field : Field) : ClauseForm → Option Demand
  | .level _ negated => some (.literal ⟨field.start, negated != inverted⟩)
  | .compare comparator _ threshold =>
    if inverted then none else some (.compare comparator field threshold)

theorem ClauseForm.ask?_upright (field : Field) (form : ClauseForm) :
    form.ask? false field = some (form.demand field) := by
  cases form <;> simp [ask?, demand]

def ClauseForm.Holds (layout : Layout) (input : List Bool) (form : ClauseForm) : Prop :=
  ∃ field, layout.find? form.name = some field ∧ (form.demand field).Holds input

theorem ClauseForm.holds_iff {layout : Layout} {form : ClauseForm} {field : Field}
    (declared : layout.find? form.name = some field) (input : List Bool) :
    form.Holds layout input ↔ (form.demand field).Holds input := by
  simp [ClauseForm.Holds, declared]

instance (layout : Layout) (input : List Bool) (form : ClauseForm) :
    Decidable (form.Holds layout input) :=
  match declared : layout.find? form.name with
  | some _ => decidable_of_iff _ (ClauseForm.holds_iff declared input).symm
  | none => .isFalse (by simp [ClauseForm.Holds, declared])

def Negated : Nat → Prop → Prop
  | 0, condition => condition
  | count + 1, condition => ¬ Negated count condition

def Layout.NamesWithoutNot (layout : Layout) : Prop :=
  ∀ field ∈ layout.fields, ¬ Text.IsNot (field.name.take 3)

instance (layout : Layout) : Decidable layout.NamesWithoutNot :=
  inferInstanceAs (Decidable (∀ field ∈ layout.fields, _))

theorem Layout.NamesWithoutNot.find?_eq_none {layout : Layout} (names : layout.NamesWithoutNot)
    {word : Text} (isNot : word.IsNot) (rest : Text) : layout.find? (word ++ rest) = none := by
  rw [Layout.find?, List.find?_eq_none]
  intro field listed same
  have name : field.name = word ++ rest := by simpa using same
  apply names field listed
  rw [name, ← isNot.length, List.take_left]
  exact isNot

namespace Clause

variable {layout : Layout} {output piece : Text} {span : Span} {clause : Clause}

/-- Which pieces are read, and as what. -/
theorem read_eq_ok_iff :
    read layout output span piece = .ok clause ↔
      (ClauseSpelling.ofPiece piece).body ≠ [] ∧ '<' ∉ (ClauseSpelling.ofPiece piece).body ∧
        ∃ field demand, layout.find? (ClauseSpelling.ofPiece piece).form.name = some field ∧
          (ClauseSpelling.ofPiece piece).form.ask? (ClauseSpelling.ofPiece piece).inverted field =
            some demand ∧
          clause = ⟨demand, (ClauseSpelling.ofPiece piece).text, span⟩ := by
  unfold read
  generalize ClauseSpelling.ofPiece piece = spelling
  simp only
  split
  · rename_i empty
    simp [List.isEmpty_iff.mp empty]
  rename_i nonempty
  split
  · rename_i less
    simp [List.contains_iff_mem.mp less]
  rename_i notLess
  have bare : spelling.body ≠ [] ∧ '<' ∉ spelling.body :=
    ⟨by simpa using nonempty, by simpa using notLess⟩
  split
  · rename_i undeclared
    simp [undeclared]
  rename_i field declared
  simp only [declared, bare, ne_eq, not_false_eq_true, true_and, Option.some.injEq]
  cases shape : spelling.form with
  | level name negated => simp [ClauseForm.ask?, eq_comm]
  | compare comparator name threshold =>
    cases inverted : spelling.inverted <;> simp [ClauseForm.ask?, eq_comm]

theorem text_of_read (found : read layout output span piece = .ok clause) :
    clause.text = (ClauseSpelling.ofPiece piece).text := by
  obtain ⟨-, -, _, _, -, -, rfl⟩ := read_eq_ok_iff.mp found
  rfl

theorem not_read_of_isNot (names : layout.NamesWithoutNot) {word : Text} (isNot : word.IsNot)
    (rest : Text) (body : (ClauseSpelling.ofPiece piece).body = word ++ rest) :
    read layout output span piece ≠ .ok clause := by
  intro found
  obtain ⟨-, -, field, demand, declared, -⟩ := read_eq_ok_iff.mp found
  rcases spelling : ClauseSpelling.ofPiece piece with ⟨inverted, text⟩
  rw [spelling] at body declared
  rw [show text = word ++ rest from body] at declared
  obtain ⟨more, name⟩ := ClauseSpelling.name_form_append isNot inverted rest
  rw [name, names.find?_eq_none isNot] at declared
  cases declared

def Void (piece : Text) : Prop :=
  ∀ word ∈ Text.words piece.bare, word.IsNot

theorem not_read_of_void (names : layout.NamesWithoutNot) (spaced : piece.PlainlySpaced)
    (void : Void piece) : read layout output span piece ≠ .ok clause := by
  have spelling := ClauseSpelling.ofPiece_eq_ofWords spaced
  unfold Void at void
  rcases words : Text.words piece.bare with _ | ⟨first, _ | ⟨second, more⟩⟩
  · intro found
    apply (read_eq_ok_iff.mp found).1
    rw [spelling, words]
    rfl
  · rw [words, List.forall_mem_singleton] at void
    apply not_read_of_isNot names void []
    rw [spelling, words]
    simp [ClauseSpelling.ofWords]
  · rw [words, List.forall_mem_cons, List.forall_mem_cons] at void
    apply not_read_of_isNot names void.2.1 more.flatten
    rw [spelling, words, ClauseSpelling.ofWords, if_pos void.1]
    rfl

/-- A piece with a clause behind a number of `not`s. -/
def Spelled (piece : Text) (item : Nat × ClauseForm) : Prop :=
  ∃ nots text, Text.words piece.bare = nots ++ Text.words text ∧ nots.length = item.1 ∧
    (∀ word ∈ nots, word.IsNot) ∧ item.2.Written text

theorem holds_of_spelled {count : Nat} {form : ClauseForm} (spaced : piece.PlainlySpaced)
    (spelled : Spelled piece (count, form)) (named : ¬ form.name.IsNot)
    (apart : count ≤ 1 ∨ layout.NamesWithoutNot) (found : read layout output span piece = .ok clause)
    (input : List Bool) : clause.demand.Holds input ↔ Negated count (form.Holds layout input) := by
  obtain ⟨nots, text, words, counted, areNots, written⟩ := spelled
  simp only at counted written
  have spelling := ClauseSpelling.ofPiece_eq_ofWords spaced
  rw [words] at spelling
  rcases nots with _ | ⟨not, _ | ⟨second, others⟩⟩
  · obtain ⟨-, -, field, demand, declared, asked, rfl⟩ := read_eq_ok_iff.mp found
    rw [spelling, List.nil_append, ClauseSpelling.ofWords_written written named,
      ClauseSpelling.form_compact written] at declared asked
    have same : form.demand field = demand :=
      Option.some.inj ((ClauseForm.ask?_upright field form).symm.trans asked)
    rw [← counted, ← same]
    exact (ClauseForm.holds_iff declared input).symm
  · rw [List.forall_mem_singleton] at areNots
    obtain ⟨-, -, field, demand, declared, asked, rfl⟩ := read_eq_ok_iff.mp found
    rw [spelling, List.singleton_append, ClauseSpelling.ofWords_not written areNots,
      ClauseSpelling.form_compact written] at declared asked
    rw [← counted]
    show _ ↔ ¬ ClauseForm.Holds layout input _
    rw [ClauseForm.holds_iff declared]
    cases form with
    | level name negated =>
      simp only [ClauseForm.ask?, Option.some.injEq] at asked
      subst asked
      cases negated <;> simp [ClauseForm.demand, Demand.Holds]
    | compare comparator name threshold => cases asked
  · rw [List.forall_mem_cons, List.forall_mem_cons] at areNots
    rcases apart with few | names
    · simp only [List.length_cons] at counted
      omega
    · apply absurd found
      apply not_read_of_isNot names areNots.2.1 (others ++ Text.words text).flatten
      rw [spelling, List.cons_append, List.cons_append, ClauseSpelling.ofWords, if_pos areNots.1]
      rfl

end Clause

end TriggerLogic
