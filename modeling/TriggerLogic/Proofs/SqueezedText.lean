import TriggerLogic.Proofs.PieceReading

namespace TriggerLogic

namespace Text

def spaced (text : Text) : Text :=
  if text.head? = some ' ' then text else ' ' :: text

/-- Every run of plain blanks as one space. -/
def squeeze : Text → Text
  | [] => []
  | c :: rest => if isPlainBlank c then spaced (squeeze rest) else c :: squeeze rest

theorem spaced_of_head {text : Text} (other : text.head? ≠ some ' ') : spaced text = ' ' :: text :=
  if_neg other

theorem spaced_cases (text : Text) :
    (∃ rest, text = ' ' :: rest ∧ spaced text = ' ' :: rest) ∨
      text.head? ≠ some ' ' ∧ spaced text = ' ' :: text := by
  by_cases space : text.head? = some ' '
  · obtain ⟨rest, rfl⟩ := List.head?_eq_some_iff.mp space
    exact .inl ⟨rest, rfl, rfl⟩
  · exact .inr ⟨space, spaced_of_head space⟩

theorem head?_spaced (text : Text) : (spaced text).head? = some ' ' := by
  rcases spaced_cases text with ⟨rest, -, same⟩ | ⟨-, same⟩ <;> rw [same] <;> rfl

theorem spaced_spaced (text : Text) : spaced (spaced text) = spaced text :=
  if_pos (head?_spaced text)

theorem spaced_append {c : Char} (dark : isPlainBlank c = false) (first rest : Text) :
    spaced (first ++ c :: rest) = spaced first ++ c :: rest := by
  have other : c ≠ ' ' := by
    rintro rfl
    cases dark
  cases first with
  | nil => exact spaced_of_head (by simpa using other)
  | cons d first =>
    rcases spaced_cases (d :: first) with ⟨more, same, shown⟩ | ⟨differs, shown⟩
    · rw [shown, same]
      rfl
    · rw [shown]
      exact spaced_of_head differs

theorem squeeze_dark {c : Char} (dark : isPlainBlank c = false) (rest : Text) :
    squeeze (c :: rest) = c :: squeeze rest := by
  rw [squeeze, dark, if_neg Bool.false_ne_true]

theorem squeeze_blank {c : Char} (plain : isPlainBlank c = true) (rest : Text) :
    squeeze (c :: rest) = spaced (squeeze rest) := by
  rw [squeeze, if_pos plain]

/-- Squeezing goes run by run: behind a blank the text begins with one space, any other character
stays. -/
theorem squeeze_induction {motive : Text → Prop} (nil : motive [])
    (dark : ∀ c rest, isPlainBlank c = false → motive rest → motive (c :: rest))
    (blank : ∀ c rest, isPlainBlank c = true → motive rest → motive (c :: rest)) (text : Text) :
    motive text := by
  induction text with
  | nil => exact nil
  | cons c rest ih =>
    cases plain : isPlainBlank c with
    | false => exact dark c rest plain ih
    | true => exact blank c rest plain ih

section Append

theorem squeeze_squeeze_append (first second : Text) :
    squeeze (squeeze first ++ second) = squeeze (first ++ second) := by
  induction first using squeeze_induction with
  | nil => rfl
  | dark c rest dark ih =>
    rw [squeeze_dark dark, List.cons_append, List.cons_append, squeeze_dark dark, squeeze_dark dark, ih]
  | blank c rest plain ih =>
    rw [squeeze_blank plain, List.cons_append, squeeze_blank plain, ← ih]
    rcases spaced_cases (squeeze rest) with ⟨more, same, shown⟩ | ⟨-, shown⟩
    · rw [shown, same, List.cons_append, squeeze_blank (by decide), spaced_spaced]
    · rw [shown, List.cons_append, squeeze_blank (by decide)]

theorem squeeze_squeeze (text : Text) : squeeze (squeeze text) = squeeze text := by
  simpa using squeeze_squeeze_append text []

theorem squeeze_append_squeeze (first second : Text) :
    squeeze (first ++ squeeze second) = squeeze (first ++ second) := by
  induction first using squeeze_induction with
  | nil => exact squeeze_squeeze second
  | dark c rest dark ih =>
    rw [List.cons_append, List.cons_append, squeeze_dark dark, squeeze_dark dark, ih]
  | blank c rest plain ih =>
    rw [List.cons_append, List.cons_append, squeeze_blank plain, squeeze_blank plain, ih]

theorem squeeze_append_congr {first second other more : Text} (front : squeeze first = squeeze other)
    (back : squeeze second = squeeze more) : squeeze (first ++ second) = squeeze (other ++ more) := by
  rw [← squeeze_squeeze_append, ← squeeze_append_squeeze, front, back, squeeze_append_squeeze,
    squeeze_squeeze_append]

theorem squeeze_append_dark {c : Char} (dark : isPlainBlank c = false) (first rest : Text) :
    squeeze (first ++ c :: rest) = squeeze first ++ c :: squeeze rest := by
  induction first using squeeze_induction with
  | nil => exact squeeze_dark dark rest
  | dark d first other ih =>
    rw [List.cons_append, squeeze_dark other, squeeze_dark other, ih, List.cons_append]
  | blank d first plain ih =>
    rw [List.cons_append, squeeze_blank plain, squeeze_blank plain, ih, spaced_append dark]

theorem squeeze_word_append {word : Text} (dark : ∀ c ∈ word, isPlainBlank c = false) (rest : Text) :
    squeeze (word ++ rest) = word ++ squeeze rest := by
  induction word with
  | nil => rfl
  | cons c word ih =>
    rw [List.forall_mem_cons] at dark
    rw [List.cons_append, squeeze_dark dark.1, ih dark.2, List.cons_append]

theorem squeeze_of_dark {text : Text} (dark : ∀ c ∈ text, isPlainBlank c = false) :
    squeeze text = text := by
  simpa [squeeze] using squeeze_word_append dark []

theorem exists_of_squeeze_eq_append {word text rest : Text}
    (dark : ∀ c ∈ word, isPlainBlank c = false) (same : squeeze text = word ++ rest) :
    ∃ more, text = word ++ more ∧ squeeze more = rest := by
  induction word generalizing text with
  | nil => exact ⟨text, rfl, same⟩
  | cons c word ih =>
    rw [List.forall_mem_cons] at dark
    cases text with
    | nil => cases same
    | cons d text =>
      cases plain : isPlainBlank d with
      | false =>
        rw [squeeze_dark plain, List.cons_append] at same
        obtain ⟨more, tail, squeezed⟩ := ih dark.2 (List.cons.inj same).2
        exact ⟨more, by rw [(List.cons.inj same).1, tail, List.cons_append], squeezed⟩
      | true =>
        have space := head?_spaced (squeeze text)
        rw [← squeeze_blank plain, same, List.cons_append, List.head?_cons, Option.some.injEq] at space
        rw [space] at dark
        cases dark.1

theorem mem_squeeze {c : Char} (dark : isPlainBlank c = false) (text : Text) :
    c ∈ squeeze text ↔ c ∈ text := by
  induction text using squeeze_induction with
  | nil => rfl
  | dark d rest other ih => rw [squeeze_dark other, List.mem_cons, List.mem_cons, ih]
  | blank d rest plain ih =>
    have differs : ∀ {e : Char}, isPlainBlank e = true → c ≠ e := by
      rintro e blank rfl
      rw [blank] at dark
      cases dark
    have inSpaced : c ∈ spaced (squeeze rest) ↔ c ∈ squeeze rest := by
      rcases spaced_cases (squeeze rest) with ⟨more, same, shown⟩ | ⟨-, shown⟩
      · rw [shown, same]
      · simp [shown, differs (e := ' ') (by decide)]
    rw [squeeze_blank plain, inSpaced, ih]
    simp [differs plain]

theorem eq_nil_of_squeeze {text : Text} (gone : squeeze text = []) : text = [] := by
  cases text with
  | nil => rfl
  | cons c rest =>
    cases plain : isPlainBlank c with
    | false =>
      rw [squeeze_dark plain] at gone
      cases gone
    | true =>
      have space := head?_spaced (squeeze rest)
      rw [← squeeze_blank plain, gone] at space
      cases space

theorem eq_of_squeeze_eq {text other : Text} (dark : ∀ c ∈ text, isPlainBlank c = false)
    (same : squeeze text = squeeze other) : text = other := by
  have shown : squeeze other = text ++ [] := by rw [← same, squeeze_of_dark dark, List.append_nil]
  obtain ⟨more, whole, gone⟩ := exists_of_squeeze_eq_append dark shown
  rw [whole, eq_nil_of_squeeze gone, List.append_nil]

theorem squeeze_gap {gap : Text} (isGap : gap.Gap) : squeeze gap = [' '] := by
  obtain ⟨nonempty, plain⟩ := isGap
  induction gap with
  | nil => exact absurd rfl nonempty
  | cons c gap ih =>
    rw [PlainBlank, List.forall_mem_cons] at plain
    rw [squeeze_blank plain.1]
    by_cases last : gap = []
    · rw [last]
      rfl
    · rw [ih last plain.2]
      rfl

end Append

section Blanks

theorem AllBlank.squeeze {text : Text} (blank : text.AllBlank) : (squeeze text).AllBlank := by
  induction text using squeeze_induction with
  | nil => exact allBlank_nil
  | dark c rest dark ih =>
    rw [AllBlank, List.forall_mem_cons] at blank
    rw [squeeze_dark dark]
    exact List.forall_mem_cons.mpr ⟨blank.1, ih blank.2⟩
  | blank c rest plain ih =>
    rw [AllBlank, List.forall_mem_cons] at blank
    rw [squeeze_blank plain]
    rcases spaced_cases (Text.squeeze rest) with ⟨more, same, shown⟩ | ⟨-, shown⟩
    · rw [shown, ← same]
      exact ih blank.2
    · rw [shown]
      exact List.forall_mem_cons.mpr ⟨by decide, ih blank.2⟩

theorem Solid.squeeze {text : Text} (solid : text.Solid) : (squeeze text).Solid := by
  obtain ⟨⟨c, rest, begins, dark⟩, front, d, ends, darkEnd⟩ := solid
  constructor
  · exact ⟨c, Text.squeeze rest, by rw [begins, squeeze_dark (isPlainBlank_of_dark dark)], dark⟩
  · exact ⟨Text.squeeze front, d, by
      rw [ends, squeeze_append_dark (isPlainBlank_of_dark darkEnd)]
      rfl, darkEnd⟩

theorem squeeze_around {core : Text} (solid : core.Solid) (lead tail : Text) :
    squeeze (lead ++ core ++ tail) = squeeze lead ++ squeeze core ++ squeeze tail := by
  obtain ⟨⟨c, rest, begins, dark⟩, front, d, ends, darkEnd⟩ := solid
  have darkFirst := isPlainBlank_of_dark dark
  have darkLast := isPlainBlank_of_dark darkEnd
  have opened : squeeze (lead ++ core) = squeeze lead ++ squeeze core := by
    rw [begins, squeeze_append_dark darkFirst, squeeze_dark darkFirst]
  have closed : squeeze (lead ++ core ++ tail) = squeeze (lead ++ core) ++ squeeze tail := by
    rw [ends, List.append_assoc lead, List.append_assoc front, List.singleton_append,
      ← List.append_assoc, squeeze_append_dark darkLast, ← List.append_assoc,
      squeeze_append_dark darkLast, List.append_assoc]
    rfl
  rw [closed, opened]

theorem trim_squeeze (text : Text) : trim (squeeze text) = squeeze (trim text) := by
  rcases allBlank_or_solid text with blank | ⟨lead, core, tail, rfl, leadBlank, solid, tailBlank⟩
  · rw [trim_of_allBlank blank, trim_of_allBlank blank.squeeze]
    rfl
  · rw [squeeze_around solid, trim_of_solid leadBlank solid tailBlank,
      trim_of_solid leadBlank.squeeze solid.squeeze tailBlank.squeeze]

theorem trim_congr {text other : Text} (same : squeeze text = squeeze other)
    (dark : ∀ c ∈ trim text, isPlainBlank c = false) : trim text = trim other := by
  apply eq_of_squeeze_eq dark
  rw [← trim_squeeze, same, trim_squeeze]

theorem compact_squeeze (text : Text) : compact (squeeze text) = compact text := by
  induction text using squeeze_induction with
  | nil => rfl
  | dark c rest dark ih =>
    rw [squeeze_dark dark, ← List.singleton_append, compact_append, ih, ← compact_append]
    rfl
  | blank c rest plain ih =>
    have gone : compact (c :: rest) = compact rest :=
      List.filter_cons_of_neg (by simp [isBlank_of_isPlainBlank plain])
    rw [squeeze_blank plain, gone, ← ih]
    rcases spaced_cases (squeeze rest) with ⟨more, same, shown⟩ | ⟨-, shown⟩
    · rw [shown, same]
    · rw [shown]
      exact List.filter_cons_of_neg (by decide)

theorem squeeze_filter {p : Char → Bool} (keeps : ∀ c, isPlainBlank c = true → p c = true)
    (text : Text) : squeeze ((squeeze text).filter p) = squeeze (text.filter p) := by
  induction text using squeeze_induction with
  | nil => rfl
  | dark c rest dark ih =>
    rw [squeeze_dark dark, List.filter_cons, List.filter_cons]
    split
    · rw [squeeze_dark dark, squeeze_dark dark, ih]
    · exact ih
  | blank c rest plain ih =>
    rw [squeeze_blank plain, List.filter_cons_of_pos (keeps c plain), squeeze_blank plain, ← ih]
    have space : p ' ' = true := keeps ' ' (by decide)
    rcases spaced_cases (squeeze rest) with ⟨more, same, shown⟩ | ⟨-, shown⟩
    · rw [shown, same, List.filter_cons_of_pos space, squeeze_blank (by decide), spaced_spaced]
    · rw [shown, List.filter_cons_of_pos space, squeeze_blank (by decide)]

end Blanks

section Cuts

theorem cut_spaced {cut : Text → Option (Text × Text)} {text : Text}
    (passes : ∀ rest, cut (' ' :: rest) = (cut rest).map (Prod.map (' ' :: ·) id))
    (front : ∀ parts, cut text = some parts → parts.1 <+: text) :
    cut (spaced text) = (cut text).map (Prod.map spaced id) := by
  rcases spaced_cases text with ⟨rest, rfl, shown⟩ | ⟨other, shown⟩
  · rw [shown, passes, Option.map_map]
    rfl
  · rw [shown, passes]
    cases found : cut text with
    | none => rfl
    | some parts =>
      have differs : parts.1.head? ≠ some ' ' := by
        intro space
        obtain ⟨rest, same⟩ := List.head?_eq_some_iff.mp space
        obtain ⟨more, rfl⟩ := front parts found
        rw [same] at other
        exact other rfl
      rw [Option.map_some, Option.map_some, Prod.map, Prod.map, spaced_of_head differs]

theorem isPrefix_squeeze_iff {word text : Text} (dark : ∀ c ∈ word, isPlainBlank c = false) :
    word <+: squeeze text ↔ word <+: text := by
  constructor
  · rintro ⟨rest, same⟩
    obtain ⟨more, rfl, -⟩ := exists_of_squeeze_eq_append dark same.symm
    exact ⟨more, rfl⟩
  · rintro ⟨rest, rfl⟩
    exact ⟨squeeze rest, (squeeze_word_append dark rest).symm⟩

theorem cut?_squeeze {c : Char} {mark : Text} (dark : ∀ d ∈ c :: mark, isPlainBlank d = false)
    (text : Text) :
    cut? (c :: mark) (squeeze text) = (cut? (c :: mark) text).map (Prod.map squeeze squeeze) := by
  have passes : ∀ (d : Char) (rest : Text), isPlainBlank d = true →
      cut? (c :: mark) (d :: rest) = (cut? (c :: mark) rest).map (Prod.map (d :: ·) id) := by
    intro d rest plain
    have other : (c == d) = false := by
      rw [beq_eq_false_iff_ne]
      rintro rfl
      rw [dark c List.mem_cons_self] at plain
      cases plain
    rw [cut?, List.isPrefixOf_cons_cons, other]
    rfl
  induction text using squeeze_induction with
  | nil => rfl
  | dark d rest other ih =>
    have found : (c :: mark).isPrefixOf (squeeze (d :: rest)) = (c :: mark).isPrefixOf (d :: rest) := by
      rw [Bool.eq_iff_iff, List.isPrefixOf_iff_prefix, List.isPrefixOf_iff_prefix]
      exact isPrefix_squeeze_iff dark
    rw [squeeze_dark other] at found ⊢
    rw [cut?, cut?, found]
    split
    · rename_i starts
      obtain ⟨more, whole⟩ := List.isPrefixOf_iff_prefix.mp starts
      have squeezed := squeeze_word_append dark more
      rw [whole, squeeze_dark other] at squeezed
      rw [squeezed, ← whole, List.drop_left, List.drop_left]
      rfl
    · rw [ih, Option.map_map, Option.map_map]
      congr 1
      funext parts
      simp only [Function.comp_apply, Prod.map, squeeze_dark other]
  | blank d rest plain ih =>
    have front : ∀ parts, cut? (c :: mark) (squeeze rest) = some parts → parts.1 <+: squeeze rest := by
      intro parts found
      exact ⟨(c :: mark) ++ parts.2, by rw [← List.append_assoc]; exact (cut?_eq_some found).symm⟩
    rw [squeeze_blank plain, cut_spaced (fun rest => passes ' ' rest (by decide)) front, ih,
      passes d rest plain, Option.map_map, Option.map_map]
    congr 1
    funext parts
    simp only [Function.comp_apply, Prod.map, squeeze_blank plain, id_eq]

theorem squeeze_parts {c : Char} {part rest front back : Text} (dark : isPlainBlank c = false)
    (single : c ∉ part) (singleFront : c ∉ front)
    (same : squeeze (part ++ c :: rest) = squeeze (front ++ c :: back)) :
    squeeze part = squeeze front ∧ squeeze rest = squeeze back := by
  rw [← mem_squeeze dark] at single singleFront
  rw [squeeze_append_dark dark, squeeze_append_dark dark, List.append_cons,
    List.append_cons (squeeze front)] at same
  have cut := congrArg (cut? [c]) same
  rw [cut?_append single, cut?_append singleFront] at cut
  exact Prod.mk.inj (Option.some.inj cut)

end Cuts

section Keywords

variable {keyword : Text} (isKeyword : IsKeyword keyword)

include isKeyword

theorem IsKeyword.plain_of_spelled {word : Text} (spelled : lower word = lower keyword) :
    ∀ c ∈ word, isPlainBlank c = false := by
  intro c member
  have dark := isKeyword.dark_of_spelled spelled c member
  rw [isDelimiter, Bool.or_assoc, Bool.or_eq_false_iff] at dark
  exact dark.1

theorem drop_squeeze {text : Text} (spelled : lower (text.take keyword.length) = lower keyword) :
    (squeeze text).take keyword.length = text.take keyword.length ∧
      (squeeze text).drop keyword.length = squeeze (text.drop keyword.length) := by
  have length := length_of_spelled spelled
  have split := squeeze_word_append (isKeyword.plain_of_spelled spelled) (text.drop keyword.length)
  rw [List.take_append_drop] at split
  rw [split]
  exact ⟨List.take_left' length, List.drop_left' length⟩

theorem spelled_squeeze (text : Text) :
    (lower ((squeeze text).take keyword.length) == lower keyword) =
      (lower (text.take keyword.length) == lower keyword) := by
  rw [Bool.eq_iff_iff, beq_iff_eq, beq_iff_eq]
  constructor
  · intro spelled
    have length := length_of_spelled spelled
    obtain ⟨more, whole, -⟩ := exists_of_squeeze_eq_append (isKeyword.plain_of_spelled spelled)
      (List.take_append_drop keyword.length (squeeze text)).symm
    rw [whole, List.take_left' length, spelled]
  · intro spelled
    rw [(drop_squeeze isKeyword spelled).1, spelled]

omit isKeyword in
theorem head?_squeeze {p : Char → Bool} (holds : ∀ c, isPlainBlank c = true → p c = true)
    (text : Text) :
    (squeeze text).head?.all p = text.head?.all p ∧ (squeeze text).head?.any p = text.head?.any p := by
  cases text with
  | nil => exact ⟨rfl, rfl⟩
  | cons c rest =>
    cases plain : isPlainBlank c with
    | false =>
      rw [squeeze_dark plain]
      exact ⟨rfl, rfl⟩
    | true =>
      rw [squeeze_blank plain, head?_spaced]
      simp [holds c plain, holds ' ' (by decide)]

theorem startsWithKeyword_squeeze (text : Text) :
    startsWithKeyword keyword (squeeze text) = startsWithKeyword keyword text := by
  unfold startsWithKeyword
  rw [spelled_squeeze isKeyword]
  cases spelled : lower (text.take keyword.length) == lower keyword with
  | false => rfl
  | true =>
    rw [(drop_squeeze isKeyword (beq_iff_eq.mp spelled)).2,
      (head?_squeeze (fun _ => isDelimiter_of_isPlainBlank) _).1]

theorem afterKeyword?_squeeze (text : Text) :
    afterKeyword? keyword (squeeze text) = (afterKeyword? keyword text).map squeeze := by
  unfold afterKeyword?
  rw [spelled_squeeze isKeyword]
  cases spelled : lower (text.take keyword.length) == lower keyword with
  | false => rfl
  | true =>
    rw [(drop_squeeze isKeyword (beq_iff_eq.mp spelled)).2]
    simp only [Bool.true_and, (head?_squeeze (fun _ => id) _).2]
    split <;> rfl

theorem cutKeyword?_blank {c : Char} (plain : isPlainBlank c = true) (opened : Bool) (rest : Text) :
    cutKeyword? keyword opened (c :: rest) =
      (cutKeyword? keyword true rest).map (Prod.map (c :: ·) id) :=
  cutKeyword?_append isKeyword (isDelimiter_of_isPlainBlank plain) opened [] rest

theorem cutKeyword?_squeeze (opened : Bool) (text : Text) :
    cutKeyword? keyword opened (squeeze text) =
      (cutKeyword? keyword opened text).map (Prod.map squeeze squeeze) := by
  induction text using squeeze_induction generalizing opened with
  | nil => rfl
  | dark c rest dark ih =>
    have starts := startsWithKeyword_squeeze isKeyword (c :: rest)
    rw [squeeze_dark dark] at starts ⊢
    rw [cutKeyword?, cutKeyword?, starts]
    split
    · rename_i found
      simp only [startsWithKeyword, Bool.and_eq_true, beq_iff_eq] at found
      rw [← squeeze_dark dark, (drop_squeeze isKeyword found.2.1).2]
      rfl
    · rw [ih, Option.map_map, Option.map_map]
      congr 1
      funext parts
      simp only [Function.comp_apply, Prod.map, squeeze_dark dark]
  | blank c rest plain ih =>
    have front : ∀ parts, cutKeyword? keyword true (squeeze rest) = some parts →
        parts.1 <+: squeeze rest := by
      intro parts found
      obtain ⟨word, whole, -⟩ := cutKeyword?_eq_some found
      exact ⟨word ++ parts.2, by rw [← List.append_assoc]; exact whole.symm⟩
    have space := cut_spaced (cutKeyword?_blank isKeyword (c := ' ') (by decide) true) front
    have closed : cutKeyword? keyword opened (spaced (squeeze rest)) =
        cutKeyword? keyword true (spaced (squeeze rest)) := by
      obtain ⟨more, same⟩ := List.head?_eq_some_iff.mp (head?_spaced (squeeze rest))
      rw [same, cutKeyword?_blank isKeyword (by decide), cutKeyword?_blank isKeyword (by decide)]
    rw [squeeze_blank plain, closed, space, ih, cutKeyword?_blank isKeyword plain, Option.map_map,
      Option.map_map]
    congr 1
    funext parts
    simp only [Function.comp_apply, Prod.map, squeeze_blank plain, id_eq]

theorem pieces_squeeze (opened : Bool) (text : Text) :
    pieces keyword opened (squeeze text) = (pieces keyword opened text).map squeeze := by
  induction length : text.length using Nat.strongRecOn generalizing text opened with
  | _ n ih =>
    rw [pieces_eq _ _ _ isKeyword.nonempty, pieces_eq _ _ text isKeyword.nonempty,
      cutKeyword?_squeeze isKeyword]
    cases found : cutKeyword? keyword opened text with
    | none => rfl
    | some parts =>
      obtain ⟨before, after⟩ := parts
      obtain ⟨word, whole, spelled⟩ := cutKeyword?_eq_some found
      have shorter : after.length < n := by
        have positive := List.length_pos_iff.mpr (isKeyword.ne_nil_of_spelled spelled)
        rw [whole, List.length_append, List.length_append] at length
        omega
      simp only [Option.map_some, Prod.map, List.map_cons]
      rw [ih _ shorter _ _ rfl]

end Keywords

end Text

namespace ClauseSpelling

theorem ofPiece_eq (piece : Text) :
    ofPiece piece =
      (((Text.afterKeyword? ['n', 'o', 't'] (Text.trim piece.bare)).map Text.compact).map (mk true)).getD
        ⟨false, Text.compact (Text.trim piece.bare)⟩ := by
  rw [ofPiece_bare]
  cases Text.afterKeyword? ['n', 'o', 't'] (Text.trim piece.bare) <;> rfl

theorem ofPiece_squeeze (piece : Text) : ofPiece (Text.squeeze piece) = ofPiece piece := by
  have keeps : ∀ c, Text.isPlainBlank c = true → (c != '(' && c != ')') = true := by
    intro c plain
    simp only [Text.isPlainBlank, Bool.or_eq_true, beq_iff_eq] at plain
    rcases plain with (((rfl | rfl) | rfl) | rfl) | rfl <;> decide
  have bare : Text.squeeze (Text.trim (Text.squeeze piece).bare) =
      Text.squeeze (Text.trim piece.bare) := by
    rw [← Text.trim_squeeze, ← Text.trim_squeeze, Text.bare, Text.bare, Text.squeeze_filter keeps]
  have spelled : ∀ text, (Text.afterKeyword? ['n', 'o', 't'] text).map Text.compact =
      (Text.afterKeyword? ['n', 'o', 't'] (Text.squeeze text)).map Text.compact := by
    intro text
    rw [Text.afterKeyword?_squeeze Text.isKeyword_not, Option.map_map]
    congr 1
    funext rest
    exact (Text.compact_squeeze rest).symm
  rw [ofPiece_eq, ofPiece_eq, spelled, spelled (Text.trim piece.bare), bare, ← Text.compact_squeeze,
    bare, Text.compact_squeeze]

end ClauseSpelling

namespace Condition

theorem isUnconditional_squeeze (rhs : Text) :
    isUnconditional (Text.squeeze rhs) = isUnconditional rhs := by
  have level : ∀ text : Text, (∀ c ∈ text, Text.isPlainBlank c = false) →
      (Text.trim (Text.squeeze rhs) == text) = (Text.trim rhs == text) := by
    intro text dark
    rw [Bool.eq_iff_iff, beq_iff_eq, beq_iff_eq, Text.trim_squeeze]
    constructor
    · intro same
      exact (Text.eq_of_squeeze_eq dark (by rw [same, Text.squeeze_of_dark dark])).symm
    · intro same
      rw [same, Text.squeeze_of_dark dark]
  rw [isUnconditional, isUnconditional, Text.cutKeyword?_squeeze Text.isKeyword_when, Option.isNone_map,
    level _ (by decide), level _ (by decide)]

theorem afterWhen_squeeze (rhs : Text) :
    (afterWhen (Text.squeeze rhs)).opened = (afterWhen rhs).opened ∧
      (afterWhen (Text.squeeze rhs)).text = Text.squeeze (afterWhen rhs).text := by
  unfold afterWhen
  rw [Text.cutKeyword?_squeeze Text.isKeyword_when]
  cases Text.cutKeyword? ['w', 'h', 'e', 'n'] true rhs <;> exact ⟨rfl, rfl⟩

theorem extent_squeeze (rhs : Text) :
    (extent (Text.squeeze rhs)).opened = (extent rhs).opened ∧
      (extent (Text.squeeze rhs)).text = Text.squeeze (extent rhs).text := by
  obtain ⟨opened, text⟩ := afterWhen_squeeze rhs
  unfold extent
  simp only [opened, text, Text.cutKeyword?_squeeze Text.isKeyword_else]
  cases Text.cutKeyword? ['e', 'l', 's', 'e'] (afterWhen rhs).opened (afterWhen rhs).text with
  | none => exact ⟨opened, text⟩
  | some parts => exact ⟨rfl, rfl⟩

end Condition

end TriggerLogic
