import Mathlib.Data.List.TakeWhile
import TriggerLogic.Proofs.TextRoundTrip
import TriggerLogic.Text.Word

namespace TriggerLogic.Text

-- Without it, what holds of a text may get decided by a search through every character there is.
instance decidableForallMem (text : Text) (p : Char → Prop) [DecidablePred p] :
    Decidable (∀ c ∈ text, p c) :=
  List.decidableBAll p text

instance (text : Text) : Decidable text.AllBlank :=
  inferInstanceAs (Decidable (∀ c ∈ text, _))

section Words

theorem words_append_blank {c : Char} (blank : isBlank c = true) (first second : Text) :
    words (first ++ c :: second) = words first ++ words second := by
  rw [words, List.splitOnP_append_cons first second blank, List.filter_append]
  rfl

theorem words_blank_cons {c : Char} (blank : isBlank c = true) (text : Text) :
    words (c :: text) = words text :=
  words_append_blank blank [] text

theorem words_of_dark {text : Text} (nonempty : text ≠ []) (dark : ∀ c ∈ text, isBlank c = false) :
    words text = [text] := by
  rw [words, List.splitOnP_eq_singleton dark]
  simp [nonempty]

theorem words_allBlank_append {blanks : Text} (blank : blanks.AllBlank) (text : Text) :
    words (blanks ++ text) = words text := by
  induction blanks with
  | nil => rfl
  | cons c blanks ih =>
    rw [List.cons_append, words_blank_cons (blank c List.mem_cons_self)]
    exact ih fun d member => blank d (List.mem_cons_of_mem _ member)

theorem words_of_allBlank {text : Text} (blank : text.AllBlank) : words text = [] := by
  have alone := words_allBlank_append blank []
  rw [List.append_nil] at alone
  exact alone

theorem words_append_allBlank {blanks : Text} (blank : blanks.AllBlank) (text : Text) :
    words (text ++ blanks) = words text := by
  cases blanks with
  | nil => rw [List.append_nil]
  | cons c blanks =>
    have others : words blanks = [] :=
      words_of_allBlank fun d member => blank d (List.mem_cons_of_mem c member)
    rw [words_append_blank (blank c List.mem_cons_self), others, List.append_nil]

/-- A word ends where a blank follows or nothing does. -/
theorem words_dark_append {word rest : Text} (nonempty : word ≠ [])
    (dark : ∀ c ∈ word, isBlank c = false) (ends : rest.head?.all isBlank = true) :
    words (word ++ rest) = word :: words rest := by
  cases rest with
  | nil =>
    rw [List.append_nil, words_of_dark nonempty dark]
    rfl
  | cons c rest =>
    have blank : isBlank c = true := by simpa using ends
    rw [words_append_blank blank, words_blank_cons blank, words_of_dark nonempty dark]
    rfl

theorem words_cases (text : Text) :
    text.AllBlank ∨
      ∃ lead word rest, text = lead ++ word ++ rest ∧ lead.AllBlank ∧ word ≠ [] ∧
        (∀ c ∈ word, isBlank c = false) ∧ rest.head?.all isBlank = true := by
  induction text with
  | nil => exact .inl allBlank_nil
  | cons c text ih =>
    by_cases blank : isBlank c = true
    · rcases ih with allBlank | ⟨lead, word, rest, rfl, leadBlank, facts⟩
      · exact .inl (List.forall_mem_cons.mpr ⟨blank, allBlank⟩)
      · exact .inr ⟨c :: lead, word, rest, rfl, List.forall_mem_cons.mpr ⟨blank, leadBlank⟩, facts⟩
    · rw [Bool.not_eq_true] at blank
      right
      rcases ih with allBlank | ⟨lead, word, rest, rfl, leadBlank, nonempty, dark, ends⟩
      · refine ⟨[], [c], text, rfl, allBlank_nil, List.cons_ne_nil _ _, by simpa using blank, ?_⟩
        cases text with
        | nil => rfl
        | cons d text => simpa using allBlank d List.mem_cons_self
      · cases lead with
        | nil =>
          exact ⟨[], c :: word, rest, rfl, allBlank_nil, List.cons_ne_nil _ _,
            List.forall_mem_cons.mpr ⟨blank, dark⟩, ends⟩
        | cons d lead =>
          exact ⟨[], [c], d :: lead ++ word ++ rest, rfl, allBlank_nil, List.cons_ne_nil _ _,
            by simpa using blank, by simpa using leadBlank d List.mem_cons_self⟩

theorem compact_append (first second : Text) :
    compact (first ++ second) = compact first ++ compact second :=
  List.filter_append ..

theorem compact_blank_cons {c : Char} (blank : isBlank c = true) (rest : Text) :
    compact (c :: rest) = compact rest := by
  simp [compact, blank]

theorem compact_of_allBlank {text : Text} (blank : text.AllBlank) : compact text = [] := by
  simp only [compact, List.filter_eq_nil_iff, Bool.not_eq_true, Bool.not_eq_false']
  exact blank

theorem compact_of_dark {text : Text} (dark : ∀ c ∈ text, isBlank c = false) :
    compact text = text := by
  simp only [compact, List.filter_eq_self, Bool.not_eq_true']
  exact dark

theorem compact_eq_flatten_words (text : Text) : compact text = (words text).flatten := by
  induction length : text.length using Nat.strongRecOn generalizing text with
  | _ n ih =>
    rcases words_cases text with blank | ⟨lead, word, rest, rfl, leadBlank, nonempty, dark, ends⟩
    · rw [compact_of_allBlank blank, words_of_allBlank blank, List.flatten_nil]
    · have shorter : rest.length < n := by
        have positive := List.length_pos_iff.mpr nonempty
        simp only [List.length_append] at length
        omega
      rw [List.append_assoc, words_allBlank_append leadBlank, words_dark_append nonempty dark ends,
        compact_append, compact_append, compact_of_allBlank leadBlank, compact_of_dark dark,
        ih _ shorter rest rfl]
      rfl

end Words

section Trim

variable {p : Char → Bool}

theorem dropEndWhile_append {first second : Text} (stays : ∃ c ∈ second, p c = false) :
    dropEndWhile p (first ++ second) = first ++ dropEndWhile p second := by
  obtain ⟨c, member, dark⟩ := stays
  have some : (second.reverse.dropWhile p).isEmpty = false := by
    rw [Bool.eq_false_iff, ne_eq, List.isEmpty_iff, List.dropWhile_eq_nil_iff]
    intro all
    have satisfied := all c (List.mem_reverse.mpr member)
    rw [dark] at satisfied
    cases satisfied
  rw [dropEndWhile, dropEndWhile, List.reverse_append, List.dropWhile_append, some]
  simp

theorem dropEndWhile_append_of_forall {first second : Text} (drops : ∀ c ∈ second, p c = true) :
    dropEndWhile p (first ++ second) = dropEndWhile p first := by
  rw [dropEndWhile, dropEndWhile, List.reverse_append, List.dropWhile_append_of_pos]
  intro c member
  exact drops c (List.mem_reverse.mp member)

theorem dropEndWhile_last {c : Char} (stays : p c = false) (front : Text) :
    dropEndWhile p (front ++ [c]) = front ++ [c] := by
  rw [dropEndWhile_append ⟨c, List.mem_singleton_self c, stays⟩]
  simp [dropEndWhile, stays]

theorem dropEndWhile_cons {c : Char} (stays : p c = false) (rest : Text) :
    dropEndWhile p (c :: rest) = c :: dropEndWhile p rest := by
  by_cases other : ∃ d ∈ rest, p d = false
  · exact @dropEndWhile_append p [c] rest other
  · have drops : ∀ d ∈ rest, p d = true := by
      intro d member
      rw [← Bool.not_eq_false]
      exact fun kept => other ⟨d, member, kept⟩
    have alone : dropEndWhile p (c :: rest) = dropEndWhile p [c] :=
      @dropEndWhile_append_of_forall p [c] rest drops
    have none : dropEndWhile p rest = [] := @dropEndWhile_append_of_forall p [] rest drops
    rw [alone, none]
    simp [dropEndWhile, stays]

theorem exists_dropEndWhile (p : Char → Bool) (text : Text) :
    ∃ dropped, text = dropEndWhile p text ++ dropped ∧ ∀ c ∈ dropped, p c = true := by
  refine ⟨(text.reverse.takeWhile p).reverse, ?_, ?_⟩
  · rw [dropEndWhile, ← List.reverse_append, List.takeWhile_append_dropWhile, List.reverse_reverse]
  · intro c member
    have all := List.all_takeWhile (p := p) (l := text.reverse)
    exact List.all_eq_true.mp all c (List.mem_reverse.mp member)

theorem strip_append {lead tail : Text} (dropLead : ∀ c ∈ lead, p c = true)
    (dropTail : ∀ c ∈ tail, p c = true) (text : Text) :
    strip p (lead ++ text ++ tail) = strip p text := by
  rw [strip, strip, List.append_assoc, List.dropWhile_append_of_pos dropLead]
  by_cases all : ∀ c ∈ text, p c = true
  · have gone : (text ++ tail).dropWhile p = [] :=
      List.dropWhile_eq_nil_iff.mpr (List.forall_mem_append.mpr ⟨all, dropTail⟩)
    have goneText : text.dropWhile p = [] := List.dropWhile_eq_nil_iff.mpr all
    rw [gone, goneText]
  · have some : ¬ (text.dropWhile p).isEmpty = true := by
      rw [List.isEmpty_iff, List.dropWhile_eq_nil_iff]
      exact all
    have kept : (text ++ tail).dropWhile p = text.dropWhile p ++ tail := by
      rw [List.dropWhile_append, if_neg some]
    rw [kept, dropEndWhile_append_of_forall dropTail]

theorem strip_eq_self {text : Text} (first : ∀ c, text.head? = some c → p c = false)
    (last : ∀ c, text.getLast? = some c → p c = false) : strip p text = text := by
  have start : text.dropWhile p = text := by
    cases text with
    | nil => rfl
    | cons c rest => exact List.dropWhile_cons_of_neg (by simp [first c rfl])
  rw [strip, start]
  rcases List.eq_nil_or_concat' text with rfl | ⟨front, c, rfl⟩
  · rfl
  · exact dropEndWhile_last (last c List.getLast?_concat) front

theorem strip_eq_nil_iff {text : Text} : strip p text = [] ↔ ∀ c ∈ text, p c = true := by
  constructor
  · intro gone
    by_contra kept
    obtain ⟨c, rest, front⟩ := List.exists_cons_of_ne_nil (mt List.dropWhile_eq_nil_iff.mp kept)
    have stays : p c = false := by
      have stopped := List.head?_dropWhile_not p text
      rw [front] at stopped
      simpa using stopped
    rw [strip, front, dropEndWhile_cons stays] at gone
    cases gone
  · intro all
    rw [strip, List.dropWhile_eq_nil_iff.mpr all]
    rfl

theorem strip_subset (p : Char → Bool) (text : Text) : strip p text ⊆ text := by
  obtain ⟨dropped, whole, -⟩ := exists_dropEndWhile p (text.dropWhile p)
  intro c member
  apply (List.dropWhile_suffix p).subset
  rw [whole]
  exact List.mem_append_left dropped member

theorem exists_trim (text : Text) :
    ∃ lead tail, text = lead ++ trim text ++ tail ∧ lead.AllBlank ∧ tail.AllBlank := by
  obtain ⟨tail, rest, blank⟩ := exists_dropEndWhile isBlank (text.dropWhile isBlank)
  refine ⟨text.takeWhile isBlank, tail, ?_, ?_, blank⟩
  · rw [trim, strip, List.append_assoc, ← rest, List.takeWhile_append_dropWhile]
  · intro c member
    exact List.mem_takeWhile_imp member

theorem trim_subset (text : Text) : trim text ⊆ text :=
  strip_subset isBlank text

theorem mem_trim {text : Text} {c : Char} (member : c ∈ text) (dark : isBlank c = false) :
    c ∈ trim text := by
  obtain ⟨lead, tail, whole, leadBlank, tailBlank⟩ := exists_trim text
  rw [whole, List.mem_append, List.mem_append] at member
  rcases member with (before | inside) | behind
  · exact absurd before (leadBlank.not_mem dark)
  · exact inside
  · exact absurd behind (tailBlank.not_mem dark)

theorem compact_trim (text : Text) : compact (trim text) = compact text := by
  obtain ⟨lead, tail, whole, leadBlank, tailBlank⟩ := exists_trim text
  calc compact (trim text) = compact (lead ++ trim text ++ tail) := by
        rw [compact_append, compact_append, compact_of_allBlank leadBlank,
          compact_of_allBlank tailBlank, List.nil_append, List.append_nil]
    _ = compact text := by rw [← whole]

theorem trim_of_allBlank {text : Text} (blank : text.AllBlank) : trim text = [] := by
  have gone : text.dropWhile isBlank = [] := List.dropWhile_eq_nil_iff.mpr blank
  rw [trim, strip, gone]
  rfl

theorem exists_solid_append {text : Text} (starts : ∃ c rest, text = c :: rest ∧ isBlank c = false) :
    ∃ core tail, text = core ++ tail ∧ core.Solid ∧ tail.AllBlank := by
  obtain ⟨c, rest, begins, dark⟩ := starts
  obtain ⟨dropped, whole, blank⟩ := exists_dropEndWhile isBlank text
  have present : dropEndWhile isBlank text ≠ [] := by
    intro gone
    rw [gone, List.nil_append] at whole
    have satisfied := blank c (whole ▸ begins ▸ List.mem_cons_self)
    rw [dark] at satisfied
    cases satisfied
  refine ⟨_, dropped, whole, ⟨?_, ?_⟩, blank⟩
  · obtain ⟨d, more, core⟩ := List.exists_cons_of_ne_nil present
    rw [core, begins, List.cons_append] at whole
    exact ⟨d, more, core, (List.cons.inj whole).1 ▸ dark⟩
  · have reversed : text.reverse.dropWhile isBlank ≠ [] := by simpa [dropEndWhile] using present
    obtain ⟨d, more, core⟩ := List.exists_cons_of_ne_nil reversed
    have stopped := List.head?_dropWhile_not isBlank text.reverse
    rw [core] at stopped
    exact ⟨more.reverse, d, by rw [dropEndWhile, core, List.reverse_cons], by simpa using stopped⟩

theorem allBlank_or_solid (text : Text) :
    text.AllBlank ∨ ∃ lead core tail, text = lead ++ core ++ tail ∧ lead.AllBlank ∧ core.Solid ∧
      tail.AllBlank := by
  rcases words_cases text with blank | ⟨lead, word, rest, rfl, leadBlank, nonempty, dark, -⟩
  · exact .inl blank
  · obtain ⟨c, letters, rfl⟩ := List.exists_cons_of_ne_nil nonempty
    obtain ⟨core, tail, split, solid, tailBlank⟩ :=
      exists_solid_append ⟨c, letters ++ rest, rfl, dark c List.mem_cons_self⟩
    exact .inr ⟨lead, core, tail, by rw [List.append_assoc, List.cons_append, split, List.append_assoc],
      leadBlank, solid, tailBlank⟩

theorem trim_append_blank {blanks : Text} (blank : blanks.AllBlank) (text : Text) :
    trim (text ++ blanks) = trim text := by
  rcases allBlank_or_solid text with allBlank | ⟨lead, core, tail, rfl, leadBlank, solid, tailBlank⟩
  · rw [trim_of_allBlank allBlank, trim_of_allBlank (List.forall_mem_append.mpr ⟨allBlank, blank⟩)]
  · rw [List.append_assoc _ tail, trim_of_solid leadBlank solid tailBlank,
      trim_of_solid leadBlank solid (List.forall_mem_append.mpr ⟨tailBlank, blank⟩)]

theorem trim_blank_append {blanks : Text} (blank : blanks.AllBlank) (text : Text) :
    trim (blanks ++ text) = trim text := by
  rw [trim, strip, List.dropWhile_append_of_pos blank]
  rfl

theorem trim_trimStart (text : Text) : trim (trimStart text) = trim text := by
  have blank : AllBlank (text.takeWhile isBlank) := fun c member => List.mem_takeWhile_imp member
  rw [← trim_blank_append blank (trimStart text), trimStart, List.takeWhile_append_dropWhile]

theorem trim_trimEnd (text : Text) : trim (trimEnd text) = trim text := by
  obtain ⟨dropped, whole, blank⟩ := exists_dropEndWhile isBlank text
  have same := trim_append_blank blank (dropEndWhile isBlank text)
  rw [← whole] at same
  exact same.symm

theorem trim_append_dark {c : Char} (dark : isBlank c = false) (first second : Text) :
    trim (first ++ c :: second) = trimStart first ++ c :: trimEnd second := by
  have start : (first ++ c :: second).dropWhile isBlank = trimStart first ++ c :: second := by
    rw [List.dropWhile_append, trimStart]
    split
    · rename_i none
      rw [List.isEmpty_iff.mp none, List.dropWhile_cons_of_neg (by simp [dark])]
      rfl
    · rfl
  rw [trim, strip, start, dropEndWhile_append ⟨c, List.mem_cons_self, dark⟩, dropEndWhile_cons dark]
  rfl

theorem trim_withoutLineEnd (line : Text) : trim (withoutLineEnd line) = trim line := by
  have ends : ∀ {rest tail : Text}, line.reverse = tail.reverse ++ rest → tail.AllBlank →
      trim rest.reverse = trim line := by
    intro rest tail reversed blank
    have whole : line = rest.reverse ++ tail := by
      rw [← List.reverse_reverse line, reversed, List.reverse_append, List.reverse_reverse]
    rw [whole, trim_append_blank blank]
  unfold withoutLineEnd
  split
  · rename_i rest reversed
    exact @ends rest ['\r', '\n'] reversed (by decide)
  · rename_i rest _ reversed
    exact @ends rest ['\n'] reversed (by decide)
  · rfl

end Trim

theorem cut?_eq_none {c : Char} {mark text : Text} (fresh : c ∉ text) :
    cut? (c :: mark) text = none := by
  induction text with
  | nil => rfl
  | cons d text ih =>
    rw [List.mem_cons, not_or] at fresh
    rw [cut?, ih fresh.2]
    simp [fresh.1]

theorem cut?_eq_some_iff {c : Char} {text before after : Text} :
    cut? [c] text = some (before, after) ↔ text = before ++ [c] ++ after ∧ c ∉ before := by
  constructor
  · intro found
    refine ⟨cut?_eq_some found, ?_⟩
    intro inside
    obtain ⟨front, back, rfl, fresh⟩ := List.eq_append_cons_of_mem inside
    have earlier := @cut?_append c [] front fresh (back ++ [c] ++ after)
    rw [cut?_eq_some found] at found
    simp only [List.append_assoc, List.cons_append, List.nil_append] at found earlier
    rw [earlier] at found
    simp at found
  · rintro ⟨rfl, fresh⟩
    exact cut?_append fresh after

theorem isPrefixOf_append {mark more : Text} (fresh : ∀ c ∈ mark, c ∉ more) (text : Text) :
    mark.isPrefixOf (text ++ more) = mark.isPrefixOf text := by
  induction mark generalizing text with
  | nil => rfl
  | cons c mark ih =>
    rw [List.forall_mem_cons] at fresh
    cases text with
    | nil =>
      cases more with
      | nil => rfl
      | cons d more =>
        have other : (c == d) = false := by
          rw [beq_eq_false_iff_ne]
          rintro rfl
          exact fresh.1 List.mem_cons_self
        rw [List.nil_append, List.isPrefixOf_cons_cons, other]
        rfl
    | cons d text =>
      rw [List.cons_append, List.isPrefixOf_cons_cons, List.isPrefixOf_cons_cons, ih fresh.2]

theorem cut?_append_fresh {c : Char} {mark more : Text} (fresh : ∀ d ∈ c :: mark, d ∉ more)
    (text : Text) :
    cut? (c :: mark) (text ++ more) =
      (cut? (c :: mark) text).map fun parts => (parts.1, parts.2 ++ more) := by
  induction text with
  | nil =>
    rw [List.nil_append, cut?_eq_none (fresh c List.mem_cons_self)]
    rfl
  | cons d text ih =>
    have found := isPrefixOf_append fresh (d :: text)
    rw [List.cons_append] at found ⊢
    rw [cut?, cut?, found]
    split
    · rename_i starts
      have short : (c :: mark).length ≤ (d :: text).length :=
        (List.isPrefixOf_iff_prefix.mp starts).length_le
      rw [← List.cons_append, List.drop_append_of_le_length short]
      rfl
    · rw [ih, Option.map_map, Option.map_map]
      rfl

end TriggerLogic.Text
