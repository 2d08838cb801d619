import Mathlib.Data.List.Forall2
import TriggerLogic.Text.Basic

namespace TriggerLogic.Text

def Solid (text : Text) : Prop :=
  (∃ c rest, text = c :: rest ∧ isBlank c = false) ∧ ∃ front c, text = front ++ [c] ∧ isBlank c = false

theorem Solid.ne_nil {text : Text} (solid : text.Solid) : text ≠ [] := by
  obtain ⟨⟨c, rest, rfl, -⟩, -⟩ := solid
  exact List.cons_ne_nil _ _

theorem Solid.append {first second : Text} (begins : first.Solid) (ends : second.Solid)
    (between : Text) : (first ++ between ++ second).Solid := by
  obtain ⟨⟨c, rest, rfl, dark⟩, -⟩ := begins
  obtain ⟨-, front, d, rfl, darkEnd⟩ := ends
  exact ⟨⟨c, _, rfl, dark⟩, ⟨_, d, (List.append_assoc _ _ _).symm, darkEnd⟩⟩

theorem solid_singleton {c : Char} (dark : isBlank c = false) : Solid [c] :=
  ⟨⟨c, [], rfl, dark⟩, ⟨[], c, rfl, dark⟩⟩

theorem solid_group (inner : Text) : Solid (['('] ++ inner ++ [')']) :=
  (solid_singleton (by decide)).append (solid_singleton (by decide)) inner

theorem solid_of_forall {text : Text} (nonempty : text ≠ []) (dark : ∀ c ∈ text, isBlank c = false) :
    text.Solid := by
  constructor
  · obtain ⟨c, rest, rfl⟩ := List.exists_cons_of_ne_nil nonempty
    exact ⟨c, rest, rfl, dark c List.mem_cons_self⟩
  · exact ⟨text.dropLast, text.getLast nonempty, (List.dropLast_concat_getLast nonempty).symm,
      dark _ (List.getLast_mem nonempty)⟩

theorem solid_join {mark : Text} {parts : List Text} (nonempty : parts ≠ [])
    (solid : ∀ part ∈ parts, part.Solid) : (join mark parts).Solid := by
  induction parts with
  | nil => exact absurd rfl nonempty
  | cons part parts ih =>
    rw [List.forall_mem_cons] at solid
    cases parts with
    | nil => simpa [join] using solid.1
    | cons next parts =>
      have rest := ih (List.cons_ne_nil _ _) solid.2
      simpa [join, List.intercalate_cons_cons] using solid.1.append rest mark

theorem mem_join {mark : Text} {parts : List Text} {c : Char} (member : c ∈ join mark parts) :
    c ∈ mark ∨ ∃ part ∈ parts, c ∈ part := by
  induction parts with
  | nil => simp [join] at member
  | cons part parts ih =>
    cases parts with
    | nil => exact .inr ⟨part, List.mem_cons_self, by simpa [join] using member⟩
    | cons next parts =>
      rw [join, List.intercalate_cons_cons, List.append_assoc, List.mem_append, List.mem_append] at member
      rcases member with first | between | later
      · exact .inr ⟨part, List.mem_cons_self, first⟩
      · exact .inl between
      · rcases ih later with between | ⟨other, listed, inOther⟩
        · exact .inl between
        · exact .inr ⟨other, List.mem_cons_of_mem _ listed, inOther⟩

theorem subset_join {mark part : Text} {parts : List Text} (listed : part ∈ parts) :
    part ⊆ join mark parts := by
  induction parts with
  | nil => cases listed
  | cons first parts ih =>
    intro c member
    cases parts with
    | nil =>
      rw [join, List.intercalate_singleton, ← List.mem_singleton.mp listed]
      exact member
    | cons next parts =>
      rw [join, List.intercalate_cons_cons, List.append_assoc, List.mem_append, List.mem_append]
      rcases List.mem_cons.mp listed with rfl | later
      · exact .inl member
      · exact .inr (.inr (ih later member))

theorem subset_of_mem_splitOn {separator : Char} {text part : Text}
    (listed : part ∈ text.splitOn separator) : part ⊆ text := by
  have inside := @subset_join [separator] _ _ listed
  rw [join, List.intercalate_splitOn] at inside
  exact inside

theorem mem_spaced_join {α : Type} {separator c : Char} {print : α → Text} {items : List α}
    (member : c ∈ join [' ', separator, ' '] (items.map print)) :
    c = ' ' ∨ c = separator ∨ ∃ item ∈ items, c ∈ print item := by
  rcases mem_join member with mark | ⟨part, listed, inPart⟩
  · simp only [List.mem_cons, List.not_mem_nil, or_false] at mark
    rcases mark with space | same | space
    · exact .inl space
    · exact .inr (.inl same)
    · exact .inl space
  · obtain ⟨item, inItems, rfl⟩ := List.mem_map.mp listed
    exact .inr (.inr ⟨item, inItems, inPart⟩)

def AllBlank (text : Text) : Prop :=
  ∀ c ∈ text, isBlank c = true

theorem AllBlank.not_mem {text : Text} {c : Char} (blank : text.AllBlank) (dark : isBlank c = false) :
    c ∉ text := by
  intro member
  rw [blank c member] at dark
  cases dark

theorem allBlank_nil : AllBlank [] := by simp [AllBlank]

theorem allBlank_space : AllBlank [' '] := by
  intro c member
  rw [List.mem_singleton.mp member]
  decide

theorem trim_of_solid {lead text tail : Text} (blankLead : lead.AllBlank) (solid : text.Solid)
    (blankTail : tail.AllBlank) : trim (lead ++ text ++ tail) = text := by
  obtain ⟨⟨c, rest, begins, dark⟩, front, d, ends, darkEnd⟩ := solid
  have dropLead : (lead ++ text ++ tail).dropWhile isBlank = text ++ tail := by
    rw [List.append_assoc, List.dropWhile_append_of_pos blankLead, begins, List.cons_append,
      List.dropWhile_cons_of_neg (by simp [dark])]
  have reversed : ∀ c ∈ tail.reverse, isBlank c = true := fun c member =>
    blankTail c (List.mem_reverse.mp member)
  rw [trim, strip, dropLead, dropEndWhile, List.reverse_append,
    List.dropWhile_append_of_pos reversed, ends, List.reverse_append, List.reverse_singleton,
    List.singleton_append, List.dropWhile_cons_of_neg (by simp [darkEnd])]
  simp

theorem trim_solid {text : Text} (solid : text.Solid) : trim text = text := by
  simpa using trim_of_solid allBlank_nil solid allBlank_nil

theorem cut?_append {c : Char} {mark before : Text} (fresh : c ∉ before) (after : Text) :
    cut? (c :: mark) (before ++ (c :: mark) ++ after) = some (before, after) := by
  induction before with
  | nil => simp [cut?]
  | cons d before ih =>
    rw [List.mem_cons, not_or] at fresh
    have later := ih fresh.2
    simp only [List.append_assoc, List.cons_append] at later ⊢
    rw [cut?, List.isPrefixOf_cons_cons, beq_eq_false_iff_ne.mpr fresh.1, later]
    rfl

theorem isAlpha_iff {c : Char} :
    c.isAlpha = true ↔ (65 ≤ c.toNat ∧ c.toNat ≤ 90) ∨ (97 ≤ c.toNat ∧ c.toNat ≤ 122) := by
  delta Char.isAlpha Char.isUpper Char.isLower
  rw [Bool.or_eq_true, Bool.and_eq_true, decide_eq_true_iff, decide_eq_true_iff, decide_eq_true_iff]
  rfl

theorem isDigit_of_mem_decimal {number : Nat} {c : Char} (member : c ∈ decimal number) :
    c.isDigit = true :=
  Nat.isDigit_of_mem_toDigits (by decide) (by decide) member

theorem isBlank_of_isDigit {c : Char} (digit : c.isDigit = true) : isBlank c = false := by
  simp only [Char.isDigit, Bool.and_eq_true, decide_eq_true_eq] at digit
  have low : 48 ≤ c.toNat := digit.1
  have high : c.toNat ≤ 57 := digit.2
  simp only [isBlank, Bool.or_eq_false_iff, Bool.and_eq_false_iff, decide_eq_false_iff_not,
    beq_eq_false_iff_ne]
  omega

theorem decimal_ne_nil (number : Nat) : decimal number ≠ [] :=
  Nat.toDigits_ne_nil

theorem not_mem_decimal {c : Char} (number : Nat) (other : c.isDigit = false) :
    c ∉ decimal number := by
  intro member
  rw [isDigit_of_mem_decimal member] at other
  cases other

theorem solid_decimal (number : Nat) : (decimal number).Solid :=
  solid_of_forall (decimal_ne_nil number) fun _ member =>
    isBlank_of_isDigit (isDigit_of_mem_decimal member)

theorem isNumber_decimal (number : Nat) : isNumber (decimal number) = true := by
  simp only [isNumber, Bool.and_eq_true, Bool.not_eq_true', List.isEmpty_eq_false_iff, List.all_eq_true]
  exact ⟨decimal_ne_nil number, fun c => isDigit_of_mem_decimal⟩

theorem numberBelow?_decimal {bound number : Nat} (small : number < bound) :
    numberBelow? bound (decimal number) = some number := by
  have unsigned : afterLead? ['+'] (decimal number) = none := by
    obtain ⟨c, rest, digits⟩ := List.exists_cons_of_ne_nil (decimal_ne_nil number)
    have differs : '+' ≠ c := by
      rintro rfl
      exact not_mem_decimal number (by decide) (digits ▸ List.mem_cons_self)
    rw [digits]
    simp [afterLead?, differs]
  rw [numberBelow?, unsigned]
  simp [isNumber_decimal, value_decimal, small]

/-- Printed items with a spaced separator between them are split at the separator into one part for
each item, with blanks around it. -/
theorem forall₂_splitOn_join {α : Type} {separator : Char} {print : α → Text}
    {reads : Text → α → Prop} {items : List α} (dark : isBlank separator = false)
    (nonempty : items ≠ []) (fresh : ∀ item ∈ items, separator ∉ print item)
    (each : ∀ item ∈ items, ∀ lead tail : Text, lead.AllBlank → tail.AllBlank →
      reads (lead ++ print item ++ tail) item)
    {lead tail : Text} (blankLead : lead.AllBlank) (blankTail : tail.AllBlank) :
    List.Forall₂ reads
      ((lead ++ join [' ', separator, ' '] (items.map print) ++ tail).splitOn separator) items := by
  induction items generalizing lead with
  | nil => exact absurd rfl nonempty
  | cons item items ih =>
    rw [List.forall_mem_cons] at fresh each
    cases items with
    | nil =>
      have whole : separator ∉ lead ++ print item ++ tail := by
        simp [blankLead.not_mem dark, fresh.1, blankTail.not_mem dark]
      rw [List.map_singleton, join, List.intercalate_singleton, List.splitOn_eq_singleton whole]
      exact .cons (each.1 lead tail blankLead blankTail) .nil
    | cons next items =>
      have front : separator ∉ lead ++ print item ++ [' '] := by
        simp [blankLead.not_mem dark, fresh.1, allBlank_space.not_mem dark]
      have shape : lead ++ join [' ', separator, ' '] ((item :: next :: items).map print) ++ tail =
          (lead ++ print item ++ [' ']) ++ separator ::
            ([' '] ++ join [' ', separator, ' '] ((next :: items).map print) ++ tail) := by
        simp [join, List.intercalate_cons_cons]
      rw [shape, List.splitOn_append_cons_self_of_not_mem front]
      exact .cons (each.1 lead [' '] blankLead allBlank_space)
        (ih (List.cons_ne_nil _ _) fresh.2 each.2 allBlank_space)

theorem lines_append_lineFeed {text : Text} (single : '\n' ∉ text) (rest : Text) :
    lines (text ++ '\n' :: rest) = (text ++ ['\n']) :: lines rest := by
  induction text with
  | nil => rfl
  | cons c text ih =>
    rw [List.mem_cons, not_or] at single
    rw [List.cons_append, lines, if_neg (Ne.symm single.1), ih single.2]
    rfl

theorem lines_of_single {text : Text} (single : '\n' ∉ text) (filled : text ≠ []) :
    lines text = [text] := by
  induction text with
  | nil => exact absurd rfl filled
  | cons c text ih =>
    rw [List.mem_cons, not_or] at single
    rw [lines, if_neg (Ne.symm single.1)]
    by_cases last : text = []
    · rw [last]
      rfl
    · rw [ih single.2 last]

theorem lines_append (first second : Text) :
    lines (first ++ '\n' :: second) = lines (first ++ ['\n']) ++ lines second := by
  induction first with
  | nil => rfl
  | cons c first ih =>
    rw [List.cons_append, List.cons_append, lines, lines, ih]
    split
    · rfl
    · cases found : lines (first ++ ['\n']) with
      | nil =>
        have whole := lines_flatten (first ++ ['\n'])
        rw [found] at whole
        simp at whole
      | cons line more => rfl

theorem lines_flatMap_lineFeed {α : Type} {print : α → Text} {items : List α}
    (single : ∀ item ∈ items, '\n' ∉ print item) :
    lines (items.flatMap fun item => print item ++ ['\n']) =
      items.map fun item => print item ++ ['\n'] := by
  induction items with
  | nil => rfl
  | cons item items ih =>
    rw [List.forall_mem_cons] at single
    rw [List.flatMap_cons, List.append_assoc, List.singleton_append,
      lines_append_lineFeed single.1, ih single.2, List.map_cons]

theorem cases_of_mem_lines {source raw : Text} (listed : raw ∈ lines source) :
    ∃ front, '\n' ∉ front ∧ (raw = front ∨ raw = front ++ ['\n']) := by
  induction source generalizing raw with
  | nil => cases listed
  | cons c source ih =>
    rw [lines] at listed
    split at listed
    · rename_i feed
      rcases List.mem_cons.mp listed with rfl | later
      · exact ⟨[], List.not_mem_nil, .inr (by rw [feed]; rfl)⟩
      · exact ih later
    · rename_i inside
      split at listed
      · refine ⟨[c], ?_⟩
        rw [List.mem_singleton.mp listed, List.mem_singleton]
        exact ⟨Ne.symm inside, .inl rfl⟩
      · rename_i line more found
        rw [found] at ih
        rcases List.mem_cons.mp listed with rfl | later
        · obtain ⟨front, single, shape⟩ := ih List.mem_cons_self
          refine ⟨c :: front, ?_⟩
          rw [List.mem_cons, not_or]
          refine ⟨⟨Ne.symm inside, single⟩, ?_⟩
          rcases shape with rfl | rfl
          · exact .inl rfl
          · exact .inr rfl
        · exact ih (List.mem_cons_of_mem line later)

theorem withoutLineEnd_lineFeed {text : Text} (returnless : text.getLast? ≠ some '\r') :
    withoutLineEnd (text ++ ['\n']) = text := by
  have reversed : (text ++ ['\n']).reverse = '\n' :: text.reverse := by simp
  unfold withoutLineEnd
  rw [reversed]
  split
  · rename_i rest same
    have last : text.getLast? = some '\r' := by
      rw [← List.head?_reverse, (List.cons.inj same).2]
      rfl
    exact absurd last returnless
  · rename_i rest _ same
    rw [← (List.cons.inj same).2, List.reverse_reverse]
  · rename_i other
    exact absurd rfl (other text.reverse)

end TriggerLogic.Text
