import TriggerLogic.Proofs.KeywordPieces

namespace TriggerLogic.Text

/-- `keyword` stands at character `place` in any letter case, between delimiters or the ends of the
text. -/
def tokenAt (keyword text : Text) (place : Nat) : Bool :=
  (text.take place).getLast?.all isDelimiter &&
    lower ((text.drop place).take keyword.length) == lower keyword &&
    (text.drop (place + keyword.length)).head?.all isDelimiter

def firstToken? (keyword text : Text) (start : Nat) : Option Nat :=
  (List.range' start (text.length - start)).find? (tokenAt keyword text)

def countTokens (keyword text : Text) (start stop : Nat) : Nat :=
  (List.range' start (stop - start)).countP (tokenAt keyword text)

theorem tokenAt_length (keyword front rest : Text) :
    tokenAt keyword (front ++ rest) front.length =
      (front.getLast?.all isDelimiter && startsWithKeyword keyword rest) := by
  rw [tokenAt, startsWithKeyword, ← List.drop_drop, List.take_left, List.drop_left, Bool.and_assoc]

theorem find?_tokenAt (keyword front text : Text) :
    (List.range' front.length text.length).find? (tokenAt keyword (front ++ text)) =
      (cutKeyword? keyword (front.getLast?.all isDelimiter) text).map fun parts =>
        (front ++ parts.1).length := by
  induction text generalizing front with
  | nil => rfl
  | cons c rest ih =>
    have later := ih (front ++ [c])
    rw [List.getLast?_concat, List.append_assoc, List.singleton_append, List.length_append] at later
    rw [List.length_cons, List.range'_succ, List.find?_cons, tokenAt_length, cutKeyword?]
    cases front.getLast?.all isDelimiter && startsWithKeyword keyword (c :: rest) with
    | true => simp
    | false =>
      rw [if_neg Bool.false_ne_true, Option.map_map]
      simpa [Function.comp_def] using later

theorem firstToken?_append (keyword front text : Text) :
    firstToken? keyword (front ++ text) front.length =
      (cutKeyword? keyword (front.getLast?.all isDelimiter) text).map fun parts =>
        (front ++ parts.1).length := by
  rw [firstToken?, List.length_append, Nat.add_sub_cancel_left, find?_tokenAt]

theorem tokenAt_of_cut {keyword front text before after : Text}
    (cut : cutKeyword? keyword (front.getLast?.all isDelimiter) text = some (before, after)) :
    tokenAt keyword (front ++ text) (front ++ before).length = true ∧
      ∀ place, front.length ≤ place → place < (front ++ before).length →
        tokenAt keyword (front ++ text) place = false := by
  have first := find?_tokenAt keyword front text
  rw [cut, Option.map_some, List.find?_range'_eq_some] at first
  refine ⟨first.1, ?_⟩
  intro place starts stops
  simpa using first.2.2 place starts stops

theorem getLast?_of_dark {word : Text} (nonempty : word ≠ [])
    (dark : ∀ c ∈ word, isDelimiter c = false) (front : Text) :
    (front ++ word).getLast?.all isDelimiter = false := by
  rw [List.getLast?_append_of_ne_nil _ nonempty, List.getLast?_eq_some_getLast nonempty]
  exact dark _ (List.getLast_mem nonempty)

theorem countP_append (keyword front first second : Text) :
    (List.range' front.length (first ++ second).length).countP
        (tokenAt keyword (front ++ (first ++ second))) =
      (List.range' front.length first.length).countP (tokenAt keyword (front ++ first ++ second)) +
        (List.range' (front ++ first).length second.length).countP
          (tokenAt keyword (front ++ first ++ second)) := by
  rw [← List.append_assoc, List.length_append, ← List.range'_append_1, List.countP_append,
    List.length_append]

section Count

variable {keyword : Text} (isKeyword : IsKeyword keyword)

include isKeyword

theorem getLast?_keyword {word : Text} (spelled : lower word = lower keyword) (front : Text) :
    (front ++ word).getLast?.all isDelimiter = false :=
  getLast?_of_dark (isKeyword.ne_nil_of_spelled spelled) (isKeyword.dark_of_spelled spelled) front

theorem countP_word {word : Text} (spelled : lower word = lower keyword) {front rest : Text}
    (found : tokenAt keyword (front ++ word ++ rest) front.length = true) :
    (List.range' front.length word.length).countP (tokenAt keyword (front ++ word ++ rest)) = 1 := by
  have dark := isKeyword.dark_of_spelled spelled
  obtain ⟨c, letters, rfl⟩ := List.exists_cons_of_ne_nil (isKeyword.ne_nil_of_spelled spelled)
  rw [List.length_cons, List.range'_succ, List.countP_cons_of_pos found, Nat.add_eq_right,
    List.countP_eq_zero]
  intro place listed
  rw [List.mem_range'_1] at listed
  obtain ⟨first, second, rfl, length⟩ : ∃ first second, letters = first ++ second ∧
      first.length = place - (front.length + 1) :=
    ⟨letters.take (place - (front.length + 1)), letters.drop (place - (front.length + 1)), by simp,
      by rw [List.length_take]; omega⟩
  have unopened := getLast?_of_dark (List.cons_ne_nil c first)
    (fun d member => dark d (List.mem_append_left second member)) front
  have inside := tokenAt_length keyword (front ++ c :: first) (second ++ rest)
  have same : (front ++ c :: first).length = place := by
    rw [List.length_append, List.length_cons]
    omega
  rw [same, unopened, Bool.false_and] at inside
  simpa using inside

/-- There is one piece more than there are tokens. -/
theorem length_pieces (front text : Text) :
    (pieces keyword (front.getLast?.all isDelimiter) text).length =
      (List.range' front.length text.length).countP (tokenAt keyword (front ++ text)) + 1 := by
  induction length : text.length using Nat.strongRecOn generalizing front text with
  | _ n ih =>
    rw [pieces_eq _ _ _ isKeyword.nonempty, ← length]
    cases cut : cutKeyword? keyword (front.getLast?.all isDelimiter) text with
    | none =>
      have first := find?_tokenAt keyword front text
      rw [cut, Option.map_none, List.find?_eq_none] at first
      rw [List.countP_eq_zero.mpr first]
      rfl
    | some parts =>
      obtain ⟨before, after⟩ := parts
      obtain ⟨word, rfl, spelled⟩ := cutKeyword?_eq_some cut
      obtain ⟨found, clear⟩ := tokenAt_of_cut cut
      have shorter : after.length < n := by
        have nonempty := List.length_pos_iff.mpr (isKeyword.ne_nil_of_spelled spelled)
        simp only [List.length_append] at length
        omega
      have others := ih _ shorter (front ++ before ++ word) after rfl
      rw [getLast?_keyword isKeyword spelled] at others
      rw [List.append_assoc, ← List.append_assoc front,
        ← List.append_assoc (front ++ before)] at found clear
      have none : (List.range' front.length before.length).countP
          (tokenAt keyword (front ++ before ++ word ++ after)) = 0 := by
        rw [List.countP_eq_zero]
        intro place listed
        rw [List.mem_range'_1] at listed
        rw [clear place listed.1 (by rw [List.length_append]; exact listed.2)]
        exact Bool.false_ne_true
      have one := countP_word isKeyword spelled found
      simp only [List.length_cons]
      rw [others, List.append_assoc before word after, countP_append, countP_append,
        ← List.append_assoc (front ++ before) word after, none, one]
      omega

theorem tokenAt_append {first rest : Text} (apart : rest = [] ∨ first.getLast?.all isDelimiter = true)
    {place : Nat} (inside : place < first.length) :
    tokenAt keyword (first ++ rest) place = tokenAt keyword first place := by
  rcases apart with rfl | ends
  · rw [List.append_nil]
  · rcases List.eq_nil_or_concat first with rfl | ⟨front, c, rfl⟩
    · cases inside
    · have delimits : isDelimiter c = true := by simpa using ends
      rw [List.concat_eq_append, List.length_append, List.length_singleton] at inside
      obtain ⟨before, after, rfl, length⟩ : ∃ before after, front = before ++ after ∧
          before.length = place :=
        ⟨front.take place, front.drop place, by simp, by rw [List.length_take]; omega⟩
      rw [List.concat_eq_append, ← length, List.append_assoc, List.append_assoc,
        List.append_assoc before, tokenAt_length, tokenAt_length, List.singleton_append,
        startsWithKeyword_append isKeyword delimits, startsWithKeyword_append isKeyword delimits]

theorem length_pieces_eq_countTokens {front text rest : Text}
    (apart : rest = [] ∨ (front ++ text).getLast?.all isDelimiter = true) :
    (pieces keyword (front.getLast?.all isDelimiter) text).length =
      countTokens keyword (front ++ text ++ rest) front.length (front ++ text).length + 1 := by
  rw [length_pieces isKeyword, countTokens, List.length_append, Nat.add_sub_cancel_left]
  congr 1
  apply List.countP_congr
  intro place listed
  rw [List.mem_range'_1] at listed
  rw [tokenAt_append isKeyword apart (by rw [List.length_append]; exact listed.2)]

end Count

end TriggerLogic.Text
