import Mathlib.Data.List.TakeWhile
import TriggerLogic.Proofs.TextRoundTrip
import TriggerLogic.Text.Word

namespace TriggerLogic.Program

inductive Expression where
  | constant (value : Bool)
  | input (index : Nat)
  | not (operand : Expression)
  | and (left right : Expression)
  | or (left right : Expression)
  deriving DecidableEq, Repr

/-- The value of an expression, none when an index is out of range. A right operand is looked at only
where the left one leaves the value open. -/
def Expression.value? (bits : List Bool) : Expression → Option Bool
  | constant value => some value
  | input index => bits[index]?
  | not operand => (operand.value? bits).map (!·)
  | and left right => (left.value? bits).bind fun first => if first then right.value? bits else some false
  | or left right => (left.value? bits).bind fun first => if first then some true else right.value? bits

def Expression.indices : Expression → List Nat
  | constant _ => []
  | input index => [index]
  | not operand => operand.indices
  | and left right => left.indices ++ right.indices
  | or left right => left.indices ++ right.indices

structure Assignment where
  index : Nat
  value : Expression
  deriving DecidableEq, Repr

def Assignment.run? (bits : List Bool) (outputs : List Bool) (assignment : Assignment) :
    Option (List Bool) :=
  (assignment.value.value? bits).bind fun value =>
    if assignment.index < outputs.length then some (outputs.set assignment.index value) else none

def run? (bits : List Bool) (program : List Assignment) (outputs : List Bool) : Option (List Bool) :=
  program.foldlM (Assignment.run? bits) outputs

inductive Token where
  | word (name : Text)
  | number (value : Nat)
  | mark (c : Char)
  | double (c : Char)
  deriving DecidableEq, Repr

def isMark (c : Char) : Bool :=
  ['!', '(', ')', '[', ']', '=', ';'].contains c

def isDoubled (c : Char) : Bool :=
  c == '&' || c == '|'

def tokens? : Text → Option (List Token)
  | [] => some []
  | c :: rest =>
    if Text.isPlainBlank c then tokens? rest
    else if isMark c then (tokens? rest).map (.mark c :: ·)
    else if isDoubled c && rest.head? == some c then (tokens? (rest.drop 1)).map (.double c :: ·)
    else if c.isDigit then
      (tokens? (rest.dropWhile Char.isDigit)).map
        (.number (Nat.ofDigitChars 10 (c :: rest.takeWhile Char.isDigit) 0) :: ·)
    else if Text.startsName c then
      (tokens? (rest.dropWhile Text.continuesName)).map
        (.word (c :: rest.takeWhile Text.continuesName) :: ·)
    else none
termination_by text => text.length
decreasing_by
  · simp
  · simp
  · simp only [List.length_drop, List.length_cons]
    omega
  · exact Nat.lt_succ_of_le (List.length_dropWhile_le _ _)
  · exact Nat.lt_succ_of_le (List.length_dropWhile_le _ _)

abbrev Reader (α : Type) := List Token → Option (α × List Token)

/-- Goes on with `left` for as long as the operator follows, which groups from the left. Each round
takes up a token, so as many rounds as there are tokens are enough. -/
def chainFrom? (operator : Token) (combine : Expression → Expression → Expression)
    (operand? : Reader Expression) : Nat → Expression → Reader Expression
  | _, left, [] => some (left, [])
  | 0, _, _ :: _ => none
  | rounds + 1, left, next :: rest =>
    if next = operator then
      match operand? rest with
      | none => none
      | some (right, after) => chainFrom? operator combine operand? rounds (combine left right) after
    else some (left, next :: rest)

def chain? (operator : Token) (combine : Expression → Expression → Expression)
    (operand? : Reader Expression) : Reader Expression := fun tokens =>
  match operand? tokens with
  | none => none
  | some (first, rest) => chainFrom? operator combine operand? rest.length first rest

def indexed? : Reader Expression
  | .mark '[' :: .number index :: .mark ']' :: rest => some (.input index, rest)
  | _ => none

def closed? (nested? : Reader Expression) : Reader Expression := fun tokens =>
  match nested? tokens with
  | some (inner, .mark ')' :: rest) => some (inner, rest)
  | _ => none

def operand? (nested? : Reader Expression) : Reader Expression
  | [] => none
  | .word name :: rest =>
    if name = "true".toList then some (.constant true, rest)
    else if name = "false".toList then some (.constant false, rest)
    else if name = "input".toList then indexed? rest
    else none
  | .mark c :: rest =>
    if c = '!' then (operand? nested? rest).map fun found => (.not found.1, found.2)
    else if c = '(' then closed? nested? rest
    else none
  | _ :: _ => none

def expression? : Nat → Reader Expression
  | 0 => fun _ => none
  | depth + 1 => chain? (.double '|') .or (chain? (.double '&') .and (operand? (expression? depth)))

example : expression? 1 [.mark '!', .word "true".toList, .double '&', .word "false".toList,
      .double '|', .word "true".toList] =
    some (.or (.and (.not (.constant true)) (.constant false)) (.constant true), []) := by
  decide

def assignment? : Reader Assignment
  | .word name :: .mark '[' :: .number index :: .mark ']' :: .mark '=' :: rest =>
    if name = "ftdout".toList then
      match expression? (rest.length + 1) rest with
      | some (value, .mark ';' :: after) => some (⟨index, value⟩, after)
      | _ => none
    else none
  | _ => none

def assignments? : Nat → List Token → Option (List Assignment)
  | _, [] => some []
  | 0, _ :: _ => none
  | rounds + 1, tokens =>
    match assignment? tokens with
    | none => none
    | some (first, rest) => (assignments? rounds rest).map (first :: ·)

def read? (text : Text) : Option (List Assignment) :=
  (tokens? text).bind fun tokens => assignments? tokens.length tokens

def Lexes (text : Text) (tokens : List Token) : Prop :=
  ∀ rest, tokens? (text ++ rest) = (tokens? rest).map (tokens ++ ·)

theorem lexes_nil : Lexes [] [] := by
  intro rest
  simp

theorem Lexes.append {first second : Text} {firstTokens secondTokens : List Token}
    (begins : Lexes first firstTokens) (ends : Lexes second secondTokens) :
    Lexes (first ++ second) (firstTokens ++ secondTokens) := by
  intro rest
  rw [List.append_assoc, begins, ends, Option.map_map]
  congr 1
  funext tokens
  exact (List.append_assoc _ _ _).symm

theorem Lexes.tokens_eq {text : Text} {tokens : List Token} (lexes : Lexes text tokens) :
    tokens? text = some tokens := by
  have whole := lexes []
  simpa [tokens?] using whole

theorem lexes_blank {c : Char} (blank : Text.isPlainBlank c = true) : Lexes [c] [] := by
  intro rest
  rw [List.singleton_append, tokens?, if_pos blank]
  simp

theorem lexes_mark {c : Char} (mark : isMark c = true) : Lexes [c] [.mark c] := by
  have dark : Text.isPlainBlank c = false := by
    simp only [isMark, List.contains_eq_mem, List.mem_cons, List.not_mem_nil, or_false,
      decide_eq_true_eq] at mark
    rcases mark with rfl | rfl | rfl | rfl | rfl | rfl | rfl <;> decide
  intro rest
  rw [List.singleton_append, tokens?, if_neg (by simp [dark]), if_pos mark]
  rfl

theorem lexes_double {c : Char} (doubled : isDoubled c = true) : Lexes [c, c] [.double c] := by
  intro rest
  simp only [isDoubled, Bool.or_eq_true, beq_iff_eq] at doubled
  rcases doubled with rfl | rfl
  all_goals
    rw [List.cons_append, tokens?]
    rfl

theorem not_symbol_of_continuesName {c : Char} (continues : Text.continuesName c = true) :
    Text.isPlainBlank c = false ∧ isMark c = false ∧ isDoubled c = false := by
  refine ⟨Bool.eq_false_iff.mpr ?_, Bool.eq_false_iff.mpr ?_, Bool.eq_false_iff.mpr ?_⟩
  · intro blank
    simp only [Text.isPlainBlank, Bool.or_eq_true, beq_iff_eq] at blank
    rcases blank with (((rfl | rfl) | rfl) | rfl) | rfl <;> revert continues <;> decide
  · intro mark
    simp only [isMark, List.contains_eq_mem, List.mem_cons, List.not_mem_nil, or_false,
      decide_eq_true_eq] at mark
    rcases mark with rfl | rfl | rfl | rfl | rfl | rfl | rfl <;> revert continues <;> decide
  · intro doubled
    simp only [isDoubled, Bool.or_eq_true, beq_iff_eq] at doubled
    rcases doubled with rfl | rfl <;> revert continues <;> decide

theorem isDigit_of_startsName {c : Char} (starts : Text.startsName c = true) : c.isDigit = false := by
  rw [Text.startsName, Bool.or_eq_true, Text.isAlpha_iff, beq_iff_eq] at starts
  rcases starts with letter | rfl
  · have high : ¬ c.toNat ≤ 57 := by omega
    exact Bool.and_eq_false_iff.mpr (.inr (decide_eq_false high))
  · decide

theorem tokens?_decimal (number : Nat) {c : Char} (stops : c.isDigit = false) (rest : Text) :
    tokens? (Text.decimal number ++ c :: rest) = (tokens? (c :: rest)).map (.number number :: ·) := by
  have value := Text.value_decimal number
  obtain ⟨d, more, digits⟩ := List.exists_cons_of_ne_nil (Text.decimal_ne_nil number)
  have all : ∀ e ∈ d :: more, e.isDigit = true := by
    intro e member
    exact Text.isDigit_of_mem_decimal (digits ▸ member)
  rw [List.forall_mem_cons] at all
  have continues : Text.continuesName d = true := by simp [Text.continuesName, Char.isAlphanum, all.1]
  obtain ⟨dark, unmarked, undoubled⟩ := not_symbol_of_continuesName continues
  rw [digits] at value ⊢
  rw [List.cons_append, tokens?, dark, unmarked, undoubled, all.1,
    List.dropWhile_append_of_pos all.2, List.takeWhile_append_of_pos all.2,
    List.dropWhile_cons_of_neg (by simp [stops]), List.takeWhile_cons_of_neg (by simp [stops])]
  simp [value]

theorem tokens?_name {name : Text} (identifier : Text.isIdentifier name = true) {c : Char}
    (stops : Text.continuesName c = false) (rest : Text) :
    tokens? (name ++ c :: rest) = (tokens? (c :: rest)).map (.word name :: ·) := by
  cases name with
  | nil => simp [Text.isIdentifier] at identifier
  | cons d more =>
    simp only [Text.isIdentifier, Bool.and_eq_true, List.all_eq_true] at identifier
    obtain ⟨starts, others⟩ := identifier
    have continues : Text.continuesName d = true := by
      simp only [Text.startsName, Bool.or_eq_true] at starts
      rcases starts with letter | underscore
      · simp [Text.continuesName, Char.isAlphanum, letter]
      · simp [Text.continuesName, underscore]
    obtain ⟨dark, unmarked, undoubled⟩ := not_symbol_of_continuesName continues
    rw [List.cons_append, tokens?, dark, unmarked, undoubled, isDigit_of_startsName starts, starts,
      List.dropWhile_append_of_pos others, List.takeWhile_append_of_pos others,
      List.dropWhile_cons_of_neg (by simp [stops]), List.takeWhile_cons_of_neg (by simp [stops])]
    simp

theorem lexes_indexed {name : Text} (identifier : Text.isIdentifier name = true) (index : Nat) :
    Lexes (name ++ ['['] ++ Text.decimal index ++ [']'])
      [.word name, .mark '[', .number index, .mark ']'] := by
  intro rest
  have opens : ∀ rest, tokens? ('[' :: rest) = (tokens? rest).map (.mark '[' :: ·) :=
    lexes_mark (by decide)
  have closes : ∀ rest, tokens? (']' :: rest) = (tokens? rest).map (.mark ']' :: ·) :=
    lexes_mark (by decide)
  simp only [List.append_assoc, List.cons_append, List.nil_append]
  rw [tokens?_name identifier (by decide), opens, tokens?_decimal index (by decide), closes]
  simp only [Option.map_map]
  rfl

def joinedTokens {α : Type} (operator : Token) (tokens : α → List Token) (first : α) (more : List α) :
    List Token :=
  tokens first ++ more.flatMap fun item => operator :: tokens item

theorem lexes_join {α : Type} {c : Char} (doubled : isDoubled c = true) {print : α → Text}
    {tokens : α → List Token} {first : α} {more : List α}
    (each : ∀ item ∈ first :: more, Lexes (print item) (tokens item)) :
    Lexes (Text.join [' ', c, c, ' '] ((first :: more).map print))
      (joinedTokens (.double c) tokens first more) := by
  induction more generalizing first with
  | nil => simpa [Text.join, joinedTokens] using each
  | cons next more ih =>
    rw [List.forall_mem_cons] at each
    have space : Lexes [' '] [] := lexes_blank (by decide)
    have between : Lexes [' ', c, c, ' '] [.double c] := space.append ((lexes_double doubled).append space)
    have later := (each.1.append between).append (ih each.2)
    simpa [Text.join, joinedTokens, List.intercalate_cons_cons] using later

theorem lexes_flatMap {α : Type} {print : α → Text} {tokens : α → List Token} {items : List α}
    (each : ∀ item ∈ items, Lexes (print item) (tokens item)) :
    Lexes (items.flatMap print) (items.flatMap tokens) := by
  induction items with
  | nil => exact lexes_nil
  | cons item items ih =>
    rw [List.forall_mem_cons] at each
    exact each.1.append (ih each.2)

/-- The reader takes exactly these tokens where an allowed rest follows them. -/
def Reads {α : Type} (reader : Reader α) (allowed : List Token → Prop) (tokens : List Token)
    (result : α) : Prop :=
  ∀ rest, allowed rest → reader (tokens ++ rest) = some (result, rest)

section Chain

variable {α : Type} {operator : Token} {combine : Expression → Expression → Expression}
  {operand? : Reader Expression} {tokens : α → List Token} {expression : α → Expression}
  {allowed : List Token → Prop}

theorem chainFrom?_stop {rest : List Token} (ends : rest.head? ≠ some operator) (left : Expression)
    {rounds : Nat} (enough : rest.length ≤ rounds) :
    chainFrom? operator combine operand? rounds left rest = some (left, rest) := by
  cases rest with
  | nil => simp [chainFrom?]
  | cons next rest =>
    cases rounds with
    | zero => simp at enough
    | succ rounds =>
      have other : next ≠ operator := fun same => ends (congrArg some same)
      simp [chainFrom?, other]

theorem reads_alone {alone : List Token} {result : Expression}
    (reads : Reads operand? allowed alone result) :
    Reads (chain? operator combine operand?) (fun rest => allowed rest ∧ rest.head? ≠ some operator)
      alone result := by
  intro rest ⟨follows, ends⟩
  rw [chain?, reads rest follows]
  exact chainFrom?_stop ends result le_rfl

theorem allowed_further (goesOn : ∀ rest, allowed (operator :: rest)) {rest : List Token}
    (follows : allowed rest) (tokens : α → List Token) (items : List α) :
    allowed ((items.flatMap fun item => operator :: tokens item) ++ rest) := by
  cases items with
  | nil => simpa using follows
  | cons => exact goesOn _

theorem chainFrom?_joined {items : List α}
    (each : ∀ item ∈ items, Reads operand? allowed (tokens item) (expression item))
    (goesOn : ∀ rest, allowed (operator :: rest)) {rest : List Token} (follows : allowed rest)
    (ends : rest.head? ≠ some operator) (left : Expression) {rounds : Nat}
    (enough : ((items.flatMap fun item => operator :: tokens item) ++ rest).length ≤ rounds) :
    chainFrom? operator combine operand? rounds left
        ((items.flatMap fun item => operator :: tokens item) ++ rest) =
      some (items.foldl (fun left item => combine left (expression item)) left, rest) := by
  induction items generalizing left rounds with
  | nil => exact chainFrom?_stop ends left enough
  | cons item items ih =>
    rw [List.forall_mem_cons] at each
    cases rounds with
    | zero => simp at enough
    | succ rounds =>
      have next := allowed_further goesOn follows tokens items
      have fewer : ((items.flatMap fun item => operator :: tokens item) ++ rest).length ≤ rounds := by
        simp only [List.flatMap_cons, List.cons_append, List.append_assoc, List.length_cons,
          List.length_append] at enough ⊢
        omega
      rw [List.flatMap_cons, List.cons_append, List.cons_append, List.append_assoc, chainFrom?,
        if_pos rfl, each.1 _ next]
      exact ih each.2 (combine left (expression item)) fewer

theorem reads_chain {first : α} {more : List α}
    (each : ∀ item ∈ first :: more, Reads operand? allowed (tokens item) (expression item))
    (goesOn : ∀ rest, allowed (operator :: rest)) :
    Reads (chain? operator combine operand?)
      (fun rest => allowed rest ∧ rest.head? ≠ some operator) (joinedTokens operator tokens first more)
      (more.foldl (fun left item => combine left (expression item)) (expression first)) := by
  intro rest ⟨follows, ends⟩
  rw [List.forall_mem_cons] at each
  have next := allowed_further goesOn follows tokens more
  rw [joinedTokens, List.append_assoc, chain?, each.1 _ next]
  exact chainFrom?_joined each.2 goesOn follows ends _ le_rfl

end Chain

def EndsProduct (rest : List Token) : Prop :=
  rest.head? ≠ some (.double '&')

def EndsSum (rest : List Token) : Prop :=
  EndsProduct rest ∧ rest.head? ≠ some (.double '|')

theorem endsProduct_double_or (rest : List Token) : EndsProduct (.double '|' :: rest) := by
  simp [EndsProduct]

theorem reads_group {nested? : Reader Expression} {tokens : List Token} {result : Expression}
    (reads : Reads nested? EndsSum tokens result) :
    Reads (operand? nested?) (fun _ => True) (.mark '(' :: tokens ++ [.mark ')']) result := by
  intro rest _
  have inner := reads (.mark ')' :: rest) (by simp [EndsSum, EndsProduct])
  simp [operand?, closed?, inner]

theorem assignments?_step {tokens rest : List Token} {first : Assignment}
    (reads : assignment? tokens = some (first, rest)) (rounds : Nat) :
    assignments? (rounds + 1) tokens = (assignments? rounds rest).map (first :: ·) := by
  cases tokens with
  | nil => simp [assignment?] at reads
  | cons token tokens => simp [assignments?, reads]

theorem value?_foldl_and {α : Type} {bits : List Bool} {expression : α → Expression} {value : α → Bool}
    {items : List α} (each : ∀ item ∈ items, (expression item).value? bits = some (value item))
    {left : Expression} {first : Bool} (known : left.value? bits = some first) :
    (items.foldl (fun left item => .and left (expression item)) left).value? bits =
      some (first && items.all value) := by
  induction items generalizing left first with
  | nil => simpa using known
  | cons item items ih =>
    rw [List.forall_mem_cons] at each
    have both : (left.and (expression item)).value? bits = some (first && value item) := by
      cases first <;> simp [Expression.value?, known, each.1]
    rw [List.foldl_cons, ih each.2 both, List.all_cons, Bool.and_assoc]

theorem value?_foldl_or {α : Type} {bits : List Bool} {expression : α → Expression} {value : α → Bool}
    {items : List α} (each : ∀ item ∈ items, (expression item).value? bits = some (value item))
    {left : Expression} {first : Bool} (known : left.value? bits = some first) :
    (items.foldl (fun left item => .or left (expression item)) left).value? bits =
      some (first || items.any value) := by
  induction items generalizing left first with
  | nil => simpa using known
  | cons item items ih =>
    rw [List.forall_mem_cons] at each
    have either : (left.or (expression item)).value? bits = some (first || value item) := by
      cases first <;> simp [Expression.value?, known, each.1]
    rw [List.foldl_cons, ih each.2 either, List.any_cons, Bool.or_assoc]

theorem indices_foldl {α : Type} {combine : Expression → Expression → Expression}
    (both : ∀ left right, (combine left right).indices = left.indices ++ right.indices)
    (expression : α → Expression) (items : List α) (left : Expression) :
    (items.foldl (fun left item => combine left (expression item)) left).indices =
      left.indices ++ items.flatMap fun item => (expression item).indices := by
  induction items generalizing left with
  | nil => simp
  | cons item items ih => rw [List.foldl_cons, ih, both, List.flatMap_cons, List.append_assoc]

end TriggerLogic.Program
