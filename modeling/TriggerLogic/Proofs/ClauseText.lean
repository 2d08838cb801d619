import TriggerLogic.Proofs.ClauseMeaning
import TriggerLogic.Proofs.KeywordPieces

namespace TriggerLogic

namespace Text

def PlainBlank (text : Text) : Prop :=
  ∀ c ∈ text, isPlainBlank c = true

theorem PlainBlank.allBlank {text : Text} (plain : text.PlainBlank) : text.AllBlank :=
  fun c member => isBlank_of_isPlainBlank (plain c member)

theorem PlainBlank.delimits {text : Text} (plain : text.PlainBlank) :
    ∀ c ∈ text, isDelimiter c = true :=
  fun c member => isDelimiter_of_isPlainBlank (plain c member)

def Gap (text : Text) : Prop :=
  text ≠ [] ∧ text.PlainBlank

theorem Gap.delimiters {text : Text} (gap : text.Gap) : text.Delimiters :=
  ⟨gap.1, gap.2.delimits⟩

theorem toNat_of_continuesName {c : Char} (continues : continuesName c = true) :
    48 ≤ c.toNat ∧ c.toNat ≤ 122 := by
  simp only [continuesName, Char.isAlphanum, Char.isDigit, Bool.or_eq_true, Bool.and_eq_true,
    decide_eq_true_eq, beq_iff_eq, isAlpha_iff] at continues
  rcases continues with (letter | digit) | rfl
  · omega
  · exact ⟨digit.1, le_trans (show c.toNat ≤ 57 from digit.2) (by decide)⟩
  · decide

theorem isBlank_of_continuesName {c : Char} (continues : continuesName c = true) :
    isBlank c = false := by
  have range := toNat_of_continuesName continues
  simp only [isBlank, Bool.or_eq_false_iff, Bool.and_eq_false_iff, decide_eq_false_iff_not,
    beq_eq_false_iff_ne]
  omega

theorem isBlank_of_isAlpha {c : Char} (letter : c.isAlpha = true) : isBlank c = false := by
  apply isBlank_of_continuesName
  simp [continuesName, Char.isAlphanum, letter]

theorem isDelimiter_of_continuesName {c : Char} (continues : continuesName c = true) :
    isDelimiter c = false := by
  rw [Bool.eq_false_iff]
  intro delimits
  simp only [isDelimiter, isPlainBlank, Bool.or_eq_true, beq_iff_eq] at delimits
  rcases delimits with (((((rfl | rfl) | rfl) | rfl) | rfl) | rfl) | rfl <;> cases continues

theorem continuesName_of_startsName {c : Char} (starts : startsName c = true) :
    continuesName c = true := by
  simp only [startsName, Bool.or_eq_true] at starts
  simp only [continuesName, Char.isAlphanum, Bool.or_eq_true]
  exact starts.elim (fun letter => .inl (.inl letter)) .inr

theorem continuesName_of_mem {name : Text} (identifier : isIdentifier name = true) {c : Char}
    (member : c ∈ name) : continuesName c = true := by
  cases name with
  | nil => cases member
  | cons d rest =>
    simp only [isIdentifier, Bool.and_eq_true, List.all_eq_true] at identifier
    rcases List.mem_cons.mp member with rfl | later
    · exact continuesName_of_startsName identifier.1
    · exact identifier.2 c later

theorem isBlank_of_isIdentifier {name : Text} (identifier : isIdentifier name = true) :
    ∀ c ∈ name, isBlank c = false :=
  fun _ member => isBlank_of_continuesName (continuesName_of_mem identifier member)

theorem isDelimiter_of_isIdentifier {name : Text} (identifier : isIdentifier name = true) :
    ∀ c ∈ name, isDelimiter c = false :=
  fun _ member => isDelimiter_of_continuesName (continuesName_of_mem identifier member)

theorem isIdentifier_of_letters {word : Text} (nonempty : word ≠ [])
    (letters : ∀ c ∈ word, c.isAlpha = true) : isIdentifier word = true := by
  obtain ⟨c, rest, rfl⟩ := List.exists_cons_of_ne_nil nonempty
  rw [List.forall_mem_cons] at letters
  rw [isIdentifier, startsName, letters.1, Bool.true_or, Bool.true_and, List.all_eq_true]
  intro d member
  simp [continuesName, Char.isAlphanum, letters.2 d member]

theorem ne_nil_of_isIdentifier {name : Text} (identifier : isIdentifier name = true) :
    name ≠ [] := by
  rintro rfl
  cases identifier

theorem solid_of_isIdentifier {name : Text} (identifier : isIdentifier name = true) : name.Solid :=
  solid_of_forall (ne_nil_of_isIdentifier identifier) (isBlank_of_isIdentifier identifier)

theorem not_mem_identifier {name : Text} (identifier : isIdentifier name = true) {c : Char}
    (other : continuesName c = false) : c ∉ name := by
  intro member
  rw [continuesName_of_mem identifier member] at other
  cases other

theorem isDigit_of_isNumber {digits : Text} (number : isNumber digits = true) :
    ∀ c ∈ digits, c.isDigit = true := by
  simp only [isNumber, Bool.and_eq_true, List.all_eq_true] at number
  exact number.2

def Numeral (text : Text) (value : Nat) : Prop :=
  ∃ digits, (text = digits ∨ text = '+' :: digits) ∧ isNumber digits = true ∧
    Nat.ofDigitChars 10 digits 0 = value

theorem Numeral.of_isNumber {digits : Text} (number : isNumber digits = true) :
    digits.Numeral (Nat.ofDigitChars 10 digits 0) :=
  ⟨digits, .inl rfl, number, rfl⟩

theorem Numeral.not_mem {text : Text} {value : Nat} (numeral : text.Numeral value) {c : Char}
    (sign : c ≠ '+') (other : c.isDigit = false) : c ∉ text := by
  obtain ⟨digits, shape, number, -⟩ := numeral
  have fresh : c ∉ digits := by
    intro member
    rw [isDigit_of_isNumber number c member] at other
    cases other
  rcases shape with rfl | rfl
  · exact fresh
  · simp [sign, fresh]

theorem numberBelow?_eq_some_iff {bound value : Nat} {text : Text} :
    numberBelow? bound text = some value ↔ text.Numeral value ∧ value < bound := by
  simp only [numberBelow?, Option.ite_none_right_eq_some, Bool.and_eq_true, decide_eq_true_eq,
    Option.some.injEq]
  constructor
  · rintro ⟨⟨number, small⟩, rfl⟩
    refine ⟨⟨_, ?_, number, rfl⟩, small⟩
    unfold afterLead?
    split
    · rename_i lead
      obtain ⟨digits, rfl⟩ := List.isPrefixOf_iff_prefix.mp lead
      exact .inr rfl
    · exact .inl rfl
  · rintro ⟨⟨digits, shape, number, rfl⟩, small⟩
    have unsigned : afterLead? ['+'] digits = none := by
      cases digits with
      | nil => rfl
      | cons c rest =>
        have differs : '+' ≠ c := by
          rintro rfl
          exact absurd (isDigit_of_isNumber number '+' List.mem_cons_self) (by decide)
        simp [afterLead?, differs]
    rcases shape with rfl | rfl
    · rw [unsigned]
      exact ⟨⟨number, small⟩, rfl⟩
    · exact ⟨⟨number, small⟩, rfl⟩

end Text

def levelText (level : Bool) : Text :=
  ['\'', if level then '1' else '0', '\'']

/-- The texts of a clause: a name, marked or not, a test of its level, or a comparison. -/
inductive ClauseForm.Written : Text → ClauseForm → Prop
  | bare {name : Text} : Text.isIdentifier name = true → Written name (.level name false)
  | marked {name : Text} : Text.isIdentifier name = true → Written ('!' :: name) (.level name true)
  | quoted {name lead tail : Text} {level : Bool} : Text.isIdentifier name = true →
      lead.PlainBlank → tail.PlainBlank →
      Written (name ++ (lead ++ ['='] ++ tail ++ levelText level)) (.level name !level)
  | compared {name lead tail digits : Text} {comparator : Comparator} :
      Text.isIdentifier name = true → lead.PlainBlank → tail.PlainBlank →
      Text.isNumber digits = true → Nat.ofDigitChars 10 digits 0 < thresholdBound →
      Written (name ++ (lead ++ comparator.symbol ++ tail ++ digits))
        (.compare comparator name (Nat.ofDigitChars 10 digits 0))

namespace ClauseForm

def Follows (c : Char) : Prop :=
  c.isAlpha = false ∧ c ≠ '(' ∧ c ≠ ')' ∧ (Text.isBlank c = true → Text.isPlainBlank c = true)

theorem follows_plainBlank {c : Char} (plain : Text.isPlainBlank c = true) : Follows c := by
  simp only [Text.isPlainBlank, Bool.or_eq_true, beq_iff_eq] at plain
  rcases plain with (((rfl | rfl) | rfl) | rfl) | rfl <;>
    exact ⟨by decide, by decide, by decide, by decide⟩

theorem follows_digit {c : Char} (digit : c.isDigit = true) : Follows c := by
  have dark := Text.isBlank_of_isDigit digit
  refine ⟨?_, ?_, ?_, ?_⟩
  · simp only [Char.isDigit, Bool.and_eq_true, decide_eq_true_eq] at digit
    have high : c.toNat ≤ 57 := digit.2
    rw [Bool.eq_false_iff, ne_eq, Text.isAlpha_iff]
    omega
  · rintro rfl
    cases digit
  · rintro rfl
    cases digit
  · rw [dark]
    intro blank
    cases blank

theorem follows_symbol {comparator : Comparator} {c : Char} (member : c ∈ comparator.symbol) :
    Follows c := by
  cases comparator <;> rw [Comparator.symbol, List.mem_singleton] at member <;> subst member <;>
    exact ⟨by decide, by decide, by decide, by decide⟩

theorem follows_levelText {level : Bool} {c : Char} (member : c ∈ levelText level) : Follows c := by
  cases level <;>
    simp only [levelText, List.mem_cons, List.not_mem_nil, or_false] at member <;>
    rcases member with rfl | rfl | rfl <;>
    exact ⟨by decide, by decide, by decide, by decide⟩

variable {text : Text} {form : ClauseForm}

theorem Written.isIdentifier (written : Written text form) : Text.isIdentifier form.name = true := by
  cases written <;> assumption

theorem Written.split (written : Written text form) :
    ∃ head rest, text = head ++ rest ∧ (head = form.name ∨ head = '!' :: form.name) ∧
      ∀ c ∈ rest, Follows c := by
  cases written with
  | bare identifier => exact ⟨_, [], (List.append_nil _).symm, .inl rfl, by simp⟩
  | marked identifier => exact ⟨_, [], (List.append_nil _).symm, .inr rfl, by simp⟩
  | quoted identifier lead tail =>
    refine ⟨_, _, rfl, .inl rfl, ?_⟩
    intro c member
    simp only [List.mem_append, List.mem_singleton] at member
    rcases member with ((blank | rfl) | blank) | level
    · exact follows_plainBlank (lead c blank)
    · exact @follows_symbol .equal '=' List.mem_cons_self
    · exact follows_plainBlank (tail c blank)
    · exact follows_levelText level
  | compared identifier lead tail number small =>
    refine ⟨_, _, rfl, .inl rfl, ?_⟩
    intro c member
    simp only [List.mem_append] at member
    rcases member with ((blank | symbol) | blank) | digit
    · exact follows_plainBlank (lead c blank)
    · exact follows_symbol symbol
    · exact follows_plainBlank (tail c blank)
    · exact follows_digit (Text.isDigit_of_isNumber number c digit)

theorem dark_of_mem_head {name head : Text} (identifier : Text.isIdentifier name = true)
    (shape : head = name ∨ head = '!' :: name) {c : Char} (member : c ∈ head) :
    Text.isDelimiter c = false ∧ Text.isBlank c = false := by
  have inName : c ∈ name → Text.isDelimiter c = false ∧ Text.isBlank c = false := fun inside =>
    ⟨Text.isDelimiter_of_isIdentifier identifier c inside,
      Text.isBlank_of_isIdentifier identifier c inside⟩
  rcases shape with rfl | rfl
  · exact inName member
  · rcases List.mem_cons.mp member with rfl | inside
    · decide
    · exact inName inside

end ClauseForm

theorem Text.compact_name_append {name lead symbol tail value : Text}
    (identifier : Text.isIdentifier name = true) (leadBlank : lead.PlainBlank)
    (tailBlank : tail.PlainBlank) (darkSymbol : ∀ c ∈ symbol, Text.isBlank c = false)
    (darkValue : ∀ c ∈ value, Text.isBlank c = false) :
    Text.compact (name ++ (lead ++ symbol ++ tail ++ value)) = name ++ symbol ++ value := by
  simp only [Text.compact_append, Text.compact_of_dark (Text.isBlank_of_isIdentifier identifier),
    Text.compact_of_dark darkSymbol, Text.compact_of_dark darkValue, Text.compact_of_allBlank leadBlank.allBlank,
    Text.compact_of_allBlank tailBlank.allBlank, List.nil_append, List.append_assoc]

namespace ClauseSpelling

def unquoted (text : Text) : Text :=
  text.filter fun c => c != '\'' && c != '"'

def plainForm (text : Text) : ClauseForm :=
  match comparison? .above text with
  | some form => form
  | none => (comparison? .equal text).getD (bareLevel text)

theorem form_eq (spelling : ClauseSpelling) :
    spelling.form = (quotedLevel? spelling.body).getD (plainForm (unquoted spelling.body)) := by
  unfold form
  cases quotedLevel? spelling.body <;> rfl

theorem mem_unquoted {text : Text} {c : Char} (single : c ≠ '\'') (double : c ≠ '"') :
    c ∈ unquoted text ↔ c ∈ text := by
  simp [unquoted, single, double]

theorem unquoted_eq_self {text : Text} (plain : ∀ c ∈ text, c ≠ '\'' ∧ c ≠ '"') :
    unquoted text = text := by
  rw [unquoted, List.filter_eq_self]
  intro c member
  simp [plain c member]

theorem unquoted_of_isIdentifier {name : Text} (identifier : Text.isIdentifier name = true) :
    ∀ c ∈ name, c ≠ '\'' ∧ c ≠ '"' := by
  intro c member
  constructor
  · rintro rfl
    exact Text.not_mem_identifier identifier (by decide) member
  · rintro rfl
    exact Text.not_mem_identifier identifier (by decide) member

theorem quotedLevel?_eq_some_iff {body : Text} {form : ClauseForm} :
    quotedLevel? body = some form ↔
      ∃ name level, body = name ++ ['='] ++ levelText level ∧ '=' ∉ name ∧
        form = .level name !level := by
  constructor
  · intro found
    unfold quotedLevel? at found
    split at found
    · rename_i name cut
      cases found
      obtain ⟨whole, fresh⟩ := Text.cut?_eq_some_iff.mp cut
      exact ⟨name, true, whole, fresh, rfl⟩
    · rename_i name cut
      cases found
      obtain ⟨whole, fresh⟩ := Text.cut?_eq_some_iff.mp cut
      exact ⟨name, false, whole, fresh, rfl⟩
    · cases found
  · rintro ⟨name, level, rfl, fresh, rfl⟩
    rw [quotedLevel?, Text.cut?_eq_some_iff.mpr ⟨rfl, fresh⟩]
    cases level <;> rfl

theorem quotedLevel?_eq_none {body : Text} (plain : '\'' ∉ body) : quotedLevel? body = none := by
  rw [Option.eq_none_iff_forall_ne_some]
  intro form found
  obtain ⟨name, level, rfl, -, -⟩ := quotedLevel?_eq_some_iff.mp found
  exact plain (by simp [levelText])

theorem comparison?_eq_some_iff {comparator : Comparator} {text : Text} {form : ClauseForm} :
    comparison? comparator text = some form ↔
      ∃ name numeral value, text = name ++ comparator.symbol ++ numeral ∧
        (∀ c ∈ comparator.symbol, c ∉ name) ∧ Text.Numeral numeral value ∧
        value < thresholdBound ∧ form = .compare comparator name value := by
  have single : ∃ c, comparator.symbol = [c] := by
    cases comparator
    · exact ⟨'>', rfl⟩
    · exact ⟨'=', rfl⟩
  obtain ⟨c, symbol⟩ := single
  rw [comparison?, symbol]
  constructor
  · intro found
    split at found
    · cases found
    · rename_i name numeral cut
      obtain ⟨whole, fresh⟩ := Text.cut?_eq_some_iff.mp cut
      obtain ⟨value, number, rfl⟩ := Option.map_eq_some_iff.mp found
      obtain ⟨isNumeral, small⟩ := Text.numberBelow?_eq_some_iff.mp number
      exact ⟨name, numeral, value, whole, by simpa using fresh, isNumeral, small, rfl⟩
  · rintro ⟨name, numeral, value, rfl, fresh, isNumeral, small, rfl⟩
    rw [Text.cut?_eq_some_iff.mpr ⟨rfl, by simpa using fresh⟩]
    simp only [Text.numberBelow?_eq_some_iff.mpr ⟨isNumeral, small⟩, Option.map_some]

theorem comparison?_eq_none {comparator : Comparator} {text : Text}
    (fresh : ∀ c ∈ comparator.symbol, c ∉ text) : comparison? comparator text = none := by
  rw [Option.eq_none_iff_forall_ne_some]
  intro form found
  obtain ⟨name, numeral, value, rfl, -⟩ := comparison?_eq_some_iff.mp found
  cases comparator <;> exact fresh _ List.mem_cons_self (by simp [Comparator.symbol])

theorem plainForm_cases (text : Text) :
    (∃ comparator name numeral value, text = name ++ Comparator.symbol comparator ++ numeral ∧
        Text.Numeral numeral value ∧ value < thresholdBound ∧
        plainForm text = .compare comparator name value) ∨
      (∃ name, text = '!' :: name ∧ plainForm text = .level name true) ∨
      plainForm text = .level text false := by
  unfold plainForm
  cases above : comparison? .above text with
  | some form =>
    obtain ⟨name, numeral, value, whole, -, rest⟩ := comparison?_eq_some_iff.mp above
    exact .inl ⟨.above, name, numeral, value, whole, rest⟩
  | none =>
    cases equal : comparison? .equal text with
    | some form =>
      obtain ⟨name, numeral, value, whole, -, rest⟩ := comparison?_eq_some_iff.mp equal
      exact .inl ⟨.equal, name, numeral, value, whole, rest⟩
    | none =>
      right
      simp only [Option.getD_none]
      unfold bareLevel
      split
      · exact .inl ⟨_, rfl, rfl⟩
      · exact .inr rfl

theorem form_cases (spelling : ClauseSpelling) :
    (∃ name level, spelling.body = name ++ ['='] ++ levelText level ∧
        spelling.form = .level name !level) ∨
      spelling.form = plainForm (unquoted spelling.body) := by
  rw [form_eq]
  cases quoted : quotedLevel? spelling.body with
  | some form =>
    obtain ⟨name, level, whole, -, rfl⟩ := quotedLevel?_eq_some_iff.mp quoted
    exact .inl ⟨name, level, whole, rfl⟩
  | none => exact .inr rfl

section Identifier

variable {name : Text} (identifier : Text.isIdentifier name = true)

include identifier

theorem plainForm_name : plainForm name = .level name false := by
  have noAbove : comparison? .above name = none := comparison?_eq_none (by
    simpa [Comparator.symbol] using Text.not_mem_identifier identifier (by decide))
  have noEqual : comparison? .equal name = none := comparison?_eq_none (by
    simpa [Comparator.symbol] using Text.not_mem_identifier identifier (by decide))
  simp only [plainForm, noAbove, noEqual, Option.getD_none]
  unfold bareLevel
  split
  · exact absurd List.mem_cons_self (Text.not_mem_identifier identifier (by decide))
  · rfl

theorem plainForm_marked : plainForm ('!' :: name) = .level name true := by
  have noAbove : comparison? .above ('!' :: name) = none := comparison?_eq_none (by
    simpa [Comparator.symbol] using Text.not_mem_identifier identifier (by decide))
  have noEqual : comparison? .equal ('!' :: name) = none := comparison?_eq_none (by
    simpa [Comparator.symbol] using Text.not_mem_identifier identifier (by decide))
  simp only [plainForm, noAbove, noEqual, Option.getD_none, bareLevel]

theorem plainForm_compared {numeral : Text} {value : Nat} (isNumeral : numeral.Numeral value)
    (small : value < thresholdBound) (comparator : Comparator) :
    plainForm (name ++ comparator.symbol ++ numeral) = .compare comparator name value := by
  have fresh : ∀ c ∈ comparator.symbol, c ∉ name := by
    cases comparator <;>
      simpa [Comparator.symbol] using Text.not_mem_identifier identifier (by decide)
  have found : comparison? comparator (name ++ comparator.symbol ++ numeral) =
      some (.compare comparator name value) :=
    comparison?_eq_some_iff.mpr ⟨name, numeral, value, rfl, fresh, isNumeral, small, rfl⟩
  cases comparator with
  | above => rw [plainForm, found]
  | equal =>
    have inName : '>' ∉ name := Text.not_mem_identifier identifier (by decide)
    have inNumeral : '>' ∉ numeral := isNumeral.not_mem (by decide) (by decide)
    have noAbove : comparison? .above (name ++ Comparator.symbol .equal ++ numeral) = none :=
      comparison?_eq_none (by simp [Comparator.symbol, inName, inNumeral])
    rw [plainForm, noAbove, found, Option.getD_some]

theorem form_bare (inverted : Bool) : form ⟨inverted, name⟩ = .level name false := by
  have plain := unquoted_of_isIdentifier identifier
  rw [form_eq, quotedLevel?_eq_none fun quote => (plain _ quote).1 rfl, Option.getD_none,
    unquoted_eq_self plain, plainForm_name identifier]

theorem form_marked (inverted : Bool) : form ⟨inverted, '!' :: name⟩ = .level name true := by
  have plain : ∀ c ∈ '!' :: name, c ≠ '\'' ∧ c ≠ '"' :=
    List.forall_mem_cons.mpr ⟨by decide, unquoted_of_isIdentifier identifier⟩
  rw [form_eq, quotedLevel?_eq_none fun quote => (plain _ quote).1 rfl, Option.getD_none,
    unquoted_eq_self plain, plainForm_marked identifier]

theorem form_quoted (level inverted : Bool) :
    form ⟨inverted, name ++ ['='] ++ levelText level⟩ = .level name !level := by
  have fresh : '=' ∉ name := Text.not_mem_identifier identifier (by decide)
  rw [form_eq, quotedLevel?_eq_some_iff.mpr ⟨name, level, rfl, fresh, rfl⟩, Option.getD_some]

theorem form_compared {digits : Text} (number : Text.isNumber digits = true)
    (small : Nat.ofDigitChars 10 digits 0 < thresholdBound) (comparator : Comparator)
    (inverted : Bool) :
    form ⟨inverted, name ++ comparator.symbol ++ digits⟩ =
      .compare comparator name (Nat.ofDigitChars 10 digits 0) := by
  have numeral := Text.Numeral.of_isNumber number
  have plain : ∀ c ∈ name ++ comparator.symbol ++ digits, c ≠ '\'' ∧ c ≠ '"' := by
    intro c member
    rcases List.mem_append.mp member with front | inside
    · rcases List.mem_append.mp front with inName | symbol
      · exact unquoted_of_isIdentifier identifier c inName
      · cases comparator <;> rw [Comparator.symbol, List.mem_singleton] at symbol <;> subst symbol <;>
          decide
    · constructor
      · rintro rfl
        exact numeral.not_mem (by decide) (by decide) inside
      · rintro rfl
        exact numeral.not_mem (by decide) (by decide) inside
  rw [form_eq, quotedLevel?_eq_none fun quote => (plain _ quote).1 rfl, Option.getD_none,
    unquoted_eq_self plain, plainForm_compared identifier numeral small]

end Identifier

/-- A clause is recognised whatever blanks stand around its operator. -/
theorem form_compact {text : Text} {form : ClauseForm} (written : form.Written text)
    (inverted : Bool) : ClauseSpelling.form ⟨inverted, Text.compact text⟩ = form := by
  cases written with
  | bare identifier =>
    rw [Text.compact_of_dark fun c member =>
      (ClauseForm.dark_of_mem_head identifier (.inl rfl) member).2]
    exact form_bare identifier inverted
  | marked identifier =>
    rw [Text.compact_of_dark fun c member =>
      (ClauseForm.dark_of_mem_head identifier (.inr rfl) member).2]
    exact form_marked identifier inverted
  | @quoted _ _ _ level identifier lead tail =>
    have dark : ∀ c ∈ levelText level, Text.isBlank c = false := by cases level <;> decide
    rw [Text.compact_name_append identifier lead tail (by decide) dark]
    exact form_quoted identifier level inverted
  | @compared _ _ _ digits comparator identifier lead tail number small =>
    have darkSymbol : ∀ c ∈ comparator.symbol, Text.isBlank c = false := by cases comparator <;> decide
    have darkDigits : ∀ c ∈ digits, Text.isBlank c = false := fun c member =>
      Text.isBlank_of_isDigit (Text.isDigit_of_isNumber number c member)
    rw [Text.compact_name_append identifier lead tail darkSymbol darkDigits]
    exact form_compared identifier number small comparator inverted

end ClauseSpelling

end TriggerLogic
