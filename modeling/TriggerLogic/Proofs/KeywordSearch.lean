import Mathlib.Order.Bounds.Basic
import TriggerLogic.Proofs.DeclarationText
import TriggerLogic.Proofs.ReportedLines
import TriggerLogic.Proofs.StatementWalk
import TriggerLogic.Proofs.WholeTokens

namespace TriggerLogic.Text

def delimiterBytes : List UInt8 :=
  [0x20, 0x09, 0x0A, 0x0C, 0x0D, 0x28, 0x29]

def lowerByte (byte : UInt8) : UInt8 :=
  if 0x41 ≤ byte ∧ byte ≤ 0x5A then byte + 0x20 else byte

/-- From `place` on, the bytes of the text are those of `keyword` in any letter case, with a delimiter
or an end of the text on either side. -/
structure KeywordAt (keyword text : Text) (place : Nat) : Prop where
  spelled : (((bytes text).drop place).take (bytes keyword).length).map lowerByte =
    (bytes keyword).map lowerByte
  opened : place = 0 ∨ ∃ byte ∈ delimiterBytes, (bytes text)[place - 1]? = some byte
  closed : place + (bytes keyword).length = (bytes text).length ∨
    ∃ byte ∈ delimiterBytes, (bytes text)[place + (bytes keyword).length]? = some byte

section Encoding

variable {c : Char}

theorem utf8Size_eq_one_iff : c.utf8Size = 1 ↔ c.toNat < 128 := by
  rw [Char.utf8Size_eq_one_iff, UInt32.le_iff_toNat_le]
  exact Nat.lt_succ_iff.symm

theorem encode_ascii (ascii : c.toNat < 128) :
    ∃ byte : UInt8, String.utf8EncodeChar c = [byte] ∧ byte.toNat = c.toNat := by
  refine ⟨c.val.toUInt8, String.utf8EncodeChar_eq_singleton (utf8Size_eq_one_iff.mpr ascii), ?_⟩
  rw [UInt32.toNat_toUInt8]
  exact Nat.mod_eq_of_lt (Nat.lt_trans ascii (by decide))

theorem encode_wide (wide : 128 ≤ c.toNat) : ∀ byte ∈ String.utf8EncodeChar c, 128 ≤ byte.toNat := by
  intro byte member
  have large : c.utf8Size ≠ 1 := by
    rw [ne_eq, utf8Size_eq_one_iff]
    exact Nat.not_lt.mpr wide
  exact UInt8.le_iff_toNat_le.mp (high_of_wide large byte member)

theorem toNat_toLower (c : Char) :
    c.toLower.toNat = if 65 ≤ c.toNat ∧ c.toNat ≤ 90 then c.toNat + 32 else c.toNat := by
  unfold Char.toLower
  split
  · rename_i upper
    have small : c.toNat ≤ 90 := upper.2
    refine Eq.trans ?_ (if_pos upper).symm
    change (c.val + 32).toNat = c.val.toNat + 32
    rw [UInt32.toNat_add]
    exact Nat.mod_eq_of_lt (Nat.lt_of_le_of_lt (Nat.add_le_add_right small 32) (by decide))
  · rename_i other
    exact (if_neg other).symm

theorem toNat_lowerByte (byte : UInt8) :
    (lowerByte byte).toNat =
      if 65 ≤ byte.toNat ∧ byte.toNat ≤ 90 then byte.toNat + 32 else byte.toNat := by
  unfold lowerByte
  split
  · rename_i upper
    have small : byte.toNat ≤ 90 := UInt8.le_iff_toNat_le.mp upper.2
    rw [if_pos ⟨UInt8.le_iff_toNat_le.mp upper.1, small⟩, UInt8.toNat_add]
    exact Nat.mod_eq_of_lt (Nat.lt_of_le_of_lt (Nat.add_le_add_right small 32) (by decide))
  · rename_i other
    rw [UInt8.le_iff_toNat_le, UInt8.le_iff_toNat_le] at other
    exact (if_neg other).symm

theorem encode_toLower (c : Char) :
    String.utf8EncodeChar c.toLower = (String.utf8EncodeChar c).map lowerByte := by
  by_cases ascii : c.toNat < 128
  · have lowered : c.toLower.toNat < 128 := by
      rw [toNat_toLower]
      split <;> omega
    obtain ⟨byte, encoded, same⟩ := encode_ascii ascii
    obtain ⟨other, encodedLower, sameLower⟩ := encode_ascii lowered
    have equal : other = lowerByte byte := by
      rw [← UInt8.toNat_inj, toNat_lowerByte, sameLower, toNat_toLower, same]
    rw [encoded, encodedLower, equal, List.map_singleton]
  · have kept : c.toLower = c := by
      rw [← Char.toNat_inj, toNat_toLower, if_neg (by omega)]
    have fixed : ∀ byte ∈ String.utf8EncodeChar c, lowerByte byte = id byte := by
      intro byte member
      have wide := encode_wide (Nat.not_lt.mp ascii) byte member
      rw [← UInt8.toNat_inj, toNat_lowerByte, if_neg (by omega), id]
    rw [kept, List.map_congr_left fixed, List.map_id]

theorem bytes_cons (c : Char) (text : Text) :
    bytes (c :: text) = String.utf8EncodeChar c ++ bytes text :=
  List.flatMap_cons

theorem bytes_lower (text : Text) : bytes (lower text) = (bytes text).map lowerByte := by
  induction text with
  | nil => rfl
  | cons c text ih =>
    rw [bytes_cons, List.map_append, ← ih, ← encode_toLower]
    exact bytes_cons c.toLower (lower text)

theorem byteLength_lower (text : Text) : byteLength (lower text) = byteLength text := by
  rw [← length_bytes, bytes_lower, List.length_map, length_bytes]

theorem byteLength_of_spelled {word keyword : Text} (spelled : lower word = lower keyword) :
    byteLength word = byteLength keyword := by
  rw [← byteLength_lower word, spelled, byteLength_lower]

theorem isAscii_lower {keyword : Text} (ascii : ∀ c ∈ keyword, c.toNat < 128) :
    ∀ c ∈ lower keyword, c.toNat < 128 := by
  intro lowered member
  obtain ⟨c, listed, rfl⟩ := List.mem_map.mp member
  have small := ascii c listed
  rw [toNat_toLower]
  split <;> omega

theorem exists_char_of_low_byte {text : Text} {before after : List UInt8} {byte : UInt8}
    (split : bytes text = before ++ byte :: after) (low : byte.toNat < 128) :
    ∃ front c rest, text = front ++ c :: rest ∧ bytes front = before ∧ c.toNat = byte.toNat ∧
      bytes rest = after := by
  induction text generalizing before with
  | nil => simp [bytes] at split
  | cons c text ih =>
    rw [bytes_cons, List.append_eq_append_iff] at split
    rcases split with ⟨more, rfl, split⟩ | ⟨more, encoded, split⟩
    · obtain ⟨front, d, rest, rfl, rfl, same, behind⟩ := ih split
      exact ⟨c :: front, d, rest, rfl, bytes_cons c front, same, behind⟩
    · cases more with
      | nil =>
        obtain ⟨front, d, rest, rfl, none, same, behind⟩ := @ih [] split.symm
        refine ⟨c :: front, d, rest, rfl, ?_, same, behind⟩
        rw [bytes_cons, none, encoded, List.append_nil, List.append_nil]
      | cons first more =>
        obtain ⟨rfl, rfl⟩ := List.cons.inj split
        have ascii : c.toNat < 128 := by
          by_contra wide
          have high := encode_wide (Nat.not_lt.mp wide) byte (by simp [encoded])
          omega
        obtain ⟨only, alone, same⟩ := encode_ascii ascii
        rw [alone] at encoded
        rcases List.append_eq_singleton_iff.mp encoded.symm with ⟨rfl, single⟩ | ⟨-, none⟩
        · obtain ⟨rfl, rfl⟩ := List.cons.inj single
          exact ⟨[], c, text, rfl, rfl, same.symm, rfl⟩
        · cases none

theorem exists_of_bytes_prefix {text word : Text} {after : List UInt8}
    (ascii : ∀ c ∈ word, c.toNat < 128) (split : bytes text = bytes word ++ after) :
    ∃ rest, text = word ++ rest := by
  induction word generalizing text with
  | nil => exact ⟨text, rfl⟩
  | cons c word ih =>
    rw [List.forall_mem_cons] at ascii
    obtain ⟨byte, encoded, same⟩ := encode_ascii ascii.1
    rw [bytes_cons, encoded, List.append_assoc] at split
    obtain ⟨front, d, rest, rfl, none, equal, behind⟩ :=
      @exists_char_of_low_byte _ [] _ _ split (same ▸ ascii.1)
    obtain rfl : front = [] := by
      by_contra some
      have positive := byteLength_pos some
      rw [← length_bytes, none] at positive
      cases positive
    obtain rfl : d = c := Char.toNat_inj.mp (equal.trans same)
    obtain ⟨tail, rfl⟩ := ih ascii.2 behind
    exact ⟨tail, rfl⟩

theorem exists_of_bytes_infix {text word : Text} {before after : List UInt8} (named : word ≠ [])
    (ascii : ∀ c ∈ word, c.toNat < 128) (split : bytes text = before ++ (bytes word ++ after)) :
    ∃ front rest, text = front ++ word ++ rest ∧ bytes front = before := by
  obtain ⟨c, letters, rfl⟩ := List.exists_cons_of_ne_nil named
  rw [List.forall_mem_cons] at ascii
  obtain ⟨byte, encoded, same⟩ := encode_ascii ascii.1
  rw [bytes_cons, encoded, List.append_assoc, List.singleton_append] at split
  obtain ⟨front, d, behind, rfl, fronted, equal, follows⟩ :=
    exists_char_of_low_byte split (same ▸ ascii.1)
  obtain rfl : d = c := Char.toNat_inj.mp (equal.trans same)
  obtain ⟨rest, rfl⟩ := exists_of_bytes_prefix ascii.2 follows
  exact ⟨front, rest, by simp, fronted⟩

end Encoding

section Spelling

variable {keyword text : Text} {place : Nat}

theorem spelled_iff_exists (named : keyword ≠ []) (ascii : ∀ c ∈ keyword, c.toNat < 128) :
    (((bytes text).drop place).take (bytes keyword).length).map lowerByte =
        (bytes keyword).map lowerByte ↔
      ∃ front word rest, text = front ++ word ++ rest ∧ byteLength front = place ∧
        lower word = lower keyword := by
  have lowered : (((bytes text).drop place).take (bytes keyword).length).map lowerByte =
        (bytes keyword).map lowerByte ↔
      bytes (lower keyword) <+: (bytes (lower text)).drop place := by
    rw [List.prefix_iff_eq_take, bytes_lower, bytes_lower, List.length_map, List.map_take,
      List.map_drop]
    exact eq_comm
  rw [lowered]
  constructor
  · rintro ⟨after, behind⟩
    have lowerNamed : lower keyword ≠ [] := by simpa [lower] using named
    have inside : place < (bytes (lower text)).length := by
      have positive := byteLength_pos lowerNamed
      have length := congrArg List.length behind
      rw [List.length_append, length_bytes, List.length_drop] at length
      omega
    have split : bytes (lower text) =
        (bytes (lower text)).take place ++ (bytes (lower keyword) ++ after) := by
      rw [behind, List.take_append_drop]
    obtain ⟨lead, tail, whole, fronted⟩ :=
      exists_of_bytes_infix lowerNamed (isAscii_lower ascii) split
    obtain ⟨start, rest, rfl, starts, -⟩ := List.map_eq_append_iff.mp whole
    obtain ⟨front, word, rfl, rfl, spelled⟩ := List.map_eq_append_iff.mp starts
    refine ⟨front, word, rest, rfl, ?_, spelled⟩
    rw [← byteLength_lower, ← length_bytes, lower, fronted, List.length_take]
    exact Nat.min_eq_left (Nat.le_of_lt inside)
  · rintro ⟨front, word, rest, rfl, rfl, spelled⟩
    rw [← spelled, lower_append, lower_append, bytes_append, bytes_append, List.append_assoc,
      ← byteLength_lower, ← length_bytes, List.drop_left]
    exact List.prefix_append _ _

theorem mem_delimiterBytes_iff {byte : UInt8} {c : Char} (same : byte.toNat = c.toNat) :
    byte ∈ delimiterBytes ↔ isDelimiter c = true := by
  simp only [delimiterBytes, isDelimiter, isPlainBlank, List.mem_cons, List.not_mem_nil, or_false,
    Bool.or_eq_true, beq_iff_eq, ← UInt8.toNat_inj, ← Char.toNat_inj, same, or_assoc]
  rfl

theorem toNat_of_mem_delimiterBytes {byte : UInt8} (member : byte ∈ delimiterBytes) :
    byte.toNat < 128 := by
  simp only [delimiterBytes, List.mem_cons, List.not_mem_nil, or_false] at member
  rcases member with rfl | rfl | rfl | rfl | rfl | rfl | rfl <;> decide

theorem toNat_of_isDelimiter {c : Char} (delimits : isDelimiter c = true) : c.toNat < 128 := by
  simp only [isDelimiter, isPlainBlank, Bool.or_eq_true, beq_iff_eq] at delimits
  rcases delimits with (((((rfl | rfl) | rfl) | rfl) | rfl) | rfl) | rfl <;> decide

theorem delimiterByte_iff {c : Char} {index : Nat} (inside : index < c.utf8Size) :
    (∃ byte ∈ delimiterBytes, (String.utf8EncodeChar c)[index]? = some byte) ↔
      isDelimiter c = true := by
  by_cases ascii : c.toNat < 128
  · obtain ⟨byte, encoded, same⟩ := encode_ascii ascii
    have first : index = 0 := by
      rw [utf8Size_eq_one_iff.mpr ascii] at inside
      exact Nat.lt_one_iff.mp inside
    rw [encoded, first, ← mem_delimiterBytes_iff same]
    simp
  · constructor
    · rintro ⟨byte, member, found⟩
      have high := encode_wide (Nat.not_lt.mp ascii) byte (List.mem_of_getElem? found)
      exact absurd (toNat_of_mem_delimiterBytes member) (Nat.not_lt.mpr high)
    · intro delimits
      exact absurd (toNat_of_isDelimiter delimits) ascii

theorem opened_iff (front rest : Text) :
    (byteLength front = 0 ∨
        ∃ byte ∈ delimiterBytes, (bytes (front ++ rest))[byteLength front - 1]? = some byte) ↔
      front.getLast?.all isDelimiter = true := by
  rcases List.eq_nil_or_concat' front with rfl | ⟨front, c, rfl⟩
  · simp [byteLength]
  · have positive := c.utf8Size_pos
    have size : byteLength (front ++ [c]) = (bytes front).length + c.utf8Size := by
      rw [byteLength_append, length_bytes]
      rfl
    have last : (bytes (front ++ [c] ++ rest))[byteLength (front ++ [c]) - 1]? =
        (String.utf8EncodeChar c)[c.utf8Size - 1]? := by
      rw [List.append_assoc, bytes_append, size, List.getElem?_append_right (by omega),
        List.singleton_append, bytes_cons, List.getElem?_append_left]
      · congr 1
        omega
      · rw [String.length_utf8EncodeChar]
        omega
    have some : ¬ byteLength (front ++ [c]) = 0 := by omega
    rw [last, delimiterByte_iff (by omega), List.getLast?_concat, Option.all_some, or_iff_right some]

theorem closed_iff (front rest : Text) :
    (byteLength front = (bytes (front ++ rest)).length ∨
        ∃ byte ∈ delimiterBytes, (bytes (front ++ rest))[byteLength front]? = some byte) ↔
      rest.head?.all isDelimiter = true := by
  rw [bytes_append, ← length_bytes, List.getElem?_append_right (Nat.le_refl _), Nat.sub_self,
    List.length_append]
  cases rest with
  | nil => simp [bytes]
  | cons c rest =>
    have positive := c.utf8Size_pos
    have size : (String.utf8EncodeChar c).length = c.utf8Size := String.length_utf8EncodeChar c
    have more : ¬ (bytes front).length = (bytes front).length + (bytes (c :: rest)).length := by
      rw [bytes_cons, List.length_append]
      omega
    rw [or_iff_right more, bytes_cons, List.getElem?_append_left (by omega),
      delimiterByte_iff positive, List.head?_cons, Option.all_some]

theorem tokenAt_spelled {word : Text} (spelled : lower word = lower keyword) (front rest : Text) :
    tokenAt keyword (front ++ word ++ rest) front.length =
      (front.getLast?.all isDelimiter && rest.head?.all isDelimiter) := by
  rw [List.append_assoc, tokenAt_length, startsWithKeyword, ← length_of_spelled spelled,
    List.take_left, List.drop_left, spelled, beq_self_eq_true, Bool.true_and]

theorem exists_of_tokenAt {index : Nat} (named : keyword ≠ [])
    (token : tokenAt keyword text index = true) :
    ∃ front word rest, text = front ++ word ++ rest ∧ front.length = index ∧
      lower word = lower keyword := by
  simp only [tokenAt, Bool.and_eq_true, beq_iff_eq] at token
  obtain ⟨⟨-, spelled⟩, -⟩ := token
  refine ⟨text.take index, (text.drop index).take keyword.length,
    (text.drop index).drop keyword.length, ?_, ?_, spelled⟩
  · rw [List.append_assoc, List.take_append_drop, List.take_append_drop]
  · have length := length_of_spelled spelled
    have positive := List.length_pos_iff.mpr named
    rw [List.length_take, List.length_drop] at length
    rw [List.length_take]
    omega

theorem lt_length_of_tokenAt {index : Nat} (named : keyword ≠ [])
    (token : tokenAt keyword text index = true) : index < text.length := by
  obtain ⟨front, word, rest, rfl, rfl, spelled⟩ := exists_of_tokenAt named token
  have length := length_of_spelled spelled
  have positive := List.length_pos_iff.mpr named
  rw [List.length_append, List.length_append]
  omega

theorem keywordAt_append_iff (named : keyword ≠ []) (ascii : ∀ c ∈ keyword, c.toNat < 128)
    {word : Text} (spelled : lower word = lower keyword) (front rest : Text) :
    KeywordAt keyword (front ++ word ++ rest) (byteLength front) ↔
      tokenAt keyword (front ++ word ++ rest) front.length = true := by
  have stop : byteLength front + (bytes keyword).length = byteLength (front ++ word) := by
    rw [byteLength_append, length_bytes, byteLength_of_spelled spelled]
  rw [tokenAt_spelled spelled, Bool.and_eq_true, ← opened_iff front (word ++ rest),
    ← closed_iff (front ++ word) rest, ← List.append_assoc, ← stop]
  constructor
  · rintro ⟨-, opened, closed⟩
    exact ⟨opened, closed⟩
  · rintro ⟨opened, closed⟩
    have stands := (spelled_iff_exists named ascii).mpr ⟨front, word, rest, rfl, rfl, spelled⟩
    exact ⟨stands, opened, closed⟩

/-- Bytes and characters agree on where a keyword stands. -/
theorem keywordAt_iff (named : keyword ≠ []) (ascii : ∀ c ∈ keyword, c.toNat < 128) :
    KeywordAt keyword text place ↔
      ∃ index, tokenAt keyword text index = true ∧ byteLength (text.take index) = place := by
  constructor
  · intro stands
    obtain ⟨front, word, rest, rfl, rfl, spelled⟩ :=
      (spelled_iff_exists named ascii).mp stands.spelled
    refine ⟨front.length, (keywordAt_append_iff named ascii spelled front rest).mp stands, ?_⟩
    rw [List.append_assoc, List.take_left]
  · rintro ⟨index, token, rfl⟩
    obtain ⟨front, word, rest, rfl, rfl, spelled⟩ := exists_of_tokenAt named token
    rw [List.append_assoc, List.take_left, ← List.append_assoc]
    exact (keywordAt_append_iff named ascii spelled front rest).mpr token

end Spelling

section Search

theorem length_splitBytes_le_iff {text : Text} {place : Nat} (inside : place < text.length)
    (count : Nat) :
    (splitBytes count text).1.length ≤ place ↔ count ≤ byteLength (text.take place) := by
  induction text generalizing place count with
  | nil => cases inside
  | cons c text ih =>
    cases count with
    | zero => simp [splitBytes]
    | succ count =>
      cases place with
      | zero => simp [splitBytes, byteLength]
      | succ place =>
        have later := ih (Nat.lt_of_succ_lt_succ inside) (count + 1 - c.utf8Size)
        rw [splitBytes, List.take_succ_cons, byteLength, List.length_cons]
        omega

theorem splitBytes_flatten (count : Nat) (text : Text) :
    (splitBytes count text).1 ++ (splitBytes count text).2 = text := by
  induction text generalizing count with
  | nil => cases count <;> rfl
  | cons c text ih =>
    cases count with
    | zero => rfl
    | succ count => rw [splitBytes, List.cons_append, ih]

theorem findKeyword?_of_ne_nil {keyword : Text} (named : keyword ≠ []) (text : Text) (start : Nat) :
    findKeyword? keyword text start =
      (cutKeyword? keyword ((splitBytes start text).1.getLast?.all isDelimiter)
        (splitBytes start text).2).map fun parts =>
          byteLength ((splitBytes start text).1 ++ parts.1) := by
  rw [findKeyword?, if_neg (by simpa using named)]
  simp only [byteLength_append]

theorem findKeyword?_append {keyword : Text} (named : keyword ≠ []) (front rest : Text) :
    findKeyword? keyword (front ++ rest) (byteLength front) =
      (cutKeyword? keyword (front.getLast?.all isDelimiter) rest).map fun parts =>
        byteLength (front ++ parts.1) := by
  rw [findKeyword?_of_ne_nil named, splitBytes_append]

theorem findKeyword?_eq {keyword : Text} (named : keyword ≠ []) (text : Text) (start : Nat) :
    findKeyword? keyword text start =
      (firstToken? keyword text (splitBytes start text).1.length).map fun index =>
        byteLength (text.take index) := by
  have whole := splitBytes_flatten start text
  rw [findKeyword?_of_ne_nil named]
  generalize splitBytes start text = parts at whole ⊢
  obtain ⟨front, rest⟩ := parts
  subst whole
  rw [firstToken?_append]
  cases cut : cutKeyword? keyword (front.getLast?.all isDelimiter) rest with
  | none => rw [Option.map_none, Option.map_none, Option.map_none]
  | some parts =>
    obtain ⟨before, after⟩ := parts
    obtain ⟨word, rfl, -⟩ := cutKeyword?_eq_some cut
    rw [Option.map_some, Option.map_some, Option.map_some, List.append_assoc before,
      ← List.append_assoc front, List.take_left]

theorem byteLength_take_mono (text : Text) {index other : Nat} (ordered : index ≤ other) :
    byteLength (text.take index) ≤ byteLength (text.take other) := by
  obtain ⟨rest, split⟩ := List.take_prefix_take_left (l := text) ordered
  rw [← split, byteLength_append]
  omega

variable {keyword text : Text} {start place : Nat} (named : keyword ≠ [])
  (ascii : ∀ c ∈ keyword, c.toNat < 128)

include named ascii

theorem keywordAt_from_iff :
    start ≤ place ∧ KeywordAt keyword text place ↔
      ∃ index, index ∈ List.range' (splitBytes start text).1.length
          (text.length - (splitBytes start text).1.length) ∧
        tokenAt keyword text index = true ∧ byteLength (text.take index) = place := by
  rw [keywordAt_iff named ascii]
  constructor
  · rintro ⟨starts, index, token, rfl⟩
    have inside := lt_length_of_tokenAt named token
    have later := (length_splitBytes_le_iff inside start).mpr starts
    exact ⟨index, List.mem_range'_1.mpr ⟨later, by omega⟩, token, rfl⟩
  · rintro ⟨index, listed, token, rfl⟩
    have inside := lt_length_of_tokenAt named token
    rw [List.mem_range'_1] at listed
    exact ⟨(length_splitBytes_le_iff inside start).mp listed.1, index, token, rfl⟩

theorem isLeast_of_findKeyword? (found : findKeyword? keyword text start = some place) :
    IsLeast {place | start ≤ place ∧ KeywordAt keyword text place} place := by
  rw [findKeyword?_eq named] at found
  obtain ⟨index, first, rfl⟩ := Option.map_eq_some_iff.mp found
  obtain ⟨token, listed, none⟩ := List.find?_range'_eq_some.mp first
  refine ⟨(keywordAt_from_iff named ascii).mpr ⟨index, listed, token, rfl⟩, ?_⟩
  intro other stands
  obtain ⟨later, laterListed, laterToken, rfl⟩ := (keywordAt_from_iff named ascii).mp stands
  refine byteLength_take_mono text (Nat.not_lt.mp fun earlier => ?_)
  have clear := none later (List.mem_range'_1.mp laterListed).1 earlier
  rw [laterToken] at clear
  cases clear

theorem not_keywordAt_of_findKeyword? (missing : findKeyword? keyword text start = none)
    (starts : start ≤ place) : ¬ KeywordAt keyword text place := by
  intro stands
  rw [findKeyword?_eq named, Option.map_eq_none_iff] at missing
  obtain ⟨index, listed, token, -⟩ := (keywordAt_from_iff named ascii).mp ⟨starts, stands⟩
  exact List.find?_eq_none.mp missing index listed token

theorem KeywordAt.exists_at (stands : KeywordAt keyword text place) :
    ∃ word, text.At place (place + byteLength keyword) word := by
  obtain ⟨front, word, rest, rfl, rfl, spelled⟩ :=
    (spelled_iff_exists named ascii).mp stands.spelled
  exact ⟨word, front, rest, rfl, rfl, by rw [byteLength_of_spelled spelled]⟩

end Search

/-- A search from any byte on, be it inside a character, finds the first place where the bytes of the
keyword stand between delimiters or the ends of the text, and nothing exactly if there is no such
place. What it finds begins and ends between characters. Cutting at a keyword, as the reader of
conditions does, cuts where the search finds it. -/
theorem keyword_found_at_first_place {keyword : Text} (named : keyword ≠ [])
    (ascii : ∀ c ∈ keyword, c.toNat < 128) (text : Text) (start : Nat) :
    (∀ place, findKeyword? keyword text start = some place ↔
      IsLeast {place | start ≤ place ∧ KeywordAt keyword text place} place) ∧
    (∀ place, findKeyword? keyword text start = some place →
      text.Boundary place ∧ text.Boundary (place + byteLength keyword)) ∧
    (findKeyword? keyword text start = none ↔
      ∀ place, start ≤ place → ¬ KeywordAt keyword text place) ∧
    ∀ front rest, text = front ++ rest → start = byteLength front →
      findKeyword? keyword text start =
        (cutKeyword? keyword (front.getLast?.all isDelimiter) rest).map fun parts =>
          byteLength (front ++ parts.1) := by
  refine ⟨?_, ?_, ?_, ?_⟩
  · intro place
    refine ⟨isLeast_of_findKeyword? named ascii, fun least => ?_⟩
    cases found : findKeyword? keyword text start with
    | none => exact absurd least.1.2 (not_keywordAt_of_findKeyword? named ascii found least.1.1)
    | some other => rw [(isLeast_of_findKeyword? named ascii found).unique least]
  · intro place found
    have stands := (isLeast_of_findKeyword? named ascii found).1.2
    obtain ⟨word, placed⟩ := stands.exists_at named ascii
    exact ⟨placed.boundary_start, placed.boundary_stop⟩
  · refine ⟨fun missing place => not_keywordAt_of_findKeyword? named ascii missing, fun clear => ?_⟩
    cases found : findKeyword? keyword text start with
    | none => rfl
    | some place =>
      have stands := (isLeast_of_findKeyword? named ascii found).1
      exact absurd stands.2 (clear place stands.1)
  · rintro front rest rfl rfl
    exact findKeyword?_append named front rest

theorem and_found_in_mixed_text :
    "and".toList ≠ [] ∧ (∀ c ∈ ("and".toList : Text), c.toNat < 128) ∧
      IsLeast {place | 1 ≤ place ∧ KeywordAt "and".toList "ä and(bandß AND\tz".toList place} 3 ∧
      IsLeast {place | 4 ≤ place ∧ KeywordAt "and".toList "ä and(bandß AND\tz".toList place} 14 ∧
      Boundary "ä and(bandß AND\tz".toList 14 ∧ Boundary "ä and(bandß AND\tz".toList 17 ∧
      ∀ place, 15 ≤ place → ¬ KeywordAt "and".toList "ä and(bandß AND\tz".toList place := by
  have named : "and".toList ≠ [] := by decide
  have ascii : ∀ c ∈ ("and".toList : Text), c.toNat < 128 := by decide
  have first := keyword_found_at_first_place named ascii "ä and(bandß AND\tz".toList
  obtain ⟨early, -⟩ := first 1
  obtain ⟨late, placed, -⟩ := first 4
  obtain ⟨-, -, gone, -⟩ := first 15
  exact ⟨named, ascii, (early 3).mp (by decide), (late 14).mp (by decide), (placed 14 (by decide)).1,
    (placed 14 (by decide)).2, gone.mp (by decide)⟩

end TriggerLogic.Text
