import PiKachulm.Libk.FormatBuffer
import Mathlib.Data.Nat.Digits.Lemmas

/-!
# Reading a formatted integer

The text of an integer can be read back: an optional sign, the prefix that its specifier announces, and
digits of the radix and the case of the specifier, without a zero in front of the others. What is read is
the value that has been formatted.
-/

namespace PiKachulm.Libk

/-! ### Specifiers -/

/-- The types of integers in a specifier. -/
inductive IntegerType where
  | b
  | B
  | d
  | o
  | x
  | X
  deriving DecidableEq

def IntegerType.char : IntegerType → List UInt8
  | b => bytes "b"
  | B => bytes "B"
  | d => bytes "d"
  | o => bytes "o"
  | x => bytes "x"
  | X => bytes "X"

def IntegerType.radix : IntegerType → ℕ
  | b => 2
  | B => 2
  | d => 10
  | o => 8
  | x => 16
  | X => 16

def IntegerType.alphabet : IntegerType → List UInt8
  | B => upperDigitAlphabet
  | X => upperDigitAlphabet
  | _ => lowerDigitAlphabet

/-- What `#` puts in front of the digits. -/
def IntegerType.start : IntegerType → List UInt8
  | b => bytes "0b"
  | B => bytes "0B"
  | x => bytes "0x"
  | X => bytes "0X"
  | _ => []

/-- The signs in a specifier. -/
def SignFormat.char : SignFormat → List UInt8
  | always    => bytes "+"
  | onlyMinus => bytes "-"
  | space     => bytes " "

/-- A specifier of the grammar `[+- ]?#?[bBdoxX]?`. -/
structure Specifier where
  sign : Option SignFormat
  alternate : Bool
  type : Option IntegerType

namespace Specifier

variable (s : Specifier)

def text : List UInt8 :=
  (s.sign.elim [] SignFormat.char) ++ (if s.alternate then bytes "#" else []) ++
    s.type.elim [] IntegerType.char

/-- The format string from the specifier on. -/
def field (rest : List UInt8) : Option (List UInt8) := some (s.text ++ closeBrace :: rest)

/-- The announced radix. -/
def radix : ℕ := s.type.elim 10 IntegerType.radix

/-- The digits of the announced case. -/
def alphabet : List UInt8 := s.type.elim lowerDigitAlphabet IntegerType.alphabet

/-- The announced prefix. -/
def start : List UInt8 := if s.alternate then s.type.elim [] IntegerType.start else []

end Specifier

/-! ### Reading -/

/-- An optional sign, as a factor, and what is behind it. -/
def readSign : List UInt8 → ℤ × List UInt8
  | [] => (1, [])
  | c :: text =>
    if c = '-'.toUInt8 then (-1, text)
    else if c = '+'.toUInt8 ∨ c = ' '.toUInt8 then (1, text)
    else (1, c :: text)

/-- What is behind a prefix that has to be there. -/
def readStart : List UInt8 → List UInt8 → Option (List UInt8)
  | [], text => some text
  | _ :: _, [] => none
  | c :: start, c' :: text => if c = c' then readStart start text else none

/-- The number with the digits, behind digits of the number `acc`. -/
def readDigits (alphabet : List UInt8) (radix : ℕ) : ℕ → List UInt8 → Option ℕ
  | acc, [] => some acc
  | acc, c :: text => do
    let digit ← (alphabet.take radix).idxOf? c
    readDigits alphabet radix (acc * radix + digit) text

/-- There are digits, and no zero in front of others. -/
def canonical (digits : List UInt8) : Bool :=
  digits = ['0'.toUInt8] ∨ digits ≠ [] ∧ digits.head? ≠ some '0'.toUInt8

/-- The integer that is the text of a specifier. -/
def readInteger (s : Specifier) (text : List UInt8) : Option ℤ := do
  let (sign, text) := readSign text
  let digits ← readStart s.start text
  if canonical digits then
    let value ← readDigits s.alphabet s.radix 0 digits
    return sign * value
  else none

/-- The address that is the text of a pointer: 16 digits of radix 16 behind the prefix. -/
def readPointer (text : List UInt8) : Option ℕ := do
  let digits ← readStart (bytes "0x") text
  if digits.length = 16 then readDigits lowerDigitAlphabet 16 0 digits else none

/-! ### Digits -/

variable {alphabet : List UInt8} {radix value fuel start finish k acc : ℕ} {l : List UInt8}

/-- The swaps exchange a position with the one at the same distance from the other end. -/
lemma getElem?_swapEnds (hfuel : finish - start ≤ fuel) (hfinish : finish < l.length) :
    (swapEnds fuel start finish l)[k]? =
      if start ≤ k ∧ k ≤ finish then l[start + finish - k]? else l[k]? := by
  induction fuel generalizing start finish l with
  | zero =>
    rw [swapEnds]
    split_ifs with hk
    · rw [show start + finish - k = k by omega]
    · rfl
  | succ fuel ih =>
    rw [swapEnds]
    by_cases hlt : start < finish
    · have hstart := hlt.trans hfinish
      rw [if_pos hlt, ih (by omega) (by rw [List.length_set, List.length_set]; omega)]
      simp only [List.getElem?_set, List.length_set, List.getD_eq_getElem _ _ hstart,
        List.getD_eq_getElem _ _ hfinish]
      grind
    · rw [if_neg hlt]
      split_ifs with hk
      · rw [show start + finish - k = k by omega]
      · rfl

lemma swapEnds_eq_reverse (hne : l ≠ []) : swapEnds l.length 0 (l.length - 1) l = l.reverse := by
  have hpos := List.length_pos_of_ne_nil hne
  refine List.ext_getElem? fun k => ?_
  rw [getElem?_swapEnds (Nat.sub_le_of_le_add (by omega)) (by omega)]
  split_ifs with hk
  · rw [List.getElem?_reverse (by omega)]
    congr 1
    omega
  · rw [List.getElem?_eq_none (by omega), List.getElem?_eq_none (by rw [List.length_reverse]; omega)]

lemma extractDigits_eq (hradix : 1 < radix) (hvalue : value < 2 ^ fuel) :
    extractDigits alphabet radix fuel value = (Nat.digits radix value).map fun d => alphabet.getD d 0 := by
  induction fuel generalizing value with
  | zero =>
    rw [Nat.lt_one_iff.mp hvalue, Nat.digits_zero]
    rfl
  | succ fuel ih =>
    rw [extractDigits]
    split_ifs with hpos
    · have hdiv : value / radix < 2 ^ fuel := by
        refine Nat.div_lt_of_lt_mul ?_
        rw [Nat.pow_succ, Nat.mul_comm] at hvalue
        exact hvalue.trans_le (Nat.mul_le_mul_right _ hradix)
      rw [Nat.digits_def' hradix hpos, List.map_cons, ih hdiv]
    · rw [Nat.eq_zero_of_not_pos hpos, Nat.digits_zero]
      rfl

/-- The digits of a number, the lowest one first; 0 has one. -/
def numDigits (radix value : ℕ) : List ℕ := if value = 0 then [0] else Nat.digits radix value

/-- The characters for digits below 16. -/
structure Alphabet (alphabet : List UInt8) : Prop where
  index : ∀ radix ≤ 16, ∀ d < radix, (alphabet.take radix).idxOf? (alphabet.getD d 0) = some d
  zero : ∀ d < 16, alphabet.getD d 0 = '0'.toUInt8 ↔ d = 0
  sign : ∀ d < 16, alphabet.getD d 0 ∉ ['-'.toUInt8, '+'.toUInt8, ' '.toUInt8]

lemma alphabet_lower : Alphabet lowerDigitAlphabet := by
  constructor <;> decide +kernel

lemma alphabet_upper : Alphabet upperDigitAlphabet := by
  constructor <;> decide +kernel

lemma numDigits_lt (hradix : 1 < radix) : ∀ d ∈ numDigits radix value, d < radix := by
  intro d hd
  rw [numDigits] at hd
  split_ifs at hd
  · rw [List.mem_singleton.mp hd]
    exact Nat.zero_lt_of_lt hradix
  · exact Nat.digits_lt_base hradix hd

lemma ofDigits_numDigits : Nat.ofDigits radix (numDigits radix value) = value := by
  rw [numDigits]
  split_ifs with hzero
  · rw [hzero, Nat.ofDigits_singleton]
  · exact Nat.ofDigits_digits radix value

lemma digitsOf_eq (ha : Alphabet alphabet) (hradix : 1 < radix) (hvalue : value < 2 ^ 64) :
    digitsOf alphabet radix value = (numDigits radix value).map fun d => alphabet.getD d 0 := by
  rw [digitsOf, numDigits]
  split_ifs
  · rw [List.map_singleton, (ha.zero 0 (by decide)).mpr rfl]
  · exact extractDigits_eq hradix hvalue

/-- What `uint_to_string` writes: the digits, the highest one first, behind zeros up to the width. -/
lemma uintToString_eq {lowercase : Bool} {width : Option ℕ} (hradix : 1 < radix) (hvalue : value < 2 ^ 64) :
    uintToString value radix lowercase width =
      ((numDigits radix value ++ List.replicate (width.getD 0 - (numDigits radix value).length) 0).reverse.map
        fun d => (if lowercase then lowerDigitAlphabet else upperDigitAlphabet).getD d 0) := by
  have ha : Alphabet (if lowercase then lowerDigitAlphabet else upperDigitAlphabet) := by
    split_ifs
    · exact alphabet_lower
    · exact alphabet_upper
  unfold uintToString
  dsimp only
  generalize (if lowercase then lowerDigitAlphabet else upperDigitAlphabet) = alphabet at *
  rw [← digitsOf]
  have hdigits := digitsOf_eq ha hradix hvalue
  have hne : digitsOf alphabet radix value ≠ [] := digitsOf_ne_nil
  rw [List.map_reverse, List.map_append, List.map_replicate, (ha.zero 0 (by decide)).mpr rfl, ← hdigits]
  have hlength : (numDigits radix value).length = (digitsOf alphabet radix value).length := by
    rw [hdigits, List.length_map]
  rw [hlength]
  cases width with
  | none =>
    rw [Option.getD_none, Nat.zero_sub, List.replicate_zero, List.append_nil]
    exact swapEnds_eq_reverse hne
  | some width => exact swapEnds_eq_reverse (List.append_ne_nil_of_left_ne_nil hne _)

/-! ### Reading digits -/

lemma readDigits_append {l' : List UInt8} : readDigits alphabet radix acc (l ++ l') =
    (readDigits alphabet radix acc l).bind fun acc => readDigits alphabet radix acc l' := by
  induction l generalizing acc with
  | nil => rfl
  | cons c l ih =>
    rw [List.cons_append, readDigits, readDigits]
    cases (alphabet.take radix).idxOf? c with
    | none => rfl
    | some digit => exact ih

/-- Digits are read as the number that they make. -/
lemma readDigits_eq (ha : Alphabet alphabet) (hradix : radix ≤ 16) {digits : List ℕ}
    (hdigits : ∀ d ∈ digits, d < radix) :
    readDigits alphabet radix 0 (digits.reverse.map fun d => alphabet.getD d 0) =
      some (Nat.ofDigits radix digits) := by
  induction digits with
  | nil => rfl
  | cons d digits ih =>
    have hd := hdigits d List.mem_cons_self
    rw [List.reverse_cons, List.map_append, readDigits_append,
      ih fun d' hd' => hdigits d' (List.mem_cons_of_mem _ hd'), Option.bind_some, List.map_singleton,
      readDigits, ha.index radix hradix d hd, Nat.ofDigits_cons, Nat.mul_comm, Nat.add_comm]
    rfl

lemma canonical_digits (ha : Alphabet alphabet) (hradix : 1 < radix) (hradix' : radix ≤ 16) :
    canonical ((numDigits radix value).reverse.map fun d => alphabet.getD d 0) = true := by
  rw [canonical, decide_eq_true_eq, numDigits]
  split_ifs with hzero
  · left
    rw [List.reverse_singleton, List.map_singleton, (ha.zero 0 (by decide)).mpr rfl]
  · right
    have hne : Nat.digits radix value ≠ [] := Nat.digits_ne_nil_iff_ne_zero.mpr hzero
    have hlast := Nat.getLast_digit_ne_zero radix hzero
    have hlt := Nat.digits_lt_base hradix (List.getLast_mem hne)
    refine ⟨by simpa using hne, ?_⟩
    rw [List.head?_map, List.head?_reverse, List.getLast?_eq_some_getLast hne, Option.map_some, ne_eq,
      Option.some_inj, ha.zero _ (hlt.trans_le hradix')]
    exact hlast

/-! ### Specifiers that are parsed -/

namespace Specifier

variable {s : Specifier} {rest text : List UInt8}

/-- What the parser makes of the specifier. -/
def parsed (s : Specifier) : IntegerSpec where
  radix := s.radix
  signFormat := s.sign.getD .onlyMinus
  addPrefix := s.alternate
  lowercase := s.type ≠ some .B ∧ s.type ≠ some .X

lemma parseIntegerSpec_field : parseIntegerSpec (s.field rest) = some s.parsed := by
  have hclosed : closeBrace ∉ s.text ∧ parseIntegerSpec (some (s.text ++ [closeBrace])) = some s.parsed := by
    obtain ⟨sign, alternate, type⟩ := s
    rcases sign with - | (_ | _ | _) <;> cases alternate <;> rcases type with - | (_ | _ | _ | _ | _ | _) <;>
      decide +kernel
  rw [field, parseIntegerSpec_append hclosed.1, hclosed.2]

lemma radix_cases : 1 < s.radix ∧ s.radix ≤ 16 := by
  rw [radix]
  rcases s.type with - | (_ | _ | _ | _ | _ | _) <;> decide

lemma alphabet_parsed :
    (if s.parsed.lowercase then lowerDigitAlphabet else upperDigitAlphabet) = s.alphabet := by
  obtain ⟨sign, alternate, type⟩ := s
  rcases type with - | (_ | _ | _ | _ | _ | _) <;> rfl

lemma alphabet_alphabet : Alphabet s.alphabet := by
  rw [← alphabet_parsed]
  split_ifs
  · exact alphabet_lower
  · exact alphabet_upper

/-- The characters of the digits. -/
def digits (s : Specifier) (value : ℕ) : List UInt8 :=
  (numDigits s.radix value).reverse.map fun d => s.alphabet.getD d 0

lemma outputUint_parsed (hvalue : value < 2 ^ 64) :
    outputUint value s.parsed = some (s.start ++ s.digits value) := by
  have hstart : (if s.parsed.addPrefix then s.parsed.start.getD [] else []) = s.start := by
    obtain ⟨sign, alternate, type⟩ := s
    cases alternate <;> rcases type with - | (_ | _ | _ | _ | _ | _) <;> rfl
  have hradix : 2 ≤ s.parsed.radix ∧ s.parsed.radix ≤ 36 := by
    obtain ⟨h₁, h₂⟩ := s.radix_cases
    exact ⟨h₁, h₂.trans (by decide)⟩
  rw [outputUint_eq, if_pos hradix, hstart, uintToString_eq hradix.1 hvalue, alphabet_parsed, digits]
  rw [show s.parsed.width = none from rfl, Option.getD_none, Nat.zero_sub, List.replicate_zero, List.append_nil]
  rfl

end Specifier

lemma readStart_append (start text : List UInt8) : readStart start (start ++ text) = some text := by
  induction start with
  | nil => rfl
  | cons c start ih => rw [List.cons_append, readStart, if_pos rfl, ih]

/-! ### Reading integers -/

/-- The characters that are read as a sign. -/
def signs : List UInt8 := ['-'.toUInt8, '+'.toUInt8, ' '.toUInt8]

lemma readSign_of_not_mem {text : List UInt8} (h : ∀ c ∈ text, c ∉ signs) : readSign text = (1, text) := by
  cases text with
  | nil => rfl
  | cons c text =>
    have hc := h c List.mem_cons_self
    rw [signs, List.mem_cons, List.mem_cons, List.mem_singleton, not_or] at hc
    rw [readSign, if_neg hc.1, if_neg hc.2]

lemma readSign_outputSign {positive : Bool} {signFormat : SignFormat} {text : List UInt8}
    (h : ∀ c ∈ text, c ∉ signs) :
    readSign (outputSign positive signFormat ++ text) = (if positive then 1 else -1, text) := by
  cases positive with
  | false => cases signFormat <;> rfl
  | true =>
    cases signFormat with
    | always => rfl
    | onlyMinus => exact readSign_of_not_mem h
    | space => rfl

namespace Specifier

variable {s : Specifier}

/-- No prefix has a sign. -/
lemma not_mem_signs_start : ∀ c ∈ s.start, c ∉ signs := by
  have hall : s.start.all fun c => !signs.contains c := by
    rw [start]
    split_ifs
    · rcases s.type with - | (_ | _ | _ | _ | _ | _) <;> rfl
    · rfl
  intro c hc
  simpa using List.all_eq_true.mp hall c hc

lemma not_mem_signs : ∀ c ∈ s.start ++ s.digits value, c ∉ signs := by
  intro c hc
  rcases List.mem_append.mp hc with hc | hc
  · exact not_mem_signs_start c hc
  · obtain ⟨d, hd, rfl⟩ := List.mem_map.mp hc
    have hlt := numDigits_lt s.radix_cases.1 d (List.mem_reverse.mp hd)
    exact s.alphabet_alphabet.sign d (hlt.trans_le s.radix_cases.2)

/-- The digits are read behind the sign and the prefix. -/
lemma readInteger_eq {positive : Bool} {signFormat : SignFormat} :
    readInteger s (outputSign positive signFormat ++ (s.start ++ s.digits value)) =
      some ((if positive then 1 else -1 : ℤ) * value) := by
  have hdigits : readDigits s.alphabet s.radix 0 (s.digits value) = some value := by
    rw [digits, readDigits_eq s.alphabet_alphabet s.radix_cases.2 (numDigits_lt s.radix_cases.1),
      ofDigits_numDigits]
  have hcanonical : canonical (s.digits value) = true :=
    canonical_digits s.alphabet_alphabet s.radix_cases.1 s.radix_cases.2
  simp only [readInteger, readSign_outputSign not_mem_signs, readStart_append, hcanonical, hdigits,
    Option.bind_eq_bind, Option.bind_some, if_true]
  rfl

end Specifier

/-- The value behind the sign, also when it is the least one. -/
lemma toNat_neg_of_neg {value : BitVec 64} (h : value.toInt < 0) : ((-value).toNat : ℤ) = -value.toInt := by
  have hlt := value.isLt
  rw [BitVec.toInt_eq_toNat_cond] at *
  rw [BitVec.toNat_neg]
  split_ifs at * <;> omega

lemma formatIntTo_field {s : Specifier} {rest : List UInt8} (value : BitVec 64) :
    formatIntTo value (s.field rest) =
      some (outputSign (decide (0 ≤ value.toInt)) s.parsed.signFormat ++
        (s.start ++ s.digits value.toInt.natAbs)) := by
  have hvalue : (if decide (0 ≤ value.toInt) = true then value.toNat else (-value).toNat) =
      value.toInt.natAbs := by
    by_cases hpos : 0 ≤ value.toInt
    · have hcond := BitVec.toInt_eq_toNat_cond value
      have hlt := value.isLt
      rw [if_pos (decide_eq_true hpos)]
      split_ifs at hcond <;> omega
    · have hneg := toNat_neg_of_neg (Int.not_le.mp hpos)
      rw [if_neg (by simpa using hpos)]
      omega
  have hlt : value.toInt.natAbs < 2 ^ 64 := by
    rw [← hvalue]
    split_ifs
    · exact value.isLt
    · exact (-value).isLt
  unfold formatIntTo
  simp only [Specifier.parseIntegerSpec_field, Option.bind_eq_bind, Option.bind_some, hvalue,
    Specifier.outputUint_parsed hlt]
  rfl

lemma formatUintTo_field {s : Specifier} {rest : List UInt8} (value : BitVec 64) :
    formatUintTo value (s.field rest) = some (s.start ++ s.digits value.toNat) := by
  rw [formatUintTo, Specifier.parseIntegerSpec_field]
  exact Specifier.outputUint_parsed value.isLt

/-- The digits of a pointer, behind zeros. -/
def pointerDigits (value : ℕ) : List ℕ :=
  numDigits 16 value ++ List.replicate (16 - (numDigits 16 value).length) 0

lemma formatPointerTo_eq (value : BitVec 64) : formatPointerTo value =
    some (bytes "0x" ++ (pointerDigits value.toNat).reverse.map fun d => lowerDigitAlphabet.getD d 0) := by
  rw [formatPointerTo, outputUint_eq, if_pos (by decide), uintToString_eq (by decide) value.isLt]
  rfl

lemma length_pointerDigits (hvalue : value < 2 ^ 64) : (pointerDigits value).length = 16 := by
  have hle : (numDigits 16 value).length ≤ 16 := by
    rw [numDigits]
    split_ifs
    · decide
    · exact (Nat.digits_length_le_iff (by decide) value).mpr hvalue
  rw [pointerDigits, List.length_append, List.length_replicate]
  omega

lemma readPointer_eq (hvalue : value < 2 ^ 64) : readPointer (bytes "0x" ++
    (pointerDigits value).reverse.map fun d => lowerDigitAlphabet.getD d 0) = some value := by
  have hdigits : ∀ d ∈ pointerDigits value, d < 16 := by
    intro d hd
    rcases List.mem_append.mp hd with hd | hd
    · exact numDigits_lt (by decide) d hd
    · rw [List.eq_of_mem_replicate hd]
      decide
  have hvalue' : Nat.ofDigits 16 (pointerDigits value) = value := by
    rw [pointerDigits, Nat.ofDigits_append_replicate_zero, ofDigits_numDigits]
  rw [readPointer, readStart_append, Option.bind_eq_bind, Option.bind_some, List.length_map,
    List.length_reverse, if_pos (length_pointerDigits hvalue),
    readDigits_eq alphabet_lower (Nat.le_refl _) hdigits,
    hvalue']

lemma formatArgumentAt_of_text {argument : Argument} {spec : Option (List UInt8)} {text : List UInt8}
    (h : ∀ b, argument ≠ .bool b) (htext : formatArgumentTo argument spec = some text) (buffer : Buffer)
    (out : ℕ) : formatArgumentAt buffer out argument spec =
      some (overlay buffer out text, out + text.length) := by
  rw [formatArgumentAt_eq h, htext]
  rfl

/-- The text of an integer, for any specifier, and that of a pointer are read back as the value. The
returned pointer is the one behind the text. -/
theorem formatArgumentAt_reads :
    (∀ (value : BitVec 64) (s : Specifier) (rest : List UInt8), ∃ text,
      (∀ buffer out, formatArgumentAt buffer out (.intmax value) (s.field rest) =
        some (overlay buffer out text, out + text.length)) ∧
      readInteger s text = some value.toInt) ∧
    (∀ (value : BitVec 64) (s : Specifier) (rest : List UInt8), ∃ text,
      (∀ buffer out, formatArgumentAt buffer out (.uintmax value) (s.field rest) =
        some (overlay buffer out text, out + text.length)) ∧
      readInteger s text = some (value.toNat : ℤ)) ∧
    ∀ (value : BitVec 64) (spec : Option (List UInt8)), ∃ text,
      (∀ buffer out, formatArgumentAt buffer out (.pointer value) spec =
        some (overlay buffer out text, out + text.length)) ∧
      readPointer text = some value.toNat := by
  refine ⟨fun value s rest => ?_, fun value s rest => ?_, fun value spec => ?_⟩
  · refine ⟨_, formatArgumentAt_of_text (fun _ => nofun) (formatIntTo_field value), ?_⟩
    rw [Specifier.readInteger_eq]
    congr 1
    by_cases hpos : 0 ≤ value.toInt
    · rw [if_pos (decide_eq_true hpos)]
      omega
    · rw [if_neg (by simpa using hpos)]
      omega
  · refine ⟨_, formatArgumentAt_of_text (fun _ => nofun) (formatUintTo_field value), ?_⟩
    have hread : readInteger s (outputSign true .onlyMinus ++ (s.start ++ s.digits value.toNat)) =
        some ((if true then 1 else -1 : ℤ) * value.toNat) := Specifier.readInteger_eq
    rw [if_pos rfl, Int.one_mul] at hread
    exact hread
  · exact ⟨_, formatArgumentAt_of_text (fun _ => nofun) (formatPointerTo_eq value), readPointer_eq value.isLt⟩

end PiKachulm.Libk
