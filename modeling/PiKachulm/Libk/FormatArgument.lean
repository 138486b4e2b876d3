import Mathlib.Algebra.Order.Ring.Nat
import Mathlib.Data.List.Basic
import Mathlib.Tactic.Common

/-!
# Formatting one argument

`format_argument_to` of `format_impl.cpp`. A pointer into the format string is what is left of the string
from there on, with its NUL; nothing can be read behind the last byte. What is written is the list of the
bytes between the old and the new end of the output. A failed assertion gives no result.
-/

namespace PiKachulm.Libk

/-- The character `{`. -/
def openBrace : UInt8 := 0x7b

/-- The character `}`. -/
def closeBrace : UInt8 := 0x7d

/-- The bytes of a text of ASCII characters. -/
def bytes (text : String) : List UInt8 := text.toList.map Char.toUInt8

def lowerDigitAlphabet : List UInt8 := bytes "0123456789abcdefghijklmnopqrstuvwxyz"

def upperDigitAlphabet : List UInt8 := bytes "0123456789ABCDEFGHIJKLMNOPQRSTUVWXYZ"

/-! ### Numbers -/

/-- The digits in reverse order. A value of 64 bits has at most 64 digits. -/
def extractDigits (alphabet : List UInt8) (radix : ℕ) : ℕ → ℕ → List UInt8
  | 0, _ => []
  | fuel + 1, value =>
    if 0 < value then
      alphabet.getD (value % radix) 0 :: extractDigits alphabet radix fuel (value / radix)
    else []

/-- The swaps of a buffer's bytes, from its two ends to its middle. -/
def swapEnds : ℕ → ℕ → ℕ → List UInt8 → List UInt8
  | 0, _, _, buffer => buffer
  | fuel + 1, start, finish, buffer =>
    if start < finish then
      swapEnds fuel (start + 1) (finish - 1)
        ((buffer.set start (buffer.getD finish 0)).set finish (buffer.getD start 0))
    else buffer

def uintToString (value radix : ℕ) (lowercase : Bool) (width : Option ℕ) : List UInt8 :=
  let alphabet := if lowercase then lowerDigitAlphabet else upperDigitAlphabet
  let digits := if value = 0 then ['0'.toUInt8] else extractDigits alphabet radix 64 value
  let buffer := match width with
    | none => digits
    | some width => digits ++ List.replicate (width - digits.length) '0'.toUInt8
  swapEnds buffer.length 0 (buffer.length - 1) buffer

/-- Where a sign is written. -/
inductive SignFormat
  /-- In front of nonnegative as well as negative numbers. -/
  | always
  /-- In front of negative numbers. -/
  | onlyMinus
  /-- A space in front of nonnegative numbers. -/
  | space
  deriving DecidableEq

structure IntegerSpec where
  /-- There is no width when it is `SIZE_MAX`. -/
  width : Option ℕ := none
  radix : ℕ := 10
  signFormat : SignFormat := .onlyMinus
  addPrefix : Bool := false
  lowercase : Bool := true
  deriving DecidableEq

/-- The sign format, and the specifier behind it. -/
def parseSignFormat : List UInt8 → Option (SignFormat × List UInt8)
  | [] => none
  | c :: spec =>
    if c = '+'.toUInt8 then some (.always, spec)
    else if c = '-'.toUInt8 then some (.onlyMinus, spec)
    else if c = ' '.toUInt8 then some (.space, spec)
    else some (.onlyMinus, c :: spec)

/-- The alternate form. -/
def parseAlternate : List UInt8 → Option (Bool × List UInt8)
  | [] => none
  | c :: spec => if c = '#'.toUInt8 then some (true, spec) else some (false, c :: spec)

/-- The radix and the case of the letters. -/
def parseType : List UInt8 → Option ((ℕ × Bool) × List UInt8)
  | [] => none
  | c :: spec =>
    if c = 'b'.toUInt8 then some ((2, true), spec)
    else if c = 'B'.toUInt8 then some ((2, false), spec)
    else if c = 'd'.toUInt8 then some ((10, true), spec)
    else if c = 'o'.toUInt8 then some ((8, true), spec)
    else if c = 'x'.toUInt8 then some ((16, true), spec)
    else if c = 'X'.toUInt8 then some ((16, false), spec)
    else some ((10, true), c :: spec)

/-- Nothing but the end of the field may be left. -/
def closes : List UInt8 → Option Unit
  | [] => none
  | c :: _ => if c = closeBrace then some () else none

def parseIntegerSpec : Option (List UInt8) → Option IntegerSpec
  | none => some {}
  | some spec => do
    let (signFormat, spec) ← parseSignFormat spec
    let (addPrefix, spec) ← parseAlternate spec
    let ((radix, lowercase), spec) ← parseType spec
    closes spec
    return { radix, signFormat, addPrefix, lowercase }

def outputSign (positive : Bool) (signFormat : SignFormat) : List UInt8 :=
  if !positive then ['-'.toUInt8]
  else match signFormat with
    | .always => ['+'.toUInt8]
    | .onlyMinus => []
    | .space => [' '.toUInt8]

def outputUint (value : ℕ) (spec : IntegerSpec) : Option (List UInt8) :=
  let start :=
    if spec.addPrefix then
      if spec.radix = 2 then (if spec.lowercase then bytes "0b" else bytes "0B")
      else if spec.radix = 16 then (if spec.lowercase then bytes "0x" else bytes "0X")
      else []
    else []
  if 2 ≤ spec.radix ∧ spec.radix ≤ 36 then
    some (start ++ uintToString value spec.radix spec.lowercase spec.width)
  else none

/-- The value behind the sign is negated in 64 bits. -/
def formatIntTo (value : BitVec 64) (spec : Option (List UInt8)) : Option (List UInt8) := do
  let parsedSpec ← parseIntegerSpec spec
  let positive := decide (0 ≤ value.toInt)
  let digits ← outputUint (if positive then value.toNat else (-value).toNat) parsedSpec
  return outputSign positive parsedSpec.signFormat ++ digits

def formatUintTo (value : BitVec 64) (spec : Option (List UInt8)) : Option (List UInt8) := do
  let parsedSpec ← parseIntegerSpec spec
  outputUint value.toNat parsedSpec

def formatPointerTo (value : BitVec 64) : Option (List UInt8) :=
  outputUint value.toNat { radix := 16, addPrefix := true, width := some 16 }

def formatBoolTo (value : Bool) (spec : Option (List UInt8)) : Option (List UInt8) :=
  let text := if value then bytes "true" else bytes "false"
  match spec with
  | none => some text
  | some [] => none
  | some (c :: spec) =>
    if c = closeBrace then some text
    else formatIntTo (if value then 1 else 0) (some (c :: spec))

/-! ### Characters -/

/-- The loop of `parse_string_spec`: whether the debug form is asked for. -/
def debugAtEnd (isChar : Bool) : Bool → List UInt8 → Option Bool
  | _, [] => none
  | debug, c :: spec =>
    if c = closeBrace then some debug
    else if c = '$'.toUInt8 then debugAtEnd isChar true spec
    else if isChar ∧ c = 'c'.toUInt8 then debugAtEnd isChar false spec
    else if ¬isChar ∧ c = 's'.toUInt8 then debugAtEnd isChar false spec
    else none

def parseStringSpec (isChar : Bool) : Option (List UInt8) → Option Bool
  | none => some false
  | some spec => debugAtEnd isChar false spec

/-- The character with escapes; a `char` is unsigned. -/
def outputDebugChar (value : UInt8) : List UInt8 :=
  if value = 0x27 then [0x5c, 0x27]
  else if value = 0x09 then [0x5c, 't'.toUInt8]
  else if value = 0x0a then [0x5c, 'n'.toUInt8]
  else if value = 0x0d then [0x5c, 'r'.toUInt8]
  else if value < 0x20 ∨ 0x7e < value then
    [0x5c, 'x'.toUInt8, lowerDigitAlphabet.getD (value.toNat / 16) 0,
      lowerDigitAlphabet.getD (value.toNat % 16) 0]
  else [value]

def formatCharTo (value : UInt8) (spec : Option (List UInt8)) : Option (List UInt8) := do
  let debug ← parseStringSpec true spec
  return if debug then 0x27 :: outputDebugChar value ++ [0x27] else [value]

def formatStringTo (value : List UInt8) (spec : Option (List UInt8)) : Option (List UInt8) := do
  let debug ← parseStringSpec false spec
  return if debug then 0x22 :: value.flatMap outputDebugChar ++ [0x22] else value

/-! ### Arguments -/

inductive Argument
  | bool (value : Bool)
  | char (value : UInt8)
  | intmax (value : BitVec 64)
  | uintmax (value : BitVec 64)
  | pointer (value : BitVec 64)
  | string (value : List UInt8)
  deriving DecidableEq

def formatArgumentTo : Argument → Option (List UInt8) → Option (List UInt8)
  | .bool value, spec => formatBoolTo value spec
  | .char value, spec => formatCharTo value spec
  | .intmax value, spec => formatIntTo value spec
  | .uintmax value, spec => formatUintTo value spec
  | .pointer value, _ => formatPointerTo value
  | .string value, spec => formatStringTo value spec

/-! ### The end of a specifier

Only the specifier and the brace that ends the field are read. -/

variable {t rest : List UInt8}

lemma debugAtEnd_append (ht : closeBrace ∉ t) (isChar debug : Bool) :
    debugAtEnd isChar debug (t ++ closeBrace :: rest) = debugAtEnd isChar debug (t ++ [closeBrace]) := by
  induction t generalizing debug with
  | nil => simp [debugAtEnd]
  | cons c t ih =>
    rw [List.mem_cons, not_or] at ht
    simp only [List.cons_append, debugAtEnd, ih ht.2]

/-- A parser of the front of a specifier that stops at the closing brace does not see what follows. -/
def StopsAtBrace {α : Type} (parse : List UInt8 → Option (α × List UInt8)) : Prop :=
  ∀ ⦃t : List UInt8⦄, closeBrace ∉ t → ∀ rest,
    ∃ a u, closeBrace ∉ u ∧ parse (t ++ closeBrace :: rest) = some (a, u ++ closeBrace :: rest) ∧
      parse (t ++ [closeBrace]) = some (a, u ++ [closeBrace])

lemma stopsAtBrace_parseSignFormat : StopsAtBrace parseSignFormat := by
  intro t ht rest
  cases t with
  | nil => exact ⟨_, [], ht, rfl, rfl⟩
  | cons c t =>
    have ht' : closeBrace ∉ t := fun hmem => ht (List.mem_cons_of_mem _ hmem)
    simp only [List.cons_append, parseSignFormat]
    split_ifs
    · exact ⟨_, t, ht', rfl, rfl⟩
    · exact ⟨_, t, ht', rfl, rfl⟩
    · exact ⟨_, t, ht', rfl, rfl⟩
    · exact ⟨_, c :: t, ht, rfl, rfl⟩

lemma stopsAtBrace_parseAlternate : StopsAtBrace parseAlternate := by
  intro t ht rest
  cases t with
  | nil => exact ⟨_, [], ht, rfl, rfl⟩
  | cons c t =>
    have ht' : closeBrace ∉ t := fun hmem => ht (List.mem_cons_of_mem _ hmem)
    simp only [List.cons_append, parseAlternate]
    split_ifs
    · exact ⟨_, t, ht', rfl, rfl⟩
    · exact ⟨_, c :: t, ht, rfl, rfl⟩

lemma stopsAtBrace_parseType : StopsAtBrace parseType := by
  intro t ht rest
  cases t with
  | nil => exact ⟨_, [], ht, rfl, rfl⟩
  | cons c t =>
    have ht' : closeBrace ∉ t := fun hmem => ht (List.mem_cons_of_mem _ hmem)
    simp only [List.cons_append, parseType]
    split_ifs
    iterate 6 exact ⟨_, t, ht', rfl, rfl⟩
    exact ⟨_, c :: t, ht, rfl, rfl⟩

lemma closes_append (t rest : List UInt8) :
    closes (t ++ closeBrace :: rest) = closes (t ++ [closeBrace]) := by
  cases t with
  | nil => rfl
  | cons c t => rfl

lemma parseIntegerSpec_append (ht : closeBrace ∉ t) :
    parseIntegerSpec (some (t ++ closeBrace :: rest)) =
      parseIntegerSpec (some (t ++ [closeBrace])) := by
  obtain ⟨signFormat, u, hu, hsign, hsign'⟩ := stopsAtBrace_parseSignFormat ht rest
  obtain ⟨addPrefix, v, hv, halternate, halternate'⟩ := stopsAtBrace_parseAlternate hu rest
  obtain ⟨kind, w, -, htype, htype'⟩ := stopsAtBrace_parseType hv rest
  simp only [parseIntegerSpec, hsign, hsign', halternate, halternate', htype, htype',
    Option.bind_eq_bind, Option.bind_some, closes_append w rest]

lemma formatIntTo_append (ht : closeBrace ∉ t) (value : BitVec 64) :
    formatIntTo value (some (t ++ closeBrace :: rest)) = formatIntTo value (some (t ++ [closeBrace])) := by
  simp only [formatIntTo, parseIntegerSpec_append ht]

/-- What is formatted depends on the specifier in front of the closing brace only. -/
lemma formatArgumentTo_append (ht : closeBrace ∉ t) (argument : Argument) :
    formatArgumentTo argument (some (t ++ closeBrace :: rest)) =
      formatArgumentTo argument (some (t ++ [closeBrace])) := by
  cases argument with
  | bool value =>
    cases t with
    | nil => rfl
    | cons c t =>
      have hint : formatIntTo (if value then 1 else 0) (some (c :: t ++ closeBrace :: rest)) = _ :=
        formatIntTo_append ht _
      rw [List.cons_append] at hint
      simp only [formatArgumentTo, formatBoolTo, List.cons_append, hint]
  | char value => simp only [formatArgumentTo, formatCharTo, parseStringSpec, debugAtEnd_append ht]
  | intmax value => exact formatIntTo_append ht value
  | uintmax value => simp only [formatArgumentTo, formatUintTo, parseIntegerSpec_append ht]
  | pointer value => rfl
  | string value => simp only [formatArgumentTo, formatStringTo, parseStringSpec, debugAtEnd_append ht]

end PiKachulm.Libk
