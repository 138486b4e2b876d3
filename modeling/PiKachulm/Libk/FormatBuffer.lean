import PiKachulm.Libk.FormatArgument
import Mathlib.Data.List.GetD
import Mathlib.Logic.Function.Basic

/-!
# Formatting into a buffer

The functions of `format_impl.cpp` write through a pointer and return the pointer behind the last
character. This file has their loops over the memory. The memory afterwards is the one before with the
formatted text at the pointer.
-/

namespace PiKachulm.Libk

/-- The memory that is written to. -/
abbrev Buffer := ℕ → UInt8

/-! ### Numbers -/

/-- The loop that extracts the digits; `i` characters have been written. -/
def extractDigitsAt (alphabet : List UInt8) (radix out : ℕ) : ℕ → ℕ → Buffer × ℕ → Buffer × ℕ
  | 0, _, st => st
  | fuel + 1, value, (buffer, i) =>
    if 0 < value then
      extractDigitsAt alphabet radix out fuel (value / radix)
        (Function.update buffer (out + i) (alphabet.getD (value % radix) 0), i + 1)
    else (buffer, i)

/-- The loop that adds zeros. -/
def padAt (width out : ℕ) : ℕ → Buffer × ℕ → Buffer × ℕ
  | 0, st => st
  | fuel + 1, (buffer, i) =>
    if i < width then padAt width out fuel (Function.update buffer (out + i) '0'.toUInt8, i + 1)
    else (buffer, i)

/-- The loop that reverses the characters. -/
def reverseAt (out : ℕ) : ℕ → ℕ → ℕ → Buffer → Buffer
  | 0, _, _, buffer => buffer
  | fuel + 1, start, finish, buffer =>
    if start < finish then
      let temp := buffer (out + start)
      let buffer := Function.update buffer (out + start) (buffer (out + finish))
      reverseAt out fuel (start + 1) (finish - 1) (Function.update buffer (out + finish) temp)
    else buffer

/-- `uint_to_string`, with the pointer that it returns. -/
def uintToStringAt (buffer : Buffer) (out value radix : ℕ) (lowercase : Bool) (width : Option ℕ) :
    Buffer × ℕ :=
  let alphabet := if lowercase then lowerDigitAlphabet else upperDigitAlphabet
  let st := if value = 0 then (Function.update buffer out '0'.toUInt8, 1) else (buffer, 0)
  let st := extractDigitsAt alphabet radix out 64 value st
  let (buffer, i) := match width with
    | none => st
    | some width => padAt width out width st
  (reverseAt out i 0 (i - 1) buffer, out + i)

/-- Characters that are written one after the other. -/
def storeText (buffer : Buffer) (out : ℕ) : List UInt8 → Buffer × ℕ
  | [] => (buffer, out)
  | c :: text => storeText (Function.update buffer out c) (out + 1) text

/-- `strcpy` copies the NUL as well. -/
def strcpyAt (buffer : Buffer) (out : ℕ) (text : List UInt8) : Buffer :=
  (storeText buffer out (text ++ [0])).1

def outputSignAt (buffer : Buffer) (out : ℕ) (positive : Bool) (signFormat : SignFormat) : Buffer × ℕ :=
  match signFormat with
  | .always =>
    if !positive then (Function.update buffer out '-'.toUInt8, out + 1)
    else (Function.update buffer out '+'.toUInt8, out + 1)
  | .onlyMinus =>
    if !positive then (Function.update buffer out '-'.toUInt8, out + 1) else (buffer, out)
  | .space =>
    if !positive then (Function.update buffer out '-'.toUInt8, out + 1)
    else (Function.update buffer out ' '.toUInt8, out + 1)

/-- The prefix that the specifier asks for, or `nullptr`. -/
def IntegerSpec.start (spec : IntegerSpec) : Option (List UInt8) :=
  if spec.radix = 2 then some (if spec.lowercase then bytes "0b" else bytes "0B")
  else if spec.radix = 16 then some (if spec.lowercase then bytes "0x" else bytes "0X")
  else none

def outputUintAt (buffer : Buffer) (out value : ℕ) (spec : IntegerSpec) : Option (Buffer × ℕ) :=
  let (buffer, out) :=
    if spec.addPrefix then
      match spec.start with
      | some text => (strcpyAt buffer out text, out + 2)
      | none => (buffer, out)
    else (buffer, out)
  if 2 ≤ spec.radix ∧ spec.radix ≤ 36 then
    some (uintToStringAt buffer out value spec.radix spec.lowercase spec.width)
  else none

def formatIntAt (buffer : Buffer) (out : ℕ) (value : BitVec 64) (spec : Option (List UInt8)) :
    Option (Buffer × ℕ) := do
  let parsedSpec ← parseIntegerSpec spec
  let positive := decide (0 ≤ value.toInt)
  let (buffer, out) := outputSignAt buffer out positive parsedSpec.signFormat
  outputUintAt buffer out (if positive then value.toNat else (-value).toNat) parsedSpec

def formatUintAt (buffer : Buffer) (out : ℕ) (value : BitVec 64) (spec : Option (List UInt8)) :
    Option (Buffer × ℕ) := do
  let parsedSpec ← parseIntegerSpec spec
  outputUintAt buffer out value.toNat parsedSpec

def formatPointerAt (buffer : Buffer) (out : ℕ) (value : BitVec 64) : Option (Buffer × ℕ) :=
  outputUintAt buffer out value.toNat { radix := 16, addPrefix := true, width := some 16 }

def formatBoolAt (buffer : Buffer) (out : ℕ) (value : Bool) (spec : Option (List UInt8)) :
    Option (Buffer × ℕ) :=
  let text := if value then bytes "true" else bytes "false"
  match spec with
  | none => some (strcpyAt buffer out text, out + text.length)
  | some [] => none
  | some (c :: spec) =>
    if c = closeBrace then some (strcpyAt buffer out text, out + text.length)
    else formatIntAt buffer out (if value then 1 else 0) (some (c :: spec))

def formatCharAt (buffer : Buffer) (out : ℕ) (value : UInt8) (spec : Option (List UInt8)) :
    Option (Buffer × ℕ) := do
  let debug ← parseStringSpec true spec
  return storeText buffer out (if debug then 0x27 :: outputDebugChar value ++ [0x27] else [value])

def formatStringAt (buffer : Buffer) (out : ℕ) (value : List UInt8) (spec : Option (List UInt8)) :
    Option (Buffer × ℕ) := do
  let debug ← parseStringSpec false spec
  return storeText buffer out (if debug then 0x22 :: value.flatMap outputDebugChar ++ [0x22] else value)

/-- `format_argument_to`, with the pointer that it returns. -/
def formatArgumentAt (buffer : Buffer) (out : ℕ) : Argument → Option (List UInt8) → Option (Buffer × ℕ)
  | .bool value, spec => formatBoolAt buffer out value spec
  | .char value, spec => formatCharAt buffer out value spec
  | .intmax value, spec => formatIntAt buffer out value spec
  | .uintmax value, spec => formatUintAt buffer out value spec
  | .pointer value, _ => formatPointerAt buffer out value
  | .string value, spec => formatStringAt buffer out value spec

/-! ### The memory with a text -/

/-- The memory with a text at an address. -/
def overlay (buffer : Buffer) (out : ℕ) (text : List UInt8) : Buffer := fun a =>
  if out ≤ a then text.getD (a - out) (buffer a) else buffer a

variable {buffer : Buffer} {out i fuel value radix width start finish : ℕ} {text text' : List UInt8} {c : UInt8}

lemma overlay_apply (h : i < text.length) : overlay buffer out text (out + i) = text[i] := by
  rw [overlay, if_pos (Nat.le_add_right out i), Nat.add_sub_cancel_left, List.getD_eq_getElem _ _ h]

/-- Nothing else is changed. -/
lemma overlay_of_outside {a : ℕ} (h : a < out ∨ out + text.length ≤ a) :
    overlay buffer out text a = buffer a := by
  rw [overlay]
  split_ifs with hle
  · exact List.getD_eq_default _ _ (by omega)
  · rfl

@[simp] lemma overlay_nil : overlay buffer out [] = buffer := by
  funext a
  exact overlay_of_outside (by simp; omega)

/-- Two memories with the same text are the same when they are outside it. -/
lemma eq_overlay {buffer' : Buffer} (hin : ∀ i (h : i < text.length), buffer' (out + i) = text[i])
    (hout : ∀ a, a < out ∨ out + text.length ≤ a → buffer' a = buffer a) :
    buffer' = overlay buffer out text := by
  funext a
  by_cases h : a < out ∨ out + text.length ≤ a
  · rw [hout a h, overlay_of_outside h]
  · obtain ⟨hle, hlt⟩ := not_or.mp h
    obtain ⟨i, rfl⟩ := Nat.exists_eq_add_of_le (Nat.not_lt.mp hle)
    have hi : i < text.length := by omega
    rw [hin i hi, overlay_apply hi]

/-- A character of the text is replaced. -/
lemma update_overlay (h : i < text.length) :
    Function.update (overlay buffer out text) (out + i) c = overlay buffer out (text.set i c) := by
  refine eq_overlay (fun j hj => ?_) fun a ha => ?_
  · rw [List.length_set] at hj
    rw [List.getElem_set]
    split_ifs with hij
    · rw [hij, Function.update_self]
    · rw [Function.update_of_ne (by omega), overlay_apply hj]
  · rw [List.length_set] at ha
    rw [Function.update_of_ne (by omega), overlay_of_outside ha]

/-- A character is added to the text. -/
lemma update_overlay_end :
    Function.update (overlay buffer out text) (out + text.length) c = overlay buffer out (text ++ [c]) := by
  refine eq_overlay (fun j hj => ?_) fun a ha => ?_
  · rw [List.length_append, List.length_singleton] at hj
    rw [List.getElem_append]
    split_ifs with hlt
    · rw [Function.update_of_ne (by omega), overlay_apply hlt]
    · obtain rfl : j = text.length := by omega
      rw [Function.update_self]
      simp
  · rw [List.length_append, List.length_singleton] at ha
    rw [Function.update_of_ne (by omega), overlay_of_outside (by omega)]

lemma update_overlay_first : Function.update buffer out c = overlay buffer out [c] := by
  have hend : Function.update (overlay buffer out []) out c = overlay buffer out ([] ++ [c]) :=
    update_overlay_end
  rwa [overlay_nil] at hend

/-- A text that covers another one. -/
lemma overlay_overlay (h : text.length ≤ text'.length) :
    overlay (overlay buffer out text) out text' = overlay buffer out text' := by
  refine eq_overlay (fun i hi => overlay_apply hi) fun a ha => ?_
  rw [overlay_of_outside ha, overlay_of_outside (by omega)]

/-- A text behind another one. -/
lemma overlay_append : overlay (overlay buffer out text) (out + text.length) text' =
    overlay buffer out (text ++ text') := by
  refine eq_overlay (fun i hi => ?_) fun a ha => ?_
  · rw [List.length_append] at hi
    rw [List.getElem_append]
    split_ifs with hlt
    · rw [overlay_of_outside (by omega), overlay_apply hlt]
    · obtain ⟨j, rfl⟩ := Nat.exists_eq_add_of_le (Nat.not_lt.mp hlt)
      rw [← Nat.add_assoc, overlay_apply (by omega)]
      simp
  · rw [List.length_append] at ha
    rw [overlay_of_outside (by omega), overlay_of_outside (by omega)]

/-! ### The loops -/

lemma extractDigitsAt_overlay (alphabet : List UInt8) (radix value : ℕ) (text : List UInt8) :
    extractDigitsAt alphabet radix out fuel value (overlay buffer out text, text.length) =
      (overlay buffer out (text ++ extractDigits alphabet radix fuel value),
        (text ++ extractDigits alphabet radix fuel value).length) := by
  induction fuel generalizing value text with
  | zero => rw [extractDigits, List.append_nil]; rfl
  | succ fuel ih =>
    rw [extractDigitsAt, extractDigits]
    split_ifs
    · have hnext := ih (value / radix) (text ++ [alphabet.getD (value % radix) 0])
      rw [List.length_append, List.length_singleton, List.append_assoc] at hnext
      rw [update_overlay_end, hnext]
      rfl
    · rw [List.append_nil]

lemma padAt_overlay (hfuel : width - text.length ≤ fuel) :
    padAt width out fuel (overlay buffer out text, text.length) =
      (overlay buffer out (text ++ List.replicate (width - text.length) '0'.toUInt8),
        (text ++ List.replicate (width - text.length) '0'.toUInt8).length) := by
  induction fuel generalizing text with
  | zero => rw [Nat.le_zero.mp hfuel, List.replicate_zero, List.append_nil]; rfl
  | succ fuel ih =>
    rw [padAt]
    split_ifs with hlt
    · have hfuel' : width - (text ++ ['0'.toUInt8]).length ≤ fuel := by
        rw [List.length_append, List.length_singleton]
        omega
      have hnext := ih hfuel'
      rw [List.length_append, List.length_singleton, List.append_assoc, List.singleton_append,
        ← List.replicate_succ] at hnext
      rw [update_overlay_end, hnext, show width - (text.length + 1) + 1 = width - text.length by omega]
    · rw [Nat.sub_eq_zero_of_le (Nat.not_lt.mp hlt), List.replicate_zero, List.append_nil]

lemma reverseAt_overlay (hfinish : finish < text.length) :
    reverseAt out fuel start finish (overlay buffer out text) =
      overlay buffer out (swapEnds fuel start finish text) := by
  induction fuel generalizing start finish text with
  | zero => rfl
  | succ fuel ih =>
    rw [reverseAt, swapEnds]
    split_ifs with hlt
    · have hstart := Nat.lt_trans hlt hfinish
      have hlength : finish < (text.set start (text.getD finish 0)).length := by rwa [List.length_set]
      dsimp only
      rw [overlay_apply hstart, overlay_apply hfinish, ← List.getD_eq_getElem text 0 hstart,
        ← List.getD_eq_getElem text 0 hfinish, update_overlay hstart, update_overlay hlength, ih]
      rw [List.length_set]
      exact Nat.lt_of_le_of_lt (Nat.sub_le _ _) hlength
    · rfl

lemma length_swapEnds : (swapEnds fuel start finish text).length = text.length := by
  induction fuel generalizing start finish text with
  | zero => rfl
  | succ fuel ih =>
    rw [swapEnds]
    split_ifs
    · rw [ih, List.length_set, List.length_set]
    · rfl

/-- The digits before they are padded and reversed. -/
def digitsOf (alphabet : List UInt8) (radix value : ℕ) : List UInt8 :=
  if value = 0 then ['0'.toUInt8] else extractDigits alphabet radix 64 value

lemma digitsOf_ne_nil {alphabet : List UInt8} : digitsOf alphabet radix value ≠ [] := by
  rw [digitsOf]
  split_ifs with hzero
  · exact List.cons_ne_nil _ _
  · rw [extractDigits, if_pos (Nat.pos_of_ne_zero hzero)]
    exact List.cons_ne_nil _ _

lemma extract_overlay {alphabet : List UInt8} :
    extractDigitsAt alphabet radix out 64 value
        (if value = 0 then (Function.update buffer out '0'.toUInt8, 1) else (buffer, 0)) =
      (overlay buffer out (digitsOf alphabet radix value), (digitsOf alphabet radix value).length) := by
  rw [digitsOf]
  split_ifs with hzero
  · have hloop := @extractDigitsAt_overlay buffer out 64 alphabet radix value ['0'.toUInt8]
    rw [hzero, extractDigits, if_neg (Nat.lt_irrefl 0), List.append_nil] at hloop
    rw [update_overlay_first, hzero]
    exact hloop
  · have hloop := @extractDigitsAt_overlay buffer out 64 alphabet radix value []
    rw [overlay_nil] at hloop
    exact hloop

/-- `uint_to_string` writes the digits and returns the pointer behind them. -/
lemma uintToStringAt_eq {lowercase : Bool} {width : Option ℕ} :
    uintToStringAt buffer out value radix lowercase width =
      (overlay buffer out (uintToString value radix lowercase width),
        out + (uintToString value radix lowercase width).length) := by
  unfold uintToStringAt uintToString
  dsimp only
  rw [extract_overlay]
  generalize halphabet : (if lowercase then lowerDigitAlphabet else upperDigitAlphabet) = alphabet
  have hne : digitsOf alphabet radix value ≠ [] := digitsOf_ne_nil
  rw [← digitsOf]
  generalize digitsOf alphabet radix value = digits at *
  cases width with
  | none =>
    have hpos := List.length_pos_of_ne_nil hne
    rw [reverseAt_overlay (Nat.sub_one_lt_of_lt hpos), length_swapEnds]
  | some width =>
    dsimp only
    rw [padAt_overlay (Nat.sub_le _ _)]
    have hpos : 0 < (digits ++ List.replicate (width - digits.length) '0'.toUInt8).length := by
      rw [List.length_append]
      exact Nat.add_pos_left (List.length_pos_of_ne_nil hne) _
    rw [reverseAt_overlay (Nat.sub_one_lt_of_lt hpos), length_swapEnds]

lemma uintToString_ne_nil {lowercase : Bool} {width : Option ℕ} :
    uintToString value radix lowercase width ≠ [] := by
  rw [← List.length_pos_iff]
  unfold uintToString
  dsimp only
  rw [length_swapEnds]
  have hpos : ∀ alphabet, 0 < (digitsOf alphabet radix value).length :=
    fun alphabet => List.length_pos_of_ne_nil digitsOf_ne_nil
  cases width with
  | none => exact hpos _
  | some width =>
    rw [List.length_append]
    exact Nat.add_pos_left (hpos _) _

/-! ### Arguments -/

lemma storeText_eq : storeText buffer out text = (overlay buffer out text, out + text.length) := by
  induction text generalizing buffer out with
  | nil => rw [overlay_nil]; rfl
  | cons c text ih =>
    have happend : overlay (overlay buffer out [c]) (out + 1) text = overlay buffer out ([c] ++ text) :=
      overlay_append
    rw [storeText, ih, update_overlay_first, happend, List.singleton_append, List.length_cons, Nat.add_assoc,
      Nat.add_comm 1]

lemma outputSignAt_eq {positive : Bool} {signFormat : SignFormat} :
    outputSignAt buffer out positive signFormat =
      (overlay buffer out (outputSign positive signFormat),
        out + (outputSign positive signFormat).length) := by
  rw [← storeText_eq]
  cases signFormat <;> cases positive <;> rfl

/-- The NUL of the prefix is written over. -/
lemma overlay_strcpyAt (h : text' ≠ []) :
    overlay (strcpyAt buffer out text) (out + text.length) text' = overlay buffer out (text ++ text') := by
  have hcopy : strcpyAt buffer out text = overlay (overlay buffer out text) (out + text.length) [0] := by
    rw [strcpyAt, storeText_eq, overlay_append]
  have hle : [(0 : UInt8)].length ≤ text'.length := List.length_pos_of_ne_nil h
  rw [hcopy, overlay_overlay hle, overlay_append]

lemma outputUint_eq (spec : IntegerSpec) : outputUint value spec =
    if 2 ≤ spec.radix ∧ spec.radix ≤ 36 then
      some ((if spec.addPrefix then spec.start.getD [] else []) ++
        uintToString value spec.radix spec.lowercase spec.width)
    else none := by
  unfold outputUint IntegerSpec.start
  dsimp only
  split_ifs <;> rfl

lemma length_start {spec : IntegerSpec} (h : spec.start = some text) : text.length = 2 := by
  rw [IntegerSpec.start] at h
  split_ifs at h <;> cases h <;> rfl

lemma outputUintAt_eq (spec : IntegerSpec) : outputUintAt buffer out value spec =
    (outputUint value spec).map fun text => (overlay buffer out text, out + text.length) := by
  rw [outputUint_eq]
  unfold outputUintAt
  have hplain : uintToStringAt buffer out value spec.radix spec.lowercase spec.width =
      (overlay buffer out ([] ++ uintToString value spec.radix spec.lowercase spec.width),
        out + ([] ++ uintToString value spec.radix spec.lowercase spec.width).length) := uintToStringAt_eq
  split_ifs
  · cases hstart : spec.start with
    | none => exact congrArg some hplain
    | some text =>
      have hlength := length_start hstart
      dsimp only
      rw [uintToStringAt_eq, ← hlength, overlay_strcpyAt uintToString_ne_nil, Option.map_some,
        Option.getD_some, List.length_append, Nat.add_assoc]
  · rfl
  · exact congrArg some hplain
  · rfl

lemma formatIntAt_eq {number : BitVec 64} {spec : Option (List UInt8)} :
    formatIntAt buffer out number spec =
      (formatIntTo number spec).map fun text => (overlay buffer out text, out + text.length) := by
  unfold formatIntAt formatIntTo
  cases parseIntegerSpec spec with
  | none => rfl
  | some parsedSpec =>
    simp only [Option.bind_eq_bind, Option.bind_some, outputSignAt_eq, outputUintAt_eq]
    cases outputUint (if decide (0 ≤ number.toInt) = true then number.toNat else (-number).toNat)
      parsedSpec with
    | none => rfl
    | some digits =>
      simp [overlay_append, Nat.add_assoc]

lemma formatUintAt_eq {number : BitVec 64} {spec : Option (List UInt8)} :
    formatUintAt buffer out number spec =
      (formatUintTo number spec).map fun text => (overlay buffer out text, out + text.length) := by
  unfold formatUintAt formatUintTo
  cases parseIntegerSpec spec with
  | none => rfl
  | some parsedSpec => exact outputUintAt_eq parsedSpec

/-- `format_argument_to` writes the formatted text and returns the pointer behind it. Behind the name of a
`bool` there is also a NUL. -/
lemma formatArgumentAt_eq {argument : Argument} {spec : Option (List UInt8)}
    (h : ∀ b, argument ≠ .bool b) : formatArgumentAt buffer out argument spec =
      (formatArgumentTo argument spec).map fun text => (overlay buffer out text, out + text.length) := by
  cases argument with
  | bool b => exact absurd rfl (h b)
  | char c =>
    rw [formatArgumentAt, formatArgumentTo, formatCharAt, formatCharTo]
    cases parseStringSpec true spec with
    | none => rfl
    | some debug => exact congrArg some storeText_eq
  | intmax number => exact formatIntAt_eq
  | uintmax number => exact formatUintAt_eq
  | pointer number =>
    rw [formatArgumentAt, formatArgumentTo, formatPointerAt, formatPointerTo]
    exact outputUintAt_eq _
  | string text =>
    rw [formatArgumentAt, formatArgumentTo, formatStringAt, formatStringTo]
    cases parseStringSpec false spec with
    | none => rfl
    | some debug => exact congrArg some storeText_eq

end PiKachulm.Libk
