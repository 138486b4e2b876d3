import PiKachulm.Core.Bytes
import PiKachulm.Libk.FormatArgument
import Mathlib.Data.List.GetD
import Mathlib.Data.List.TakeWhile

/-!
# Formatting

The automaton of `format.cpp` that re2c has made of the grammar of `format.re2c`, label by label, and the
loop around it. The pointers into the format string are what is left of it, as in `format_argument_to`.
-/

namespace PiKachulm.Libk

/-- The character `:`. -/
def colon : UInt8 := 0x3a

/-! ### The automaton -/

/-- The table of the automaton: 64 for the digits, 128 for what a specifier may hold. -/
def yybm : List UInt8 :=
  [0] ++ List.replicate 47 128 ++ List.replicate 10 192 ++ List.replicate 67 128 ++ [0] ++
    List.replicate 130 128

/-- What is done with the characters that the automaton has gone through. -/
inductive Action
  | stop
  | copy (c : UInt8)
  | field (indexPtr specPtr : Option (List UInt8))
  deriving DecidableEq

section

variable (marker : List UInt8) (yych : UInt8) (yyt1 yyt2 : Option (List UInt8))

/-- The default rule: it copies the character read last. -/
def yy3 (cursor : List UInt8) : Option (Action × List UInt8) := some (.copy yych, cursor)

/-- The automaton goes back to the marker. -/
def yy7 : Option (Action × List UInt8) := yy3 yych marker

def yy10 (cursor : List UInt8) : Option (Action × List UInt8) := some (.field yyt1 yyt2, cursor.tail)

def yy12 : List UInt8 → Option (Action × List UInt8)
  | _ :: yych :: rest =>
    if yybm.getD yych.toNat 0 &&& 128 ≠ 0 then yy12 (yych :: rest)
    else if yych ≤ 0 then yy7 marker yych
    else yy10 yyt1 yyt2 (yych :: rest)
  | _ => none

def yy8 : List UInt8 → Option (Action × List UInt8)
  | _ :: yych :: rest =>
    if yych ≤ 0 then yy7 marker yych
    else if yych = closeBrace then yy10 yyt1 (some (yych :: rest)) (yych :: rest)
    else yy12 marker yyt1 (some (yych :: rest)) (yych :: rest)
  | _ => none

def yy6 : List UInt8 → Option (Action × List UInt8)
  | _ :: yych :: rest =>
    if yybm.getD yych.toNat 0 &&& 64 ≠ 0 then yy6 (yych :: rest)
    else if yych ≤ 0x2f then yy7 marker yych
    else if yych ≤ colon then yy8 marker yyt1 (yych :: rest)
    else if yych = closeBrace then yy10 yyt1 none (yych :: rest)
    else yy7 marker yych
  | _ => none

end

def yy5 : List UInt8 → Option (Action × List UInt8)
  | _ :: yych :: rest =>
    if yych = closeBrace then some (.copy closeBrace, rest) else yy3 yych (yych :: rest)
  | _ => none

def yy4 : List UInt8 → Option (Action × List UInt8)
  | _ :: yych :: rest =>
    if yych ≤ 0x7a then
      if yych ≤ 0x2f then yy3 yych (yych :: rest)
      else if yych ≤ 0x39 then yy6 (yych :: rest) (some (yych :: rest)) (yych :: rest)
      else if yych ≤ colon then yy8 (yych :: rest) none (yych :: rest)
      else yy3 yych (yych :: rest)
    else
      if yych ≤ openBrace then some (.copy openBrace, rest)
      else if yych = closeBrace then yy10 none none (yych :: rest)
      else yy3 yych (yych :: rest)
  | _ => none

/-- One run of the automaton: what is to be done, and the cursor behind what it has taken. -/
def scan : List UInt8 → Option (Action × List UInt8)
  | yych :: rest =>
    if yych ≤ openBrace then
      if yych ≤ 0 then some (.stop, rest)
      else if yych ≤ 0x7a then yy3 yych rest
      else yy4 (yych :: rest)
    else if yych = closeBrace then yy5 (yych :: rest)
    else yy3 yych rest
  | [] => none

/-! ### The loop -/

def parseIndexFrom : ℕ → List UInt8 → Option ℕ
  | _, [] => none
  | index, c :: it =>
    if 0x30 ≤ c ∧ c ≤ 0x39 then
      parseIndexFrom ((index * 10 % 2 ^ 64 + (c.toNat - 0x30)) % 2 ^ 64) it
    else some index

def parseIndex (it : List UInt8) : Option ℕ := parseIndexFrom 0 it

/-- The loop of `format_to`, with what has been written. -/
def formatFrom (args : List Argument) : ℕ → List UInt8 → ℕ → List UInt8 → Option (List UInt8)
  | 0, _, _, _ => none
  | fuel + 1, cursor, nextArgumentIndex, out => do
    let (action, cursor) ← scan cursor
    match action with
    | .stop => some out
    | .copy c => formatFrom args fuel cursor nextArgumentIndex (out ++ [c])
    | .field none specPtr => do
      let argument ← args[nextArgumentIndex]?
      let text ← formatArgumentTo argument specPtr
      formatFrom args fuel cursor ((nextArgumentIndex + 1) % 2 ^ 64) (out ++ text)
    | .field (some indexPtr) specPtr => do
      let index ← parseIndex indexPtr
      let argument ← args[index]?
      let text ← formatArgumentTo argument specPtr
      formatFrom args fuel cursor nextArgumentIndex (out ++ text)

def formatTo (fuel : ℕ) (fmt : List UInt8) (args : List Argument) : Option (List UInt8) :=
  formatFrom args fuel fmt 0 []

/-! ### The grammar -/

def isDigit (c : UInt8) : Bool := 0x30 ≤ c && c ≤ 0x39

/-- The number that digits write. -/
def decimal (digits : List UInt8) : ℕ :=
  digits.foldl (fun number digit => number * 10 + (digit.toNat - 0x30)) 0

/-- The pieces of a format string. -/
inductive Token
  | escape (brace : UInt8)
  | field (index spec : Option (List UInt8))
  | char (c : UInt8)
  deriving DecidableEq

namespace Token

def text : Token → List UInt8
  | .escape brace => [brace, brace]
  | .field index spec =>
    openBrace :: (index.getD [] ++ (spec.elim [] (colon :: ·) ++ [closeBrace]))
  | .char c => [c]

/-- The escapes and the fields of the grammar. -/
def IsLexeme : Token → Prop
  | .escape brace => brace = openBrace ∨ brace = closeBrace
  | .field index spec => (∀ digits, index = some digits → digits ≠ [] ∧ ∀ c ∈ digits, isDigit c) ∧
    ∀ text, spec = some text → closeBrace ∉ text
  | .char _ => False

end Token

def textOf (tokens : List Token) : List UInt8 := tokens.flatMap Token.text

/-- A format string is split from left to right. What starts no escape and no field is a character. -/
inductive Splits : List UInt8 → List Token → Prop
  | nil : Splits [] []
  | lexeme {t : Token} {s : List UInt8} {ts : List Token} (ht : t.IsLexeme) (hs : Splits s ts) :
    Splits (t.text ++ s) (t :: ts)
  | char {c : UInt8} {s : List UInt8} {ts : List Token}
    (hc : ∀ t u, Token.IsLexeme t → c :: s ≠ t.text ++ u) (hs : Splits s ts) :
    Splits (c :: s) (.char c :: ts)

/-- What a format string stands for. There is nothing when a field refers to no argument, or has a
specifier that is not valid for it. -/
def render (args : List Argument) : ℕ → List Token → Option (List UInt8)
  | _, [] => some []
  | next, .escape brace :: ts => (render args next ts).map (brace :: ·)
  | next, .char c :: ts => (render args next ts).map (c :: ·)
  | next, .field index spec :: ts => do
    let argument ← args[index.elim next decimal]?
    let text ← formatArgumentTo argument (spec.map (· ++ [closeBrace]))
    let rest ← render args (if index = none then next + 1 else next) ts
    return text ++ rest

/-- Each brace that starts no escape and no field is an opening one that digits and another opening one
follow. -/
def BracesKept : List Token → Prop
  | [] => True
  | .char c :: ts => (c = openBrace ∨ c = closeBrace →
      c = openBrace ∧ ∃ digits u, digits ≠ [] ∧ (∀ d ∈ digits, isDigit d) ∧
        textOf ts = digits ++ openBrace :: u) ∧ BracesKept ts
  | _ :: ts => BracesKept ts

/-! ### The labels -/

variable {c d : UInt8} {s t u rest digits : List UInt8} {marker : List UInt8}
  {yyt1 yyt2 : Option (List UInt8)} {ts : List Token} {args : List Argument}

/-- A bit of the table, for each character. -/
lemma yybm_bit {mask : UInt8} {f : UInt8 → Bool} (h : yybm.map (fun b => decide (b &&& mask ≠ 0)) =
    (List.range 256).map fun n => f (.ofNat n)) (c : UInt8) : yybm.getD c.toNat 0 &&& mask ≠ 0 ↔ f c = true := by
  have hbyte : ((List.range 256).map fun n => f (.ofNat n)).getD c.toNat (decide ((0 : UInt8) &&& mask ≠ 0)) = f c := by
    rw [List.getD_eq_getElem?_getD, List.getElem?_map, List.getElem?_range c.toNat_lt, Option.map_some,
      Option.getD_some, UInt8.ofNat_toNat]
  have hentry := congrArg (·.getD c.toNat (decide ((0 : UInt8) &&& mask ≠ 0))) h
  rw [List.getD_map (f := fun b => decide (b &&& mask ≠ 0)), hbyte] at hentry
  rw [← hentry, decide_eq_true_iff]

lemma yybm_digit (c : UInt8) : yybm.getD c.toNat 0 &&& 64 ≠ 0 ↔ isDigit c = true :=
  yybm_bit (by decide +kernel) c

lemma yybm_spec (c : UInt8) : yybm.getD c.toNat 0 &&& 128 ≠ 0 ↔ c ≠ 0 ∧ c ≠ closeBrace := by
  rw [yybm_bit (f := fun c => decide (c ≠ 0 ∧ c ≠ closeBrace)) (by decide +kernel), decide_eq_true_iff]

lemma yy12_append (ht : 0 ∉ t ∧ closeBrace ∉ t) (hd : d = 0 ∨ d = closeBrace) :
    yy12 marker yyt1 yyt2 (c :: (t ++ d :: u)) =
      if d = 0 then yy7 marker 0 else yy10 yyt1 yyt2 (d :: u) := by
  induction t generalizing c with
  | nil =>
    have hstop : ¬(yybm.getD d.toNat 0 &&& 128 ≠ 0) := by
      rw [yybm_spec, not_and_or, not_not, not_not]
      exact hd
    rw [List.nil_append, yy12, if_neg hstop]
    simp only [UInt8.le_zero_iff]
    split_ifs with h
    · rw [h]
    · rfl
  | cons x t ih =>
    simp only [List.mem_cons, not_or] at ht
    have hgo : yybm.getD x.toNat 0 &&& 128 ≠ 0 :=
      (yybm_spec x).mpr ⟨fun h => ht.1.1 h.symm, fun h => ht.2.1 h.symm⟩
    rw [List.cons_append, yy12, if_pos hgo]
    exact ih ⟨ht.1.2, ht.2.2⟩

lemma yy8_append (ht : 0 ∉ t ∧ closeBrace ∉ t) (hd : d = 0 ∨ d = closeBrace) :
    yy8 marker yyt1 (c :: (t ++ d :: u)) =
      if d = 0 then yy7 marker 0 else yy10 yyt1 (some (t ++ d :: u)) (d :: u) := by
  cases t with
  | nil =>
    rw [List.nil_append, yy8]
    simp only [UInt8.le_zero_iff]
    split_ifs with h h'
    · rw [h]
    · rfl
    · exact absurd (hd.resolve_left h) h'
  | cons x t =>
    have hx : x ≠ 0 ∧ x ≠ closeBrace := by
      simp only [List.mem_cons, not_or] at ht
      exact ⟨fun h => ht.1.1 h.symm, fun h => ht.2.1 h.symm⟩
    have ht' : 0 ∉ t ∧ closeBrace ∉ t :=
      ⟨fun h => ht.1 (List.mem_cons_of_mem _ h), fun h => ht.2 (List.mem_cons_of_mem _ h)⟩
    rw [List.cons_append, yy8, if_neg (by rw [UInt8.le_zero_iff]; exact hx.1), if_neg hx.2]
    exact yy12_append ht' hd

/-- What the automaton does behind the digits of a field. -/
def afterIndex (marker : List UInt8) (yyt1 : Option (List UInt8)) (d : UInt8) (u : List UInt8) :
    Option (Action × List UInt8) :=
  if d = colon then yy8 marker yyt1 (d :: u)
  else if d = closeBrace then yy10 yyt1 none (d :: u)
  else yy7 marker d

lemma yy6_eq : yy6 marker yyt1 (c :: d :: u) =
    if isDigit d then yy6 marker yyt1 (d :: u) else afterIndex marker yyt1 d u := by
  rw [yy6]
  simp only [yybm_digit, afterIndex]
  grind [isDigit, colon, openBrace, closeBrace]

lemma yy6_append (ht : ∀ x ∈ digits, isDigit x) (hd : ¬isDigit d) :
    yy6 marker yyt1 (c :: (digits ++ d :: u)) = afterIndex marker yyt1 d u := by
  induction digits generalizing c with
  | nil => rw [List.nil_append, yy6_eq, if_neg hd]
  | cons x digits ih =>
    rw [List.cons_append, yy6_eq, if_pos (ht x List.mem_cons_self)]
    exact ih fun y hy => ht y (List.mem_cons_of_mem _ hy)

lemma yy4_eq : yy4 (c :: d :: u) =
    if d = openBrace then some (.copy openBrace, u)
    else if isDigit d then yy6 (d :: u) (some (d :: u)) (d :: u)
    else if d = colon then yy8 (d :: u) none (d :: u)
    else if d = closeBrace then yy10 none none (d :: u)
    else yy3 d (d :: u) := by
  rw [yy4]
  grind [isDigit, colon, openBrace, closeBrace]

lemma scan_eq : scan (c :: u) =
    if c = 0 then some (.stop, u)
    else if c = openBrace then yy4 (c :: u)
    else if c = closeBrace then yy5 (c :: u)
    else yy3 c u := by
  rw [scan]
  grind [openBrace, closeBrace]

/-! ### The pieces -/

lemma scan_escape (hc : c = openBrace ∨ c = closeBrace) :
    scan (c :: c :: u) = some (.copy c, u) := by
  rcases hc with rfl | rfl
  · rw [scan_eq, if_neg (by decide), if_pos rfl, yy4_eq, if_pos rfl]
  · rw [scan_eq, if_neg (by decide), if_neg (by decide), if_pos rfl, yy5, if_pos rfl]

/-- An opening brace, the digits behind it and the character behind them. -/
lemma scan_openBrace (hdigits : ∀ x ∈ digits, isDigit x) (hd : ¬isDigit d)
    (hd' : digits = [] → d ≠ openBrace) :
    scan (openBrace :: (digits ++ d :: u)) = afterIndex (digits ++ d :: u)
      (if digits = [] then none else some (digits ++ d :: u)) d u := by
  rw [scan_eq, if_neg (by decide), if_pos rfl]
  cases digits with
  | nil =>
    rw [List.nil_append, yy4_eq, if_neg (hd' rfl), if_neg hd]
    rfl
  | cons x digits =>
    have hx := hdigits x List.mem_cons_self
    have hx' : x ≠ openBrace := by
      rintro rfl
      exact absurd hx (by decide)
    rw [List.cons_append, yy4_eq, if_neg hx', if_pos hx, if_neg (List.cons_ne_nil _ _)]
    exact yy6_append (fun y hy => hdigits y (List.mem_cons_of_mem _ hy)) hd

lemma afterIndex_spec {spec : Option (List UInt8)}
    (hspec : ∀ text, spec = some text → 0 ∉ text ∧ closeBrace ∉ text) {v : List UInt8}
    (hv : spec.elim [] (colon :: ·) ++ closeBrace :: u = d :: v) :
    afterIndex marker yyt1 d v = some (.field yyt1 (spec.map (· ++ closeBrace :: u)), u) := by
  cases spec with
  | none =>
    cases hv
    rfl
  | some text =>
    cases hv
    rw [afterIndex, if_pos rfl]
    exact (yy8_append (hspec text rfl) (.inr rfl)).trans (if_neg (by decide))

/-- A field is taken as a whole, with pointers to its index and to its specifier. -/
lemma scan_field {index spec : Option (List UInt8)} (h : (Token.field index spec).IsLexeme)
    (hzero : ∀ text, spec = some text → 0 ∉ text) :
    scan ((Token.field index spec).text ++ u) =
      some (.field (index.map (· ++ (spec.elim [] (colon :: ·) ++ closeBrace :: u)))
        (spec.map (· ++ closeBrace :: u)), u) := by
  obtain ⟨hindex, hspec⟩ := h
  have hhead : ∃ d v, spec.elim [] (colon :: ·) ++ closeBrace :: u = d :: v ∧ ¬isDigit d ∧
      d ≠ openBrace := by
    cases spec with
    | none => exact ⟨_, _, rfl, by decide, by decide⟩
    | some text => exact ⟨_, _, rfl, by decide, by decide⟩
  obtain ⟨d, v, hv, hd, hd'⟩ := hhead
  have hdigits : ∀ x ∈ index.getD [], isDigit x := by
    cases index with
    | none => exact fun x hx => absurd hx List.not_mem_nil
    | some digits => exact (hindex digits rfl).2
  have htext : (Token.field index spec).text ++ u = openBrace :: (index.getD [] ++ d :: v) := by
    rw [← hv]
    simp [Token.text]
  rw [htext, scan_openBrace hdigits hd fun _ => hd',
    afterIndex_spec (fun text htext => ⟨hzero text htext, hspec text htext⟩) hv, hv]
  cases index with
  | none => rfl
  | some digits => rw [Option.getD_some, if_neg (hindex digits rfl).1, Option.map_some]

/-- The digits in front of a string. -/
lemma exists_digits (s : List UInt8) : ∃ digits, s = digits ++ s.dropWhile isDigit ∧
    ∀ x ∈ digits, isDigit x :=
  ⟨s.takeWhile isDigit, List.takeWhile_append_dropWhile.symm, fun _ => List.mem_takeWhile_imp⟩

/-- What the default rule writes for a character `c` in front of `s`: for a brace, the character that it
has given up at. -/
def copied (c : UInt8) (s : List UInt8) : UInt8 :=
  if c = openBrace then
    (if (s.dropWhile isDigit).head? = some colon then 0 else (s.dropWhile isDigit).headD 0)
  else if c = closeBrace then s.headD 0
  else c

/-- `c` starts no escape and no field. -/
def Lone (c : UInt8) (s : List UInt8) : Prop := ∀ t u, Token.IsLexeme t → c :: s ≠ t.text ++ u

lemma Lone.not_escape (hc : Lone c (d :: s)) (hbrace : c = openBrace ∨ c = closeBrace) : d ≠ c :=
  fun h => hc (.escape c) s hbrace (by rw [h]; rfl)

/-- No field starts at a lone opening brace. -/
lemma Lone.not_field (hc : Lone openBrace (digits ++ s)) (hdigits : ∀ x ∈ digits, isDigit x)
    {spec : Option (List UInt8)} (hspec : ∀ text, spec = some text → closeBrace ∉ text) :
    s ≠ spec.elim [] (colon :: ·) ++ closeBrace :: u := by
  rintro rfl
  refine hc (.field (if digits = [] then none else some digits) spec) u ⟨fun ds hds => ?_, hspec⟩ ?_
  · split_ifs at hds with hempty
    cases hds
    exact ⟨hempty, hdigits⟩
  · have hgetD : (if digits = [] then none else some digits).getD [] = digits := by
      split_ifs with hempty
      · exact hempty.symm
      · rfl
    simp [Token.text, hgetD]

lemma afterIndex_lone (hc : Lone openBrace (digits ++ d :: s)) (hdigits : ∀ x ∈ digits, isDigit x)
    (hzero : 0 ∉ s) : afterIndex marker yyt1 d (s ++ 0 :: rest) =
      some (.copy (if d = colon then 0 else d), marker) := by
  rw [afterIndex]
  split_ifs with hcolon hclose
  · have hspec : closeBrace ∉ s := by
      intro hmem
      obtain ⟨text, v, rfl, htext⟩ := List.eq_append_cons_of_mem hmem
      have hspec : ∀ v, some text = some v → closeBrace ∉ v := by
        rintro _ ⟨⟩
        exact htext
      exact hc.not_field (u := v) hdigits hspec (by rw [hcolon]; rfl)
    exact (yy8_append ⟨hzero, hspec⟩ (.inl rfl)).trans (if_pos rfl)
  · have hspec : ∀ v : List UInt8, none = some v → closeBrace ∉ v := nofun
    exact absurd (by rw [hclose]; rfl) (hc.not_field (u := s) hdigits hspec)
  · rfl

lemma not_isDigit_of_dropWhile (h : s.dropWhile isDigit = d :: t) : ¬isDigit d := by
  have hhead := List.head?_dropWhile_not isDigit s
  rw [h] at hhead
  rw [hhead]
  exact Bool.false_ne_true

lemma scan_char_openBrace (hc : Lone openBrace s) (hzero : 0 ∉ s) :
    scan (openBrace :: (s ++ 0 :: rest)) = some (.copy (copied openBrace s), s ++ 0 :: rest) := by
  obtain ⟨digits, hs, hdigits⟩ := exists_digits s
  rw [copied, if_pos rfl]
  cases hafter : s.dropWhile isDigit with
  | nil =>
    rw [hafter, List.append_nil] at hs
    rw [hs, scan_openBrace hdigits (by decide) fun _ => by decide]
    rfl
  | cons d t =>
    rw [hafter] at hs
    rw [hs, List.mem_append, List.mem_cons, not_or, not_or] at hzero
    rw [hs] at hc
    have hd : digits = [] → d ≠ openBrace := by
      rintro rfl
      exact hc.not_escape (.inl rfl)
    rw [hs, List.append_assoc, List.cons_append,
      scan_openBrace hdigits (not_isDigit_of_dropWhile hafter) hd,
      afterIndex_lone hc hdigits hzero.2.2]
    simp

lemma scan_char (hc : Lone c s) (hzero : 0 ∉ c :: s) :
    scan (c :: (s ++ 0 :: rest)) = some (.copy (copied c s), s ++ 0 :: rest) := by
  rw [List.mem_cons, not_or] at hzero
  by_cases hopen : c = openBrace
  · rw [hopen] at hc ⊢
    exact scan_char_openBrace hc hzero.2
  · rw [scan_eq, if_neg (fun h => hzero.1 h.symm), if_neg hopen, copied, if_neg hopen]
    split_ifs with hclose
    · cases s with
      | nil => rw [List.nil_append, yy5, if_neg (by decide)]; rfl
      | cons d s =>
        have hd := hc.not_escape (.inr hclose)
        rw [List.cons_append, yy5, if_neg (by rwa [← hclose])]
        rfl
    · rfl

lemma copied_openBrace_eq_iff (hc : Lone openBrace s) : copied openBrace s = openBrace ↔
    ∃ digits u, digits ≠ [] ∧ (∀ d ∈ digits, isDigit d) ∧ s = digits ++ openBrace :: u := by
  rw [copied, if_pos rfl]
  constructor
  · intro h
    obtain ⟨digits, hs, hdigits⟩ := exists_digits s
    cases hafter : s.dropWhile isDigit with
    | nil =>
      rw [hafter] at h
      exact absurd h (by decide)
    | cons d t =>
      rw [hafter] at h hs
      have hd : d = openBrace := by
        split_ifs at h with hcolon
        · exact absurd h (by decide)
        · exact h
      rw [hd] at hs
      refine ⟨digits, t, ?_, hdigits, hs⟩
      rintro rfl
      rw [hs] at hc
      exact hc.not_escape (.inl rfl) rfl
  · rintro ⟨digits, u, -, hdigits, rfl⟩
    rw [List.dropWhile_append_of_pos hdigits, List.dropWhile_cons_of_neg (by decide)]
    rfl

/-- The default rule copies a character exactly when that is no brace, or an opening one with digits and
another opening one behind it. -/
lemma copied_eq_iff (hc : Lone c s) : copied c s = c ↔ (c = openBrace ∨ c = closeBrace →
    c = openBrace ∧ ∃ digits u, digits ≠ [] ∧ (∀ d ∈ digits, isDigit d) ∧
      s = digits ++ openBrace :: u) := by
  by_cases hopen : c = openBrace
  · rw [hopen] at hc ⊢
    simp only [copied_openBrace_eq_iff hc, true_or, true_and, forall_const]
  · rw [copied, if_neg hopen]
    simp only [hopen, false_or, false_and]
    split_ifs with hclose
    · refine iff_of_false ?_ fun h => h hclose
      cases s with
      | nil =>
        rw [hclose]
        decide
      | cons d s => exact hc.not_escape (.inr hclose)
    · exact iff_of_true rfl fun h => hclose h

/-! ### Indices -/

lemma parseIndexFrom_append (hdigits : ∀ x ∈ digits, isDigit x) (hd : ¬isDigit d) (n : ℕ) :
    parseIndexFrom (n % 2 ^ 64) (digits ++ d :: u) =
      some (digits.foldl (fun number digit => number * 10 + (digit.toNat - 0x30)) n % 2 ^ 64) := by
  induction digits generalizing n with
  | nil =>
    rw [List.nil_append, parseIndexFrom, if_neg (by simpa [isDigit] using hd)]
    rfl
  | cons x digits ih =>
    have hx := hdigits x List.mem_cons_self
    rw [List.cons_append, parseIndexFrom, if_pos (by simpa [isDigit] using hx), List.foldl_cons]
    have hstep : (n % 2 ^ 64 * 10 % 2 ^ 64 + (x.toNat - 0x30)) % 2 ^ 64 =
        (n * 10 + (x.toNat - 0x30)) % 2 ^ 64 := by
      rw [Nat.mod_add_mod, Nat.add_mod, Nat.mod_mul_mod, ← Nat.add_mod]
    rw [hstep]
    exact ih (fun y hy => hdigits y (List.mem_cons_of_mem _ hy)) _

/-- The index of an argument that exists is read without an overflow. -/
lemma parseIndex_append (hdigits : ∀ x ∈ digits, isDigit x) (hd : ¬isDigit d)
    (hlt : decimal digits < 2 ^ 64) : parseIndex (digits ++ d :: u) = some (decimal digits) := by
  have h := parseIndexFrom_append (u := u) hdigits hd 0
  rw [Nat.zero_mod] at h
  rw [parseIndex, h]
  exact congrArg some (Nat.mod_eq_of_lt hlt)

/-! ### Splitting

Each format string is split in one way.
-/

lemma Token.text_length_pos (t : Token) : 0 < t.text.length := by
  cases t with
  | escape brace => exact Nat.zero_lt_succ _
  | field index spec => exact Nat.zero_lt_succ _
  | char c => exact Nat.zero_lt_succ _

lemma zero_notMem_spec {index spec : Option (List UInt8)}
    (hzero : 0 ∉ (Token.field index spec).text) : ∀ text, spec = some text → 0 ∉ text := by
  rintro text rfl hmem
  exact hzero (by simp [Token.text, hmem])

lemma exists_splits (s : List UInt8) : ∃ ts, Splits s ts := by
  induction h : s.length using Nat.strong_induction_on generalizing s with
  | _ n ih =>
    subst h
    cases s with
    | nil => exact ⟨[], .nil⟩
    | cons c s =>
      by_cases hc : Lone c s
      · obtain ⟨ts, hts⟩ := ih s.length (Nat.lt_succ_self _) s rfl
        exact ⟨_, .char hc hts⟩
      · simp only [Lone, not_forall, not_not] at hc
        obtain ⟨t, u, ht, heq⟩ := hc
        have hlt : u.length < (c :: s).length := by
          rw [heq, List.length_append]
          exact Nat.lt_add_of_pos_left t.text_length_pos
        obtain ⟨ts, hts⟩ := ih u.length hlt u rfl
        rw [heq]
        exact ⟨_, .lexeme ht hts⟩

/-- No two escapes and fields start at the same place. -/
lemma Token.IsLexeme.unique {t t' : Token} (ht : t.IsLexeme) (ht' : t'.IsLexeme) {u u' : List UInt8}
    (hzero : 0 ∉ t.text) (hzero' : 0 ∉ t'.text) (h : t.text ++ u = t'.text ++ u') : t = t' ∧ u = u' := by
  have hscan := congrArg scan h
  cases t with
  | char c => exact ht.elim
  | escape brace =>
    cases t' with
    | char c => exact ht'.elim
    | escape brace' =>
      have hscan : scan (brace :: brace :: u) = scan (brace' :: brace' :: u') := hscan
      rw [scan_escape ht, scan_escape ht'] at hscan
      cases hscan
      exact ⟨rfl, rfl⟩
    | field index' spec' =>
      have hscan : scan (brace :: brace :: u) = _ := hscan
      rw [scan_escape ht, scan_field ht' (zero_notMem_spec hzero')] at hscan
      cases hscan
  | field index spec =>
    rw [scan_field ht (zero_notMem_spec hzero)] at hscan
    cases t' with
    | char c => exact ht'.elim
    | escape brace' =>
      have hscan : _ = scan (brace' :: brace' :: u') := hscan
      rw [scan_escape ht'] at hscan
      cases hscan
    | field index' spec' =>
      rw [scan_field ht' (zero_notMem_spec hzero')] at hscan
      simp only [Option.some.injEq, Prod.mk.injEq, Action.field.injEq] at hscan
      obtain ⟨⟨hindex, hspec⟩, rfl⟩ := hscan
      cases Option.map_injective (List.append_left_injective _) hspec
      cases Option.map_injective (List.append_left_injective _) hindex
      exact ⟨rfl, rfl⟩

/-- A format string is split in exactly one way. -/
theorem existsUnique_splits (hzero : 0 ∉ s) : ∃! ts, Splits s ts := by
  obtain ⟨ts, hts⟩ := exists_splits s
  refine ⟨ts, hts, fun ts' hts' => ?_⟩
  induction hts generalizing ts' with
  | nil =>
    generalize hs : ([] : List UInt8) = s at hts'
    cases hts' with
    | nil => rfl
    | @lexeme t s ts ht _ =>
      have hpos := t.text_length_pos
      rw [(List.append_eq_nil_iff.mp hs.symm).1] at hpos
      exact absurd hpos (Nat.lt_irrefl _)
    | char => cases hs
  | @lexeme t s ts ht hs ih =>
    generalize heq : t.text ++ s = s' at hts'
    cases hts' with
    | nil =>
      have hpos := t.text_length_pos
      rw [(List.append_eq_nil_iff.mp heq).1] at hpos
      exact absurd hpos (Nat.lt_irrefl _)
    | @lexeme t' s' ts' ht' hs' =>
      have hzero' := hzero
      rw [heq] at hzero'
      rw [List.mem_append, not_or] at hzero hzero'
      obtain ⟨rfl, rfl⟩ := ht.unique ht' hzero.1 hzero'.1 heq
      rw [ih hzero.2 _ hs']
    | char hc' _ => exact absurd heq.symm (hc' t s ht)
  | @char c s ts hc hs ih =>
    generalize heq : c :: s = s' at hts'
    cases hts' with
    | nil => cases heq
    | @lexeme t u ts ht _ => exact absurd heq (hc t u ht)
    | char _ hs' =>
      cases heq
      rw [ih (fun hmem => hzero (List.mem_cons_of_mem _ hmem)) _ hs']

/-! ### Runs -/

lemma Splits.textOf_eq (h : Splits s ts) : textOf ts = s := by
  induction h with
  | nil => rfl
  | lexeme _ _ ih => rw [textOf, List.flatMap_cons, ← textOf, ih]
  | char _ _ ih => rw [textOf, List.flatMap_cons, ← textOf, ih]; rfl

@[simp] lemma bracesKept_escape (brace : UInt8) :
    BracesKept (.escape brace :: ts) ↔ BracesKept ts := Iff.rfl

@[simp] lemma bracesKept_field (index spec : Option (List UInt8)) :
    BracesKept (.field index spec :: ts) ↔ BracesKept ts := Iff.rfl

/-- One iteration that formats an argument. -/
lemma formatFrom_field {index spec : Option (List UInt8)} (h : (Token.field index spec).IsLexeme)
    (hzero : 0 ∉ (Token.field index spec).text) (hargs : args.length < 2 ^ 64) {next fuel : ℕ}
    {argument : Argument} (hargument : args[index.elim next decimal]? = some argument)
    {text : List UInt8}
    (htext : formatArgumentTo argument (spec.map (· ++ [closeBrace])) = some text)
    (out : List UInt8) :
    formatFrom args (fuel + 1) ((Token.field index spec).text ++ u) next out =
      formatFrom args fuel u (if index = none then next + 1 else next) (out ++ text) := by
  have htext' : formatArgumentTo argument (spec.map (· ++ closeBrace :: u)) = some text := by
    cases spec with
    | none => exact htext
    | some t => exact (formatArgumentTo_append (h.2 t rfl) argument).trans htext
  obtain ⟨hlt, -⟩ := List.getElem?_eq_some_iff.mp hargument
  rw [formatFrom, scan_field h (zero_notMem_spec hzero), Option.bind_eq_bind, Option.bind_some]
  cases index with
  | none =>
    have hnext : (next + 1) % 2 ^ 64 = next + 1 := Nat.mod_eq_of_lt (Nat.lt_of_le_of_lt hlt hargs)
    rw [Option.elim_none] at hargument
    simp only [Option.map_none, hargument, htext', hnext, Option.bind_eq_bind, Option.bind_some, if_true]
  | some digits =>
    have hindex : parseIndex (digits ++ (spec.elim [] (colon :: ·) ++ closeBrace :: u)) =
        some (decimal digits) := by
      have hlt' : decimal digits < 2 ^ 64 := hlt.trans hargs
      cases spec with
      | none => exact parseIndex_append (h.1 digits rfl).2 (by decide) hlt'
      | some t => exact parseIndex_append (h.1 digits rfl).2 (by decide) hlt'
    rw [Option.elim_some] at hargument
    simp only [Option.map_some, hindex, hargument, htext', Option.bind_eq_bind, Option.bind_some]
    rfl

/-- A run of the loop. It writes what the format string stands for, exactly when the braces that start
nothing are kept. -/
lemma formatFrom_eq (hsplit : Splits s ts) (hzero : 0 ∉ s) (hargs : args.length < 2 ^ 64) {next fuel : ℕ}
    (hfuel : s.length < fuel) {text : List UInt8} (htext : render args next ts = some text)
    (out : List UInt8) :
    ∃ text', formatFrom args fuel (s ++ 0 :: rest) next out = some (out ++ text') ∧
      (text' = text ↔ BracesKept ts) := by
  induction hsplit generalizing next fuel text out with
  | nil =>
    obtain ⟨fuel, rfl⟩ := Nat.exists_eq_succ_of_ne_zero (Nat.ne_of_gt hfuel)
    cases htext
    refine ⟨[], ?_, iff_of_true rfl trivial⟩
    rw [formatFrom, List.nil_append, scan_eq, if_pos rfl, List.append_nil]
    rfl
  | @lexeme t s ts ht hs ih =>
    obtain ⟨fuel, rfl⟩ := Nat.exists_eq_succ_of_ne_zero (Nat.ne_of_gt (Nat.zero_lt_of_lt hfuel))
    have hfuel' : s.length < fuel := by
      have hpos := t.text_length_pos
      rw [List.length_append] at hfuel
      omega
    rw [List.mem_append, not_or] at hzero
    rw [List.append_assoc, formatFrom]
    cases t with
    | escape brace =>
      obtain ⟨tail, htail, rfl⟩ := Option.map_eq_some_iff.mp htext
      obtain ⟨tail', hrun, hiff⟩ := ih hzero.2 hfuel' htail (out ++ [brace])
      refine ⟨brace :: tail', ?_, ?_⟩
      · rw [show (Token.escape brace).text = [brace, brace] from rfl, List.cons_append,
          List.cons_append, List.nil_append, scan_escape ht, Option.bind_eq_bind, Option.bind_some]
        simpa using hrun
      · rw [List.cons.injEq, bracesKept_escape, hiff]
        exact and_iff_right rfl
    | field index spec =>
      simp only [render, Option.bind_eq_bind, Option.bind_eq_some_iff] at htext
      obtain ⟨argument, hargument, value, hvalue, tail, htail, htext⟩ := htext
      cases htext
      obtain ⟨tail', hrun, hiff⟩ := ih hzero.2 hfuel' htail (out ++ value)
      refine ⟨value ++ tail', ?_, ?_⟩
      · rw [← formatFrom, formatFrom_field ht hzero.1 hargs hargument hvalue, hrun, List.append_assoc]
      · rw [List.append_cancel_left_eq, bracesKept_field, hiff]
    | char c => exact ht.elim
  | @char c s ts hc hs ih =>
    obtain ⟨fuel, rfl⟩ := Nat.exists_eq_succ_of_ne_zero (Nat.ne_of_gt (Nat.zero_lt_of_lt hfuel))
    obtain ⟨tail, htail, rfl⟩ := Option.map_eq_some_iff.mp htext
    rw [List.length_cons, Nat.succ_lt_succ_iff] at hfuel
    obtain ⟨tail', hrun, hiff⟩ := ih (fun hmem => hzero (List.mem_cons_of_mem _ hmem)) hfuel htail
      (out ++ [copied c s])
    refine ⟨copied c s :: tail', ?_, ?_⟩
    · rw [formatFrom, List.cons_append, scan_char hc hzero, Option.bind_eq_bind, Option.bind_some]
      simpa using hrun
    · rw [List.cons.injEq, BracesKept, hs.textOf_eq, copied_eq_iff hc, hiff]

/-- For a format string whose fields are all valid, `format_to` writes what the string stands for exactly
when the braces that start nothing are kept. Nothing is read behind the NUL, whatever is there. -/
theorem formatTo_eq_some_iff (hsplit : Splits s ts) (hzero : 0 ∉ s) (hargs : args.length < 2 ^ 64)
    {text : List UInt8} (htext : render args 0 ts = some text) {fuel : ℕ} (hfuel : s.length < fuel) :
    formatTo fuel (s ++ 0 :: rest) args = some text ↔ BracesKept ts := by
  obtain ⟨text', hrun, hiff⟩ : ∃ text', formatFrom args fuel (s ++ 0 :: rest) 0 [] = some ([] ++ text') ∧
      (text' = text ↔ BracesKept ts) := formatFrom_eq hsplit hzero hargs hfuel htext []
  rw [formatTo, hrun, List.nil_append, Option.some_inj, hiff]

lemma lone_openBrace : Lone openBrace [0x61] := by
  intro t u ht heq
  cases t with
  | escape brace =>
    obtain ⟨hfirst, hsecond⟩ := List.cons.inj heq
    rw [← hfirst] at hsecond
    exact absurd (List.cons.inj hsecond).1 (by decide)
  | field index spec =>
    have hlast : closeBrace ∈ [openBrace, 0x61] := by
      rw [heq, Token.text]
      simp
    exact absurd hlast (by decide)
  | char c => exact ht

lemma splits_loneBrace : Splits [openBrace, 0x61] [.char openBrace, .char 0x61] := by
  refine .char lone_openBrace (.char ?_ .nil)
  intro t u ht heq
  cases t with
  | escape brace => cases heq
  | field index spec =>
    exact absurd (List.cons.inj heq).1 (by decide)
  | char c => exact ht

/-- The brace of the format string `{a` is lost, and its `a` is written twice. -/
theorem not_formatTo_loneBrace : ¬∀ (s rest : List UInt8) (ts : List Token) (args : List Argument)
    (text : List UInt8) (fuel : ℕ), Splits s ts → 0 ∉ s → args.length < 2 ^ 64 →
      render args 0 ts = some text → s.length < fuel →
        formatTo fuel (s ++ 0 :: rest) args = some text := by
  intro h
  have hrun := h _ [] _ [] [openBrace, 0x61] 3 splits_loneBrace (by decide) (by decide) rfl (by decide)
  have hcode : formatTo 3 ([openBrace, 0x61] ++ [0]) [] = some [0x61, 0x61] := by decide +kernel
  exact absurd (hcode.symm.trans hrun) (by decide)

/-- Two fields with an escape between them. -/
def smallFormat : List Token :=
  [.field none none, .escape openBrace, .field (some (bytes "0")) (some (bytes "x"))]

lemma splits_smallFormat : Splits (textOf smallFormat) smallFormat := by
  have hempty : (Token.field none none).IsLexeme := ⟨nofun, nofun⟩
  have hfull : (Token.field (some (bytes "0")) (some (bytes "x"))).IsLexeme := by
    refine ⟨?_, ?_⟩
    · rintro _ ⟨⟩
      exact ⟨by decide, by decide +kernel⟩
    · rintro _ ⟨⟩
      decide +kernel
  exact .lexeme hempty (.lexeme (.inl rfl) (.lexeme hfull .nil))

/-- The number 255, in decimal and in hexadecimal digits. -/
theorem formatTo_eq_some_iff_smallFormat :
    formatTo 20 (textOf smallFormat ++ [0]) [.uintmax 255] =
      some (bytes "255" ++ openBrace :: bytes "ff") ↔ BracesKept smallFormat :=
  formatTo_eq_some_iff splits_smallFormat (by decide) (by decide) (by decide +kernel) (by decide)

end PiKachulm.Libk
