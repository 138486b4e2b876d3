import PiKachulm.Fs.DirEntry

/-!
# Names in a path

`create_name` takes the first name of a path. The name is put into `lfnbuf` as a long name, and a short name is
made of it, with flags that say what is lost.
-/

namespace PiKachulm.Fs

/-! ### Long names -/

/-- `NS_LOSS`, a short name without all of the name. -/
def nsLoss : UInt8 := 0x01

/-- `NS_LFN`, a name that needs a long name. -/
def nsLfn : UInt8 := 0x02

/-- `NS_LAST`, the last name of a path. -/
def nsLast : UInt8 := 0x04

def nsBody : UInt8 := 0x08

def nsExt : UInt8 := 0x10

/-- `NS_NOLFN`, long names are not compared. -/
def nsNolfn : UInt8 := 0x40

/-- `NS_NONAME`, there is no name at all. -/
def nsNoname : UInt8 := 0x80

/-- `IsSeparator`. -/
def isSeparator (c : ℕ) : Bool := decide (c = 0x2F ∨ c = 0x5C)

/-- `IsTerminator`. -/
def isTerminator (c : ℕ) : Bool := decide (c < 0x20)

/-- The characters of `"*:<>|\"\?\x7F"`, which are illegal in a long name. -/
def illegalLfn : List ℕ := [0x2A, 0x3A, 0x3C, 0x3E, 0x7C, 0x22, 0x3F, 0x7F]

/-- What the first loop of `create_name` leaves: the character that ends the name, the rest of the path, the
buffer, and the length of the name. -/
structure Taken where
  wc : ℕ
  path : List UInt8
  lfn : ℕ → ℕ
  di : ℕ

/-- The loop that puts the name into `lfnbuf`. There is no result for an invalid name. -/
def takeName : ℕ → List UInt8 → (ℕ → ℕ) → ℕ → Option Taken
  | 0, _, _, _ => none
  | fuel + 1, p, lfn, di =>
    match tchar2uni p with
    | none => none
    | some (uc, p) =>
      let lfn := if uc ≥ 0x10000 then Function.update lfn di (uc >>> 16) else lfn
      let di := if uc ≥ 0x10000 then di + 1 else di
      let wc := uc % 2 ^ 16
      if wc < 0x20 ∨ isSeparator wc then some ⟨wc, p, lfn, di⟩
      else if wc < 0x80 ∧ wc ∈ illegalLfn then none
      else if di ≥ 255 then none
      else takeName fuel p (Function.update lfn di wc) (di + 1)

/-- The rest of a path without separators. -/
def skipSeparators (p : List UInt8) : List UInt8 := p.dropWhile fun c => isSeparator c.toNat

/-- After the character that ends a name: whether the name is the last one, and the rest of the path. -/
def nextName (wc : ℕ) (p : List UInt8) : UInt8 × List UInt8 :=
  if wc < 0x20 then (nsLast, p)
  else (if isTerminator (peek (skipSeparators p)).toNat then nsLast else 0, skipSeparators p)

/-- The length without the spaces and the dots at the end. -/
def snip (lfn : ℕ → ℕ) : ℕ → ℕ
  | 0 => 0
  | di + 1 => if lfn di ≠ 0x20 ∧ lfn di ≠ 0x2E then di + 1 else snip lfn di

/-! ### Short names -/

def isUpper (c : ℕ) : Bool := decide (0x41 ≤ c ∧ c ≤ 0x5A)

def isLower (c : ℕ) : Bool := decide (0x61 ≤ c ∧ c ≤ 0x7A)

/-- The characters of `"+,;=[]"`, which are illegal in a short name only. -/
def illegalSfn : List ℕ := [0x2B, 0x2C, 0x3B, 0x3D, 0x5B, 0x5D]

/-- The variables of the loop that makes a short name. -/
structure SfnState where
  fn : List UInt8
  cf : UInt8
  b : UInt8
  i : ℕ
  ni : ℕ
  si : ℕ

/-- An extended character in the code page, in upper case. -/
def toOem (wc : ℕ) : ℕ :=
  if uni2oem wc &&& 0x80 ≠ 0 then exCvt.getD (uni2oem wc &&& 0x7F) 0 else uni2oem wc

/-- A character of one byte. -/
def SfnState.put (s : SfnState) (wc : ℕ) : SfnState :=
  if wc = 0 ∨ wc ∈ illegalSfn then
    { s with fn := s.fn.set s.i 0x5F, cf := s.cf ||| (nsLoss ||| nsLfn), i := s.i + 1 }
  else
    { s with
      fn := s.fn.set s.i (.ofNat (if isLower wc then wc - 0x20 else wc)),
      b := s.b ||| (if isUpper wc then 2 else 0) ||| (if isLower wc then 1 else 0),
      i := s.i + 1 }

/-- The loop that makes a short name. The last dot, if any, is before `di`. -/
def sfnLoop (name : List ℕ) (di : ℕ) : ℕ → SfnState → SfnState
  | 0, s => s
  | fuel + 1, s =>
    let wc := name.getD s.si 0
    let s := { s with si := s.si + 1 }
    if wc = 0 then s
    else if wc = 0x20 ∨ wc = 0x2E ∧ s.si ≠ di then
      sfnLoop name di fuel { s with cf := s.cf ||| (nsLoss ||| nsLfn) }
    else if s.i ≥ s.ni ∨ s.si = di then
      if s.ni = 11 then { s with cf := s.cf ||| (nsLoss ||| nsLfn) }
      else
        let s := { s with cf := if s.si ≠ di then s.cf ||| (nsLoss ||| nsLfn) else s.cf }
        if s.si > di then s
        else sfnLoop name di fuel { s with si := di, i := 8, ni := 11, b := s.b <<< 2 }
    else
      let s := { s with cf := if wc ≥ 0x80 then s.cf ||| nsLfn else s.cf }
      let wc := if wc ≥ 0x80 then toOem wc else wc
      if wc ≥ 0x100 then
        if s.i ≥ s.ni - 1 then sfnLoop name di fuel { s with cf := s.cf ||| (nsLoss ||| nsLfn), i := s.ni }
        else sfnLoop name di fuel { s with
          fn := (s.fn.set s.i (.ofNat (wc >>> 8))).set (s.i + 1) (.ofNat wc), i := s.i + 2 }
      else sfnLoop name di fuel (s.put wc)

/-- The number of spaces before the name. -/
def leadingSpaces (name : List ℕ) : ℕ := (name.takeWhile (· = 0x20)).length

/-- The place after the last dot, or 0. -/
def lastDot (name : List ℕ) : ℕ → ℕ
  | 0 => 0
  | di + 1 => if name.getD di 0 = 0x2E then di + 1 else lastDot name di

/-- The flags for a name with letters of both cases, and for names in lower case. -/
def caseFlags (cf b : UInt8) : UInt8 :=
  let cf := if b &&& 0x0C = 0x0C ∨ b &&& 0x03 = 0x03 then cf ||| nsLfn else cf
  if cf &&& nsLfn = 0 then
    cf ||| (if b &&& 0x01 ≠ 0 then nsExt else 0) ||| (if b &&& 0x04 ≠ 0 then nsBody else 0)
  else cf

/-- The second part of `create_name`: the short name and its flags. -/
def createSfn (name : List ℕ) (cf : UInt8) : List UInt8 × UInt8 :=
  let si := leadingSpaces name
  let cf := if si > 0 ∨ name.getD si 0 = 0x2E then cf ||| (nsLoss ||| nsLfn) else cf
  let s := sfnLoop name (lastDot name name.length) (name.length + 2) ⟨.replicate 11 0x20, cf, 0, 0, 8, si⟩
  (if s.fn.headD 0 = ddem then s.fn.set 0 rddem else s.fn,
    caseFlags s.cf (if s.ni = 8 then s.b <<< 2 else s.b))

/-! ### The first name of a path -/

/-- A name of a path: its short name and the flags, `lfnbuf`, and the rest of the path. -/
structure Segment where
  fn : List UInt8
  nsFlag : UInt8
  lfnbuf : ℕ → ℕ
  path : List UInt8

/-- `create_name`. There is no result for an invalid name. -/
def createName (path : List UInt8) (lfnbuf : ℕ → ℕ) : Option Segment := do
  let t ← takeName (path.length + 1) path lfnbuf 0
  let di := snip t.lfn t.di
  if di = 0 then none
  else
    let (cf, path) := nextName t.wc t.path
    let (fn, nsFlag) := createSfn ((List.range di).map t.lfn) cf
    some ⟨fn, nsFlag, Function.update t.lfn di 0, path⟩

end PiKachulm.Fs
