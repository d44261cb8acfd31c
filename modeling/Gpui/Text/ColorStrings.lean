import Gpui.Text.Highlight
import Gpui.Text.Slices

/-! # Colours as strings

    A colour is written as a number sign and hexadecimal digits, one or two for each of its
    components; the last component may be missing.  The components are cut out at indices of
    bytes and read by the parser for integers, which takes a plus sign before the digits.

    * **`tryFrom_iff`**: a string is read as its grammar says iff it is not one of 6 or 8
      characters after the number sign with a plus sign and a digit in place of some component. -/

namespace Gpui

open List

namespace ColorStrings

/-! ### Section 1: The model -/

/-- The characters with the property `White_Space`. -/
def isWhitespace (c : Char) : Bool :=
  (0x0009 ≤ c.toNat && c.toNat ≤ 0x000D) || c.toNat = 0x0020 || c.toNat = 0x0085 ||
    c.toNat = 0x00A0 || c.toNat = 0x1680 || (0x2000 ≤ c.toNat && c.toNat ≤ 0x200A) ||
    c.toNat = 0x2028 || c.toNat = 0x2029 || c.toNat = 0x202F || c.toNat = 0x205F ||
    c.toNat = 0x3000

def trim (value : List Char) : List Char :=
  (value.dropWhile isWhitespace).rdropWhile isWhitespace

/-- What is before and after the first number sign. -/
def splitOnce : List Char → Option (List Char × List Char)
  | []        => none
  | c :: rest =>
      if c = '#' then some ([], rest)
      else (splitOnce rest).map (fun parts => (c :: parts.1, parts.2))

inductive IntErrorKind where
  | empty
  | invalidDigit
  | posOverflow
deriving DecidableEq, Repr

/-- `char::to_digit(16)`. -/
def toDigit (c : Char) : Option Nat :=
  if 48 ≤ c.toNat ∧ c.toNat ≤ 57 then some (c.toNat - 48)
  else if 97 ≤ c.toNat ∧ c.toNat ≤ 102 then some (c.toNat - 87)
  else if 65 ≤ c.toNat ∧ c.toNat ≤ 70 then some (c.toNat - 55)
  else none

/-- The digits of a number that is at most 255. -/
def readDigits (result : Nat) : List Char → Except IntErrorKind Nat
  | [] => .ok result
  | c :: rest =>
      match toDigit c with
      | none => .error .invalidDigit
      | some digit =>
          if 255 < result * 16 + digit then .error .posOverflow
          else readDigits (result * 16 + digit) rest

/-- `u8::from_str_radix(src, 16)`. -/
def fromStrRadix : List Char → Except IntErrorKind Nat
  | []          => .error .empty
  | '+' :: []   => .error .invalidDigit
  | '+' :: rest => readDigits 0 rest
  | src         => readDigits 0 src

inductive ColorError where
  | invalidFormat
  /-- The components that are meant, as the message names them. -/
  | invalidUnicode (component : String)
  | parseInt (kind : IntErrorKind)
deriving DecidableEq, Repr

namespace ColorError

def parseIntMessage : IntErrorKind → String
  | .empty        => "cannot parse integer from empty string"
  | .invalidDigit => "invalid digit found in string"
  | .posOverflow  => "number too large to fit in target type"

def message (value : List Char) : ColorError → String
  | .invalidFormat =>
      "invalid RGBA hex color: '" ++ String.ofList value ++
        "'. Expected #rgb, #rgba, #rrggbb, or #rrggbbaa"
  | .invalidUnicode component =>
      "invalid unicode characters in color: " ++ component ++ " for value: '" ++
        String.ofList value ++ "'"
  | .parseInt kind => parseIntMessage kind

end ColorError

/-- A component of a number of digits. -/
def component (hex : List Char) (digits index : Nat) (name : String) : Except ColorError Nat :=
  match getSlice hex (digits * index) (digits * index + digits) with
  | none => .error (.invalidUnicode name)
  | some src =>
      match fromStrRadix src with
      | .error kind => .error (.parseInt kind)
      | .ok value   => .ok value

/-- Duplicates a hexadecimal digit. -/
def duplicate (value : Nat) : Nat := (value <<< 4) % 256 ||| value

/-- The last component, or what stands for it. -/
def alpha (hex : List Char) (digits : Nat) (name : String) (missing : Nat) :
    Except ColorError Nat :=
  if utf8Len hex = 4 * digits then component hex digits 3 name else .ok missing

variable {X : Type} [Field X]

def fromBytes (r g b a : Nat) : Rgba X where
  r := r / (255 : Nat)
  g := g / (255 : Nat)
  b := b / (255 : Nat)
  a := a / (255 : Nat)

def fromHex (hex : List Char) : Except ColorError (Rgba X) :=
  if utf8Len hex = 3 ∨ utf8Len hex = 4 then do
    let r ← component hex 1 0 "r component of #rgb/#rgba"
    let g ← component hex 1 1 "g component of #rgb/#rgba"
    let b ← component hex 1 2 "b component of #rgb/#rgba"
    let a ← alpha hex 1 "a component of #rgba" 0xf
    .ok (fromBytes (duplicate r) (duplicate g) (duplicate b) (duplicate a))
  else if utf8Len hex = 6 ∨ utf8Len hex = 8 then do
    let r ← component hex 2 0 "r component of #rrggbb/#rrggbbaa"
    let g ← component hex 2 1 "g component of #rrggbb/#rrggbbaa"
    let b ← component hex 2 2 "b component of #rrggbb/#rrggbbaa"
    let a ← alpha hex 2 "a component of #rrggbbaa" 0xff
    .ok (fromBytes r g b a)
  else .error .invalidFormat

/-- `Rgba::try_from`. -/
def tryFrom (value : List Char) : Except ColorError (Rgba X) :=
  match splitOnce (trim value) with
  | some ([], hex) => fromHex hex
  | _ => .error .invalidFormat

/-! ### Section 2: The grammar -/

/-- The colour of some digits. -/
def digitsColor : List Nat → Option (Rgba X)
  | [r, g, b] => some (fromBytes (17 * r) (17 * g) (17 * b) 255)
  | [r, g, b, a] => some (fromBytes (17 * r) (17 * g) (17 * b) (17 * a))
  | [r, r', g, g', b, b'] =>
      some (fromBytes (16 * r + r') (16 * g + g') (16 * b + b') 255)
  | [r, r', g, g', b, b', a, a'] =>
      some (fromBytes (16 * r + r') (16 * g + g') (16 * b + b') (16 * a + a'))
  | _ => none

/-- The string is a number sign and 3, 4, 6 or 8 hexadecimal digits, which are those of the
    colour. -/
def Denotes (value : List Char) (color : Rgba X) : Prop :=
  ∃ hex digits, trim value = '#' :: hex ∧ hex.map toDigit = digits.map some ∧
    digitsColor digits = some color

/-- A character at an even place is a digit or a plus sign, and one at an odd place a digit. -/
def SignedAt (i : Nat) (c : Char) : Prop :=
  (toDigit c).isSome ∨ c = '+' ∧ i % 2 = 0

/-- The string has 6 or 8 characters after the number sign, with a plus sign and a digit in place
    of some component. -/
def Signed (value : List Char) : Prop :=
  ∃ hex, trim value = '#' :: hex ∧ (hex.length = 6 ∨ hex.length = 8) ∧ '+' ∈ hex ∧
    ∀ i c, hex[i]? = some c → SignedAt i c

/-! ### Section 3: Digits -/

variable {c : Char} {src hex : List Char} {v digits : Nat} {values : List Nat} {color : Rgba X}
  {digit : Nat} {index : Nat} {missing : Nat} {nr ng nb na : String} {value : List Char}

theorem toDigit_lt (h : toDigit c = some digit) : digit < 16 := by
  unfold toDigit at h
  split at h
  · cases h
    omega
  · split at h
    · cases h
      omega
    · split at h
      · cases h
        omega
      · cases h

theorem toDigit_utf8Size (h : toDigit c = some digit) : c.utf8Size = 1 := by
  have hascii : c.toNat ≤ 127 := by
    unfold toDigit at h
    split at h
    · omega
    · split at h
      · omega
      · split at h
        · omega
        · cases h
  rw [Char.utf8Size_eq_one_iff]
  exact hascii

theorem toDigit_plus : toDigit '+' = none := rfl

theorem duplicate_eq : ∀ {digit : Nat}, digit < 16 → duplicate digit = 17 * digit := by
  decide

open LineWrapper (utf8Len_nil utf8Len_cons utf8Len_append getSlice_append getSlice_zero_iff)

/-- A text of one byte is a character. -/
theorem eq_singleton_of_utf8Len (h : utf8Len src = 1) : ∃ c, src = [c] := by
  cases src with
  | nil => cases h
  | cons c rest =>
    cases rest with
    | nil => exact ⟨c, rfl⟩
    | cons d rest =>
      rw [utf8Len_cons, utf8Len_cons] at h
      have hc := c.utf8Size_pos
      have hd := d.utf8Size_pos
      omega

theorem readDigits_one (c : Char) (v : Nat) : readDigits 0 [c] = .ok v ↔ toDigit c = some v := by
  unfold readDigits
  cases hdigit : toDigit c with
  | none => simp
  | some digit =>
    have hlt := toDigit_lt hdigit
    dsimp only
    rw [if_neg (by omega)]
    simp [readDigits]

theorem fromStrRadix_one (hlen : utf8Len src = 1) :
    fromStrRadix src = .ok v ↔ ∃ c, src = [c] ∧ toDigit c = some v := by
  obtain ⟨c, rfl⟩ := eq_singleton_of_utf8Len hlen
  have hread : fromStrRadix [c] = .ok v ↔ toDigit c = some v := by
    by_cases hsign : c = '+'
    · subst hsign
      rw [toDigit_plus]
      simp [fromStrRadix]
    · rw [← readDigits_one]
      unfold fromStrRadix
      split
      · next h => cases h
      · next h => cases h; exact absurd rfl hsign
      · next h => cases h; exact absurd rfl hsign
      · rfl
  rw [hread]
  simp

/-- Two characters are read as a component. -/
def ReadsPair (c d : Char) (v : Nat) : Prop :=
  ∃ y, toDigit d = some y ∧
    ((∃ x, toDigit c = some x ∧ v = 16 * x + y) ∨ (c = '+' ∧ v = y))

theorem fromStrRadix_pair (c d : Char) (v : Nat) :
    fromStrRadix [c, d] = .ok v ↔ ReadsPair c d v := by
  unfold ReadsPair
  by_cases hsign : c = '+'
  · subst hsign
    show readDigits 0 [d] = .ok v ↔ _
    rw [readDigits_one, toDigit_plus]
    simp [eq_comm]
  · have hread : fromStrRadix [c, d] = readDigits 0 [c, d] := by
      unfold fromStrRadix
      split
      · next h => cases h
      · next h => cases h
      · next h => cases h; exact absurd rfl hsign
      · rfl
    rw [hread]
    unfold readDigits
    cases hc : toDigit c with
    | none => simp [hsign]
    | some x =>
      have hx := toDigit_lt hc
      dsimp only
      rw [if_neg (by omega)]
      unfold readDigits
      cases hd : toDigit d with
      | none => simp
      | some y =>
        have hy := toDigit_lt hd
        dsimp only
        rw [if_neg (by omega)]
        simp [readDigits, hsign, Nat.mul_comm, eq_comm]

/-- A text of two bytes is read if it is two characters that are. -/
theorem fromStrRadix_two (hlen : utf8Len src = 2) :
    fromStrRadix src = .ok v ↔ ∃ c d, src = [c, d] ∧ ReadsPair c d v := by
  constructor
  · intro h
    cases src with
    | nil => cases hlen
    | cons c rest =>
      cases rest with
      | nil =>
        -- one character of two bytes is not a digit
        have hread : readDigits 0 [c] = .ok v := by
          unfold fromStrRadix at h
          split at h
          · cases h
          · cases h
          · next hne heq =>
            cases heq
            exact (hne rfl).elim
          · exact h
        have hsize := toDigit_utf8Size ((readDigits_one c v).mp hread)
        rw [utf8Len_cons, utf8Len_nil, hsize] at hlen
        cases hlen
      | cons d rest =>
        rw [utf8Len_cons, utf8Len_cons] at hlen
        have hc := c.utf8Size_pos
        have hd := d.utf8Size_pos
        cases rest with
        | nil => exact ⟨c, d, rfl, (fromStrRadix_pair c d v).mp h⟩
        | cons e rest =>
          rw [utf8Len_cons] at hlen
          have he := e.utf8Size_pos
          omega
  · intro h
    obtain ⟨c, d, rfl, hpair⟩ := h
    exact (fromStrRadix_pair c d v).mpr hpair

/-! ### Section 4: Components -/

/-- A component can be read. -/
def Reads (hex : List Char) (digits index v : Nat) : Prop :=
  ∃ src, getSlice hex (digits * index) (digits * index + digits) = some src ∧
    fromStrRadix src = .ok v

theorem component_eq_ok {name : String} :
    component hex digits index name = .ok v ↔ Reads hex digits index v := by
  unfold component Reads
  cases getSlice hex (digits * index) (digits * index + digits) with
  | none => simp
  | some src => cases hread : fromStrRadix src <;> simp [hread]

theorem reads_zero_iff :
    Reads hex digits 0 v ↔
      ∃ src rest, hex = src ++ rest ∧ utf8Len src = digits ∧ fromStrRadix src = .ok v := by
  unfold Reads
  rw [Nat.mul_zero, Nat.zero_add]
  simp only [getSlice_zero_iff]
  constructor
  · intro h
    obtain ⟨src, ⟨rest, hhex, hlen⟩, hread⟩ := h
    exact ⟨src, rest, hhex, hlen, hread⟩
  · intro h
    obtain ⟨src, rest, hhex, hlen, hread⟩ := h
    exact ⟨src, ⟨rest, hhex, hlen⟩, hread⟩

theorem reads_succ_iff {rest : List Char} (hlen : utf8Len src = digits) :
    Reads (src ++ rest) digits (index + 1) v ↔ Reads rest digits index v := by
  have hshift : digits * (index + 1) = utf8Len src + digits * index := by
    rw [hlen, Nat.mul_succ, Nat.add_comm]
  unfold Reads
  rw [hshift, Nat.add_assoc, getSlice_append]

/-- The components of a string, one after the other. -/
def Components (digits : Nat) : List Char → List Nat → Prop
  | hex, [] => hex = []
  | hex, v :: values =>
      ∃ src rest, hex = src ++ rest ∧ utf8Len src = digits ∧ fromStrRadix src = .ok v ∧
        Components digits rest values

/-- A string of the right length is read iff all components are. -/
theorem components_iff
    (hlen : utf8Len hex = digits * values.length) :
    (∀ i v, values[i]? = some v → Reads hex digits i v) ↔ Components digits hex values := by
  induction values generalizing hex with
  | nil =>
    constructor
    · intro _
      cases hex with
      | nil => rfl
      | cons c rest =>
        rw [utf8Len_cons] at hlen
        have hc := c.utf8Size_pos
        simp only [length_nil, Nat.mul_zero] at hlen
        omega
    · intro _ i v h
      cases h
  | cons v values ih =>
    constructor
    · intro h
      obtain ⟨src, rest, rfl, hsrc, hread⟩ := reads_zero_iff.mp (h 0 v rfl)
      refine ⟨src, rest, rfl, hsrc, hread, (ih ?_).mp ?_⟩
      · rw [utf8Len_append, hsrc, length_cons, Nat.mul_succ] at hlen
        omega
      · intro i w hw
        exact (reads_succ_iff hsrc).mp (h (i + 1) w hw)
    · intro h
      obtain ⟨src, rest, rfl, hsrc, hread, hrest⟩ := h
      have hreads := (ih (by
        rw [utf8Len_append, hsrc, length_cons, Nat.mul_succ] at hlen
        omega)).mpr hrest
      intro i w hw
      cases i with
      | zero =>
        cases hw
        exact reads_zero_iff.mpr ⟨src, rest, rfl, hsrc, hread⟩
      | succ i => exact (reads_succ_iff hsrc).mpr (hreads i w hw)

theorem components_one :
    Components 1 hex values ↔ hex.map toDigit = values.map some := by
  induction values generalizing hex with
  | nil => simp [Components]
  | cons v values ih =>
    constructor
    · intro h
      obtain ⟨src, rest, rfl, hsrc, hread, hrest⟩ := h
      obtain ⟨c, rfl, hc⟩ := (fromStrRadix_one hsrc).mp hread
      simp [hc, ih.mp hrest]
    · intro h
      cases hex with
      | nil => cases h
      | cons c rest =>
        rw [map_cons, map_cons, List.cons.injEq] at h
        have hlen : utf8Len [c] = 1 := by
          rw [utf8Len_cons, utf8Len_nil, toDigit_utf8Size h.1]
        exact ⟨[c], rest, rfl, hlen, (fromStrRadix_one hlen).mpr ⟨c, rfl, h.1⟩, ih.mpr h.2⟩

/-- Pairs of characters that are read as components. -/
def ReadsPairs : List Char → List Nat → Prop
  | [], [] => True
  | c :: d :: rest, v :: values => ReadsPair c d v ∧ ReadsPairs rest values
  | _, _ => False

theorem ReadsPair.utf8Len {d : Char} (h : ReadsPair c d v) :
    utf8Len [c, d] = 2 := by
  obtain ⟨y, hd, hc⟩ := h
  have hsize : c.utf8Size = 1 := by
    obtain ⟨x, hx, _⟩ | ⟨rfl, _⟩ := hc
    · exact toDigit_utf8Size hx
    · rfl
  rw [utf8Len_cons, utf8Len_cons, utf8Len_nil, hsize, toDigit_utf8Size hd]

theorem ReadsPairs.utf8Len :
    ∀ {hex : List Char}, ReadsPairs hex values → utf8Len hex = 2 * values.length := by
  induction values with
  | nil =>
    intro hex h
    cases hex with
    | nil => rfl
    | cons c rest => cases rest <;> exact h.elim
  | cons v values ih =>
    intro hex h
    match hex, h with
    | [], h => exact h.elim
    | [_], h => exact h.elim
    | c :: d :: rest, ⟨hpair, hrest⟩ =>
      have htwo := hpair.utf8Len
      have hlen := ih hrest
      rw [utf8Len_cons, utf8Len_cons, utf8Len_nil] at htwo
      rw [utf8Len_cons, utf8Len_cons, hlen, length_cons]
      omega

theorem components_two :
    Components 2 hex values ↔ ReadsPairs hex values := by
  induction values generalizing hex with
  | nil =>
    cases hex with
    | nil => simp [Components, ReadsPairs]
    | cons c rest => cases rest <;> simp [Components, ReadsPairs]
  | cons v values ih =>
    constructor
    · intro h
      obtain ⟨src, rest, rfl, hsrc, hread, hrest⟩ := h
      obtain ⟨c, d, rfl, hpair⟩ := (fromStrRadix_two hsrc).mp hread
      exact ⟨hpair, ih.mp hrest⟩
    · intro h
      match hex, h with
      | [], h => exact h.elim
      | [_], h => exact h.elim
      | c :: d :: rest, ⟨hpair, hrest⟩ =>
        exact ⟨[c, d], rest, rfl, hpair.utf8Len, (fromStrRadix_two hpair.utf8Len).mpr
          ⟨c, d, rfl, hpair⟩, ih.mpr hrest⟩

/-! ### Section 5: Strings -/

omit [Field X] in
/-- Three components are read, and a fourth one if it is there. -/
theorem fromHex_three (convert : Nat → Nat → Nat → Nat → Rgba X) (hdigits : digits ≠ 0)
    (hlen : utf8Len hex = 3 * digits) :
    (do
        let r ← component hex digits 0 nr
        let g ← component hex digits 1 ng
        let b ← component hex digits 2 nb
        let a ← alpha hex digits na missing
        .ok (convert r g b a) : Except ColorError (Rgba X)) = .ok color ↔
      ∃ r g b, Components digits hex [r, g, b] ∧ convert r g b missing = color := by
  have halpha : alpha hex digits na missing = .ok missing := if_neg (by omega)
  rw [halpha]
  simp only [Exec.bind_eq_ok, component_eq_ok]
  constructor
  · intro h
    obtain ⟨r, hr, g, hg, b, hb, a, ha, hcolor⟩ := h
    cases ha
    cases hcolor
    refine ⟨r, g, b, (components_iff (by simp [hlen, Nat.mul_comm])).mp ?_, rfl⟩
    intro i v hv
    match i with
    | 0 => cases hv; exact hr
    | 1 => cases hv; exact hg
    | 2 => cases hv; exact hb
    | i + 3 => cases hv
  · intro h
    obtain ⟨r, g, b, hcomponents, rfl⟩ := h
    have hreads := (components_iff (by simp [hlen, Nat.mul_comm])).mpr hcomponents
    exact ⟨r, hreads 0 r rfl, g, hreads 1 g rfl, b, hreads 2 b rfl, missing, rfl, rfl⟩

omit [Field X] in
theorem fromHex_four (convert : Nat → Nat → Nat → Nat → Rgba X) (hlen : utf8Len hex = 4 * digits) :
    (do
        let r ← component hex digits 0 nr
        let g ← component hex digits 1 ng
        let b ← component hex digits 2 nb
        let a ← alpha hex digits na missing
        .ok (convert r g b a) : Except ColorError (Rgba X)) = .ok color ↔
      ∃ r g b a, Components digits hex [r, g, b, a] ∧ convert r g b a = color := by
  have halpha : alpha hex digits na missing = component hex digits 3 na := if_pos hlen
  rw [halpha]
  simp only [Exec.bind_eq_ok, component_eq_ok]
  constructor
  · intro h
    obtain ⟨r, hr, g, hg, b, hb, a, ha, hcolor⟩ := h
    cases hcolor
    refine ⟨r, g, b, a, (components_iff (by simp [hlen, Nat.mul_comm])).mp ?_, rfl⟩
    intro i v hv
    match i with
    | 0 => cases hv; exact hr
    | 1 => cases hv; exact hg
    | 2 => cases hv; exact hb
    | 3 => cases hv; exact ha
    | i + 4 => cases hv
  · intro h
    obtain ⟨r, g, b, a, hcomponents, rfl⟩ := h
    have hreads := (components_iff (by simp [hlen, Nat.mul_comm])).mpr hcomponents
    exact ⟨r, hreads 0 r rfl, g, hreads 1 g rfl, b, hreads 2 b rfl, a, hreads 3 a rfl, rfl⟩

theorem splitOnce_eq_nil {s : List Char} :
    splitOnce s = some ([], hex) ↔ s = '#' :: hex := by
  cases s with
  | nil => simp [splitOnce]
  | cons c rest =>
    unfold splitOnce
    by_cases hc : c = '#'
    · rw [if_pos hc]
      simp [hc]
    · rw [if_neg hc]
      simp [hc]

theorem tryFrom_eq_ok :
    tryFrom value = .ok color ↔ ∃ hex, trim value = '#' :: hex ∧ fromHex hex = .ok color := by
  unfold tryFrom
  constructor
  · intro h
    split at h
    · next hex hsplit => exact ⟨hex, splitOnce_eq_nil.mp hsplit, h⟩
    · cases h
  · intro h
    obtain ⟨hex, htrim, hcolor⟩ := h
    rw [splitOnce_eq_nil.mpr htrim]
    exact hcolor

/-! ### Section 6: Digits only -/

/-- All characters are digits. -/
def Digits (hex : List Char) (digits : List Nat) : Prop := hex.map toDigit = digits.map some

theorem Digits.cons_iff {digits : List Nat} :
    Digits (c :: hex) digits ↔
      ∃ digit rest, digits = digit :: rest ∧ toDigit c = some digit ∧ Digits hex rest := by
  unfold Digits
  cases digits with
  | nil => simp
  | cons digit rest => simp

theorem Digits.length {digits : List Nat} (h : Digits hex digits) :
    hex.length = digits.length := by
  have hlen := congrArg List.length h
  rw [length_map, length_map] at hlen
  exact hlen

theorem Digits.utf8Len {digits : List Nat} (h : Digits hex digits) :
    utf8Len hex = digits.length := by
  induction hex generalizing digits with
  | nil =>
    rw [← h.length]
    rfl
  | cons c hex ih =>
    obtain ⟨digit, rest, rfl, hc, hrest⟩ := Digits.cons_iff.mp h
    rw [utf8Len_cons, toDigit_utf8Size hc, ih hrest, length_cons, Nat.add_comm]

theorem Digits.lt {digits : List Nat} (h : Digits hex digits) :
    ∀ digit ∈ digits, digit < 16 := by
  intro digit hdigit
  have hmem : some digit ∈ hex.map toDigit := h ▸ mem_map_of_mem hdigit
  obtain ⟨c, _, hc⟩ := mem_map.mp hmem
  exact toDigit_lt hc

theorem Digits.not_signed {digits : List Nat} (h : Digits hex digits) :
    '+' ∉ hex := by
  intro hplus
  have hmem : toDigit '+' ∈ digits.map some := h ▸ mem_map_of_mem hplus
  obtain ⟨digit, _, hdigit⟩ := mem_map.mp hmem
  cases hdigit

/-- The values of pairs of digits. -/
def pairUp : List Nat → Option (List Nat)
  | [] => some []
  | x :: y :: rest => (pairUp rest).map ((16 * x + y) :: ·)
  | [_] => none

/-- Without plus signs, the pairs that are read are those of digits. -/
theorem readsPairs_iff :
    ∀ {hex : List Char}, '+' ∉ hex →
      (ReadsPairs hex values ↔ ∃ digits, Digits hex digits ∧ pairUp digits = some values) := by
  induction values with
  | nil =>
    intro hex _
    constructor
    · intro h
      cases hex with
      | nil => exact ⟨[], rfl, rfl⟩
      | cons c rest => cases rest <;> exact h.elim
    · intro h
      obtain ⟨digits, hdigits, hpair⟩ := h
      match digits, hpair with
      | [], _ =>
        cases hex with
        | nil => trivial
        | cons c rest => cases hdigits
      | [_], hpair => cases hpair
      | x :: y :: rest, hpair => simp [pairUp] at hpair
  | cons v values ih =>
    intro hex hplus
    match hex, hplus with
    | [], _ =>
      constructor
      · intro h
        exact h.elim
      · intro h
        obtain ⟨digits, hdigits, hpair⟩ := h
        cases digits with
        | nil => cases hpair
        | cons x rest => cases hdigits
    | [c], _ =>
      constructor
      · intro h
        exact h.elim
      · intro h
        obtain ⟨digits, hdigits, hpair⟩ := h
        match digits, hdigits.length, hpair with
        | [_], _, hpair => cases hpair
    | c :: d :: hex, hplus =>
      have hrest : '+' ∉ hex := by
        intro hmem
        exact hplus (mem_cons_of_mem _ (mem_cons_of_mem _ hmem))
      have hc : c ≠ '+' := by
        intro heq
        exact hplus (heq ▸ mem_cons_self)
      constructor
      · intro h
        obtain ⟨⟨y, hd, hsigned⟩, hvalues⟩ := h
        obtain ⟨digits, hdigits, hpair⟩ := (ih hrest).mp hvalues
        obtain ⟨x, hx, rfl⟩ | ⟨heq, _⟩ := hsigned
        · refine ⟨x :: y :: digits, ?_, by simp [pairUp, hpair]⟩
          exact Digits.cons_iff.mpr ⟨x, _, rfl, hx, Digits.cons_iff.mpr ⟨y, _, rfl, hd, hdigits⟩⟩
        · exact absurd heq hc
      · intro h
        obtain ⟨digits, hdigits, hpair⟩ := h
        obtain ⟨x, _, rfl, hx, hdigits⟩ := Digits.cons_iff.mp hdigits
        obtain ⟨y, digits, rfl, hy, hdigits⟩ := Digits.cons_iff.mp hdigits
        obtain ⟨_, hpair, heq⟩ := Option.map_eq_some_iff.mp hpair
        cases heq
        exact ⟨⟨y, hy, .inl ⟨x, hx, rfl⟩⟩, (ih hrest).mpr ⟨digits, hdigits, hpair⟩⟩

/-! ### Section 7: Plus signs -/

theorem SignedAt.utf8Size {i : Nat} (h : SignedAt i c) : c.utf8Size = 1 := by
  obtain hdigit | ⟨rfl, _⟩ := h
  · obtain ⟨digit, hdigit⟩ := Option.isSome_iff_exists.mp hdigit
    exact toDigit_utf8Size hdigit
  · rfl

theorem SignedAt.utf8Len {start : Nat}
    (h : ∀ i c, hex[i]? = some c → SignedAt (start + i) c) : utf8Len hex = hex.length := by
  induction hex generalizing start with
  | nil => rfl
  | cons c hex ih =>
    have hrest : ∀ i d, hex[i]? = some d → SignedAt (start + 1 + i) d := by
      intro i d hd
      have hnext := h (i + 1) d hd
      rwa [Nat.add_assoc, Nat.add_comm 1]
    rw [utf8Len_cons, (h 0 c rfl).utf8Size, ih hrest, length_cons, Nat.add_comm]

theorem utf8Len_eq_length (h : ∀ i c, hex[i]? = some c → SignedAt i c) :
    utf8Len hex = hex.length := by
  have hzero : ∀ i c, hex[i]? = some c → SignedAt (0 + i) c := by
    intro i c hi
    rw [Nat.zero_add]
    exact h i c hi
  exact SignedAt.utf8Len hzero

theorem readsPairs_signed :
    ∀ {hex : List Char}, ReadsPairs hex values → ∀ i c, hex[i]? = some c → SignedAt i c := by
  induction values with
  | nil =>
    intro hex h i c hi
    cases hex with
    | nil => cases hi
    | cons d rest => cases rest <;> exact h.elim
  | cons v values ih =>
    intro hex h i c hi
    match hex, h with
    | [], h => exact h.elim
    | [_], h => exact h.elim
    | e :: d :: hex, ⟨⟨y, hd, hsigned⟩, hvalues⟩ =>
      match i with
      | 0 =>
        cases hi
        obtain ⟨x, hx, _⟩ | ⟨heq, _⟩ := hsigned
        · exact .inl (by rw [hx]; rfl)
        · exact .inr ⟨heq, rfl⟩
      | 1 =>
        cases hi
        exact .inl (by rw [hd]; rfl)
      | i + 2 =>
        obtain hdigit | ⟨heq, heven⟩ := ih hvalues i c hi
        · exact .inl hdigit
        · exact .inr ⟨heq, by omega⟩

/-- Digits and plus signs before digits are read. -/
theorem exists_readsPairs (n : Nat) :
    ∀ {hex : List Char}, hex.length = 2 * n → (∀ i c, hex[i]? = some c → SignedAt i c) →
      ∃ values, values.length = n ∧ ReadsPairs hex values := by
  induction n with
  | zero =>
    intro hex hlen _
    rw [eq_nil_of_length_eq_zero hlen]
    exact ⟨[], rfl, trivial⟩
  | succ n ih =>
    intro hex hlen h
    match hex, hlen with
    | [], hlen => cases hlen
    | [_], hlen => simp at hlen; omega
    | c :: d :: hex, hlen =>
      have hrest : ∀ i e, hex[i]? = some e → SignedAt i e := by
        intro i e hi
        obtain hdigit | ⟨heq, heven⟩ := h (i + 2) e hi
        · exact .inl hdigit
        · exact .inr ⟨heq, by omega⟩
      have hlen' : hex.length = 2 * n := by
        rw [length_cons, length_cons] at hlen
        omega
      obtain ⟨values, hvalues, hreads⟩ := ih hlen' hrest
      have hd : (toDigit d).isSome := by
        obtain hdigit | ⟨_, heven⟩ := h 1 d rfl
        · exact hdigit
        · cases heven
      obtain ⟨y, hy⟩ := Option.isSome_iff_exists.mp hd
      obtain hdigit | ⟨heq, _⟩ := h 0 c rfl
      · obtain ⟨x, hx⟩ := Option.isSome_iff_exists.mp hdigit
        exact ⟨(16 * x + y) :: values, by rw [length_cons, hvalues],
          ⟨y, hy, .inl ⟨x, hx, rfl⟩⟩, hreads⟩
      · exact ⟨y :: values, by rw [length_cons, hvalues], ⟨y, hy, .inr ⟨heq, rfl⟩⟩, hreads⟩

/-! ### Section 8: The parser and the grammar -/

theorem fromHex_one_digit
    (hlen : utf8Len hex = 3 ∨ utf8Len hex = 4) :
    fromHex hex = .ok color ↔ ∃ digits, Digits hex digits ∧ digitsColor digits = some color := by
  unfold fromHex
  rw [if_pos hlen]
  cases hlen with
  | inl hthree =>
    rw [fromHex_three (fun r g b a =>
      fromBytes (duplicate r) (duplicate g) (duplicate b) (duplicate a)) Nat.one_ne_zero hthree]
    constructor
    · intro h
      obtain ⟨r, g, b, hcomponents, rfl⟩ := h
      have hdigits : Digits hex [r, g, b] := components_one.mp hcomponents
      have hlt := hdigits.lt
      refine ⟨_, hdigits, ?_⟩
      rw [duplicate_eq (hlt r (by simp)), duplicate_eq (hlt g (by simp)),
        duplicate_eq (hlt b (by simp))]
      rfl
    · intro h
      obtain ⟨digits, hdigits, hcolor⟩ := h
      have hlt := hdigits.lt
      match digits, hdigits.utf8Len.symm.trans hthree, hdigits, hcolor, hlt with
      | [r, g, b], _, hdigits, hcolor, hlt =>
        cases hcolor
        refine ⟨r, g, b, components_one.mpr hdigits, ?_⟩
        rw [duplicate_eq (hlt r (by simp)), duplicate_eq (hlt g (by simp)),
          duplicate_eq (hlt b (by simp))]
        rfl
  | inr hfour =>
    rw [fromHex_four (fun r g b a =>
      fromBytes (duplicate r) (duplicate g) (duplicate b) (duplicate a)) hfour]
    constructor
    · intro h
      obtain ⟨r, g, b, a, hcomponents, rfl⟩ := h
      have hdigits : Digits hex [r, g, b, a] := components_one.mp hcomponents
      have hlt := hdigits.lt
      refine ⟨_, hdigits, ?_⟩
      rw [duplicate_eq (hlt r (by simp)), duplicate_eq (hlt g (by simp)),
        duplicate_eq (hlt b (by simp)), duplicate_eq (hlt a (by simp))]
      rfl
    · intro h
      obtain ⟨digits, hdigits, hcolor⟩ := h
      have hlt := hdigits.lt
      match digits, hdigits.utf8Len.symm.trans hfour, hdigits, hcolor, hlt with
      | [r, g, b, a], _, hdigits, hcolor, hlt =>
        cases hcolor
        refine ⟨r, g, b, a, components_one.mpr hdigits, ?_⟩
        rw [duplicate_eq (hlt r (by simp)), duplicate_eq (hlt g (by simp)),
          duplicate_eq (hlt b (by simp)), duplicate_eq (hlt a (by simp))]

/-- Three or four pairs of characters are read. -/
theorem fromHex_two_digits
    (hlen : utf8Len hex = 6 ∨ utf8Len hex = 8) :
    fromHex hex = .ok color ↔
      ∃ values, ReadsPairs hex values ∧
        ((∃ r g b, values = [r, g, b] ∧ fromBytes r g b 255 = color) ∨
          ∃ r g b a, values = [r, g, b, a] ∧ fromBytes r g b a = color) := by
  unfold fromHex
  rw [if_neg (by omega), if_pos hlen]
  cases hlen with
  | inl hsix =>
    rw [fromHex_three fromBytes (by omega) hsix]
    simp only [components_two]
    constructor
    · intro h
      obtain ⟨r, g, b, hreads, hcolor⟩ := h
      exact ⟨_, hreads, .inl ⟨r, g, b, rfl, hcolor⟩⟩
    · intro h
      obtain ⟨values, hreads, ⟨r, g, b, rfl, hcolor⟩ | ⟨r, g, b, a, rfl, _⟩⟩ := h
      · exact ⟨r, g, b, hreads, hcolor⟩
      · have height := hreads.utf8Len
        rw [hsix] at height
        cases height
  | inr height =>
    rw [fromHex_four fromBytes height]
    simp only [components_two]
    constructor
    · intro h
      obtain ⟨r, g, b, a, hreads, hcolor⟩ := h
      exact ⟨_, hreads, .inr ⟨r, g, b, a, rfl, hcolor⟩⟩
    · intro h
      obtain ⟨values, hreads, ⟨r, g, b, rfl, _⟩ | ⟨r, g, b, a, rfl, hcolor⟩⟩ := h
      · have hsix := hreads.utf8Len
        rw [height] at hsix
        cases hsix
      · exact ⟨r, g, b, a, hreads, hcolor⟩

/-- Without plus signs, components of two digits are read as the grammar says. -/
theorem fromHex_digits
    (hlen : utf8Len hex = 6 ∨ utf8Len hex = 8) (hplus : '+' ∉ hex) :
    fromHex hex = .ok color ↔ ∃ digits, Digits hex digits ∧ digitsColor digits = some color := by
  rw [fromHex_two_digits hlen]
  constructor
  · intro h
    obtain ⟨values, hreads, hcolor⟩ := h
    obtain ⟨digits, hdigits, hpair⟩ := (readsPairs_iff hplus).mp hreads
    rw [hdigits.utf8Len] at hlen
    refine ⟨digits, hdigits, ?_⟩
    match digits, hlen, hpair with
    | [_, _, _, _, _, _], _, hpair =>
      cases hpair
      obtain ⟨r, g, b, hvalues, rfl⟩ | ⟨r, g, b, a, hvalues, _⟩ := hcolor
      · cases hvalues
        rfl
      · cases hvalues
    | [_, _, _, _, _, _, _, _], _, hpair =>
      cases hpair
      obtain ⟨r, g, b, hvalues, _⟩ | ⟨r, g, b, a, hvalues, rfl⟩ := hcolor
      · cases hvalues
      · cases hvalues
        rfl
  · intro h
    obtain ⟨digits, hdigits, hcolor⟩ := h
    rw [hdigits.utf8Len] at hlen
    match digits, hlen, hdigits, hcolor with
    | [_, _, _, _, _, _], _, hdigits, hcolor =>
      cases hcolor
      exact ⟨_, (readsPairs_iff hplus).mpr ⟨_, hdigits, rfl⟩, .inl ⟨_, _, _, rfl, rfl⟩⟩
    | [_, _, _, _, _, _, _, _], _, hdigits, hcolor =>
      cases hcolor
      exact ⟨_, (readsPairs_iff hplus).mpr ⟨_, hdigits, rfl⟩, .inr ⟨_, _, _, _, rfl, rfl⟩⟩

/-- What stands after the number sign is read as the grammar says, except with plus signs. -/
theorem fromHex_iff
    (hsigned : (hex.length = 6 ∨ hex.length = 8) → '+' ∈ hex →
      ¬ ∀ i c, hex[i]? = some c → SignedAt i c) :
    fromHex hex = .ok color ↔ ∃ digits, Digits hex digits ∧ digitsColor digits = some color := by
  by_cases hone : utf8Len hex = 3 ∨ utf8Len hex = 4
  · exact fromHex_one_digit hone
  by_cases htwo : utf8Len hex = 6 ∨ utf8Len hex = 8
  · by_cases hplus : '+' ∈ hex
    · -- a plus sign in a place where it is not read
      constructor
      · intro h
        obtain ⟨values, hreads, _⟩ := (fromHex_two_digits htwo).mp h
        have hplaces := readsPairs_signed hreads
        rw [utf8Len_eq_length hplaces] at htwo
        exact absurd hplaces (hsigned htwo hplus)
      · intro h
        obtain ⟨digits, hdigits, _⟩ := h
        exact absurd hplus hdigits.not_signed
    · exact fromHex_digits htwo hplus
  · unfold fromHex
    rw [if_neg hone, if_neg htwo]
    constructor
    · intro h
      cases h
    · intro h
      obtain ⟨digits, hdigits, hcolor⟩ := h
      rw [hdigits.utf8Len] at hone htwo
      unfold digitsColor at hcolor
      split at hcolor
      · exact absurd (.inl rfl) hone
      · exact absurd (.inr rfl) hone
      · exact absurd (.inl rfl) htwo
      · exact absurd (.inr rfl) htwo
      · cases hcolor

/-- With a plus sign in place of a first digit, some colour is read. -/
theorem fromHex_signed (hlen : hex.length = 6 ∨ hex.length = 8)
    (hplaces : ∀ i c, hex[i]? = some c → SignedAt i c) :
    ∃ color : Rgba X, fromHex hex = .ok color := by
  have hbytes := utf8Len_eq_length hplaces
  rw [← hbytes] at hlen
  cases hlen with
  | inl hsix =>
    obtain ⟨values, hvalues, hreads⟩ := exists_readsPairs 3 (hbytes ▸ hsix) hplaces
    match values, hvalues, hreads with
    | [r, g, b], _, hreads =>
      exact ⟨_, (fromHex_two_digits (.inl hsix)).mpr ⟨_, hreads, .inl ⟨r, g, b, rfl, rfl⟩⟩⟩
  | inr height =>
    obtain ⟨values, hvalues, hreads⟩ := exists_readsPairs 4 (hbytes ▸ height) hplaces
    match values, hvalues, hreads with
    | [r, g, b, a], _, hreads =>
      exact ⟨_, (fromHex_two_digits (.inr height)).mpr ⟨_, hreads, .inr ⟨r, g, b, a, rfl, rfl⟩⟩⟩

theorem denotes_iff :
    Denotes value color ↔ ∃ hex, trim value = '#' :: hex ∧
      ∃ digits, Digits hex digits ∧ digitsColor digits = some color := by
  constructor
  · intro h
    obtain ⟨hex, digits, htrim, hdigits, hcolor⟩ := h
    exact ⟨hex, htrim, digits, hdigits, hcolor⟩
  · intro h
    obtain ⟨hex, htrim, digits, hdigits, hcolor⟩ := h
    exact ⟨hex, digits, htrim, hdigits, hcolor⟩

/-- A string is read as the colour that the grammar says, and as no colour if the grammar has
    none, iff it is not one with plus signs that are read. -/
theorem tryFrom_iff (value : List Char) :
    (∀ color : Rgba X, tryFrom value = .ok color ↔ Denotes value color) ↔ ¬ Signed value := by
  constructor
  · intro h hsigned
    obtain ⟨hex, htrim, hlen, hplus, hplaces⟩ := hsigned
    obtain ⟨color, hcolor⟩ := fromHex_signed (X := X) hlen hplaces
    obtain ⟨hex', htrim', digits, hdigits, _⟩ :=
      denotes_iff.mp ((h color).mp (tryFrom_eq_ok.mpr ⟨hex, htrim, hcolor⟩))
    rw [htrim] at htrim'
    cases htrim'
    exact hdigits.not_signed hplus
  · intro hsigned color
    rw [tryFrom_eq_ok, denotes_iff]
    have hread : ∀ hex, trim value = '#' :: hex →
        (fromHex hex = .ok color ↔
          ∃ digits, Digits hex digits ∧ digitsColor digits = some color) := by
      intro hex htrim
      apply fromHex_iff
      intro hlen hplus hplaces
      exact hsigned ⟨hex, htrim, hlen, hplus, hplaces⟩
    constructor
    · intro h
      obtain ⟨hex, htrim, hcolor⟩ := h
      exact ⟨hex, htrim, (hread hex htrim).mp hcolor⟩
    · intro h
      obtain ⟨hex, htrim, hdigits⟩ := h
      exact ⟨hex, htrim, (hread hex htrim).mpr hdigits⟩

/-- Plus signs before three digits are read as a colour. -/
theorem signed_read :
    ¬ ∀ color : Rgba ℚ, tryFrom "#+f+f+f".toList = .ok color ↔ Denotes "#+f+f+f".toList color := by
  intro h
  have hread : tryFrom "#+f+f+f".toList = .ok (fromBytes 15 15 15 255 : Rgba ℚ) := by
    rfl
  obtain ⟨hex, digits, htrim, hdigits, _⟩ := (h _).mp hread
  have hhex : hex = "+f+f+f".toList := by
    have htext : trim "#+f+f+f".toList = "#+f+f+f".toList := by decide
    rw [htext] at htrim
    cases htrim
    rfl
  rw [hhex] at hdigits
  cases digits with
  | nil => cases hdigits
  | cons digit rest => cases (List.cons.inj hdigits).1

end ColorStrings

end Gpui
