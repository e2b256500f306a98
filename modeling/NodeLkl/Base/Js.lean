import Mathlib.Data.Int.Log
import Mathlib.Data.Rat.Floor
import Mathlib.Tactic.Common

/-!
# JavaScript values

The values a native function may receive, as far as their conversion to
integers goes: numbers are doubles (`JsNumber`), strings are converted by the
numeric literal they spell (`stringToNumber`), and objects through the
primitive their `valueOf` and `toString` methods give, which for an `Error` is
its name and message (`errorToString`).

* `JsValue.integerValue` is the conversion to a 64-bit integer: towards zero,
  `NaN` (and a conversion that throws) giving `0`, the rest clamped.
* `JsValue.uint32Value` is the conversion to a 32-bit unsigned integer: towards
  zero, modulo `2 ^ 32`.

A string that does not start like a number is not one
(`stringToNumber_eq_nan`), so an `Error` with the usual name converts to `NaN`,
whatever its message (`integerValue_error`).
-/

namespace NodeLkl

/-! ## Numbers -/

/-- A number: `NaN`, an infinity, or a finite double. -/
inductive JsNumber
  | nan
  | inf (neg : Bool)
  | fin (q : ℚ)
  deriving DecidableEq

/-- The integer nearest to `x`, the even one of two. -/
def roundHalfEven (x : ℚ) : ℤ :=
  if x - ⌊x⌋ < 1 / 2 then ⌊x⌋
  else if 1 / 2 < x - ⌊x⌋ then ⌊x⌋ + 1
  else if ⌊x⌋ % 2 = 0 then ⌊x⌋ else ⌊x⌋ + 1

/-- The integer part of `x`, towards zero. -/
def truncate (x : ℚ) : ℤ := if x < 0 then ⌈x⌉ else ⌊x⌋

namespace JsNumber

/-- The double nearest to `q`: 53 significant bits, of exponent at least
    `-1022`, an infinity from `2 ^ 1024` on. -/
def ofRat (q : ℚ) : JsNumber :=
  if q = 0 then .fin 0
  else
    let e := max (Int.log 2 |q|) (-1022) - 52
    let v : ℚ := roundHalfEven (|q| / 2 ^ e) * 2 ^ e
    if 2 ^ 1024 ≤ v then .inf (q < 0) else .fin (if q < 0 then -v else v)

/-- The opposite number. -/
def neg : JsNumber → JsNumber
  | nan => nan
  | inf b => inf !b
  | fin q => fin (-q)

/-- The sum of two numbers. -/
def add : JsNumber → JsNumber → JsNumber
  | fin p, fin q => ofRat (p + q)
  | inf a, inf b => if a = b then inf a else nan
  | inf a, fin _ | fin _, inf a => inf a
  | _, _ => nan

/-- The difference of two numbers. -/
def sub (x y : JsNumber) : JsNumber := x.add y.neg

/-- Whether a number is less than another one. -/
def lt : JsNumber → JsNumber → Bool
  | fin p, fin q => p < q
  | inf a, inf b => a && !b
  | inf a, fin _ => a
  | fin _, inf b => !b
  | _, _ => false

/-- The conversion to a 64-bit integer, clamped. -/
def toInt64 : JsNumber → ℤ
  | nan => 0
  | inf true => -2 ^ 63
  | inf false => 2 ^ 63 - 1
  | fin q => max (-2 ^ 63) (min (2 ^ 63 - 1) (truncate q))

/-- The conversion to a 32-bit unsigned integer, modulo `2 ^ 32`. -/
def toUint32 : JsNumber → BitVec 32
  | fin q => BitVec.ofInt 32 (truncate q)
  | _ => 0

end JsNumber

/-! ## Numeric literals -/

/-- White space and line terminators. -/
def isStrWhiteSpace (c : Char) : Bool :=
  c.toNat ∈ [0x09, 0x0a, 0x0b, 0x0c, 0x0d, 0x20, 0xa0, 0x1680, 0x2028, 0x2029, 0x202f, 0x205f,
    0x3000, 0xfeff] || (0x2000 ≤ c.toNat && c.toNat ≤ 0x200a)

/-- A string without the white space at its end. -/
def trimEnd : List Char → List Char
  | [] => []
  | c :: cs => if trimEnd cs = [] && isStrWhiteSpace c then [] else c :: trimEnd cs

/-- The value of a digit in the base `radix`. -/
def digitOf (radix : ℕ) (c : Char) : Option ℕ :=
  let v := if c.isDigit then c.toNat - '0'.toNat
    else if c.isLower then c.toNat - 'a'.toNat + 10
    else if c.isUpper then c.toNat - 'A'.toNat + 10 else radix
  if v < radix then some v else none

/-- The digits a string starts with, and the rest of it. -/
def digits (radix : ℕ) : List Char → List ℕ × List Char
  | [] => ([], [])
  | c :: cs => match digitOf radix c with
    | some d => (d :: (digits radix cs).1, (digits radix cs).2)
    | none => ([], c :: cs)

/-- The number written with the given digits. -/
def ofDigits (radix : ℕ) (ds : List ℕ) : ℕ := ds.foldl (fun n d => n * radix + d) 0

/-- A string of digits in the base `radix`, and nothing else. -/
def nonDecimalLiteral (radix : ℕ) (cs : List Char) : JsNumber :=
  match digits radix cs with
  | (d :: ds, []) => .ofRat (ofDigits radix (d :: ds))
  | _ => .nan

/-- The exponent at the end of a decimal literal, if it is one. -/
def exponentPart : List Char → Option ℤ
  | [] => some 0
  | c :: cs =>
    if c = 'e' ∨ c = 'E' then
      let (neg, cs) := match cs with
        | '+' :: cs => (false, cs)
        | '-' :: cs => (true, cs)
        | cs => (false, cs)
      match digits 10 cs with
      | (d :: ds, []) => some (if neg then -ofDigits 10 (d :: ds) else ofDigits 10 (d :: ds))
      | _ => none
    else none

/-- A decimal literal without a sign: its integer part, its fraction (either
    may be missing) and its exponent. -/
def unsignedDecimalLiteral (cs : List Char) : JsNumber :=
  if cs = "Infinity".toList then .inf false
  else
    let (i, cs) := digits 10 cs
    let (f, cs) := match cs with
      | '.' :: cs => digits 10 cs
      | cs => ([], cs)
    match i ++ f, exponentPart cs with
    | d :: ds, some e => .ofRat (ofDigits 10 (d :: ds) * 10 ^ (e - f.length))
    | _, _ => .nan

/-- The number a string converts to: the one it spells, white space around it
    aside, or `NaN`. -/
def stringToNumber (s : List Char) : JsNumber :=
  match trimEnd (s.dropWhile isStrWhiteSpace) with
  | [] => .fin 0
  | '0' :: 'x' :: cs | '0' :: 'X' :: cs => nonDecimalLiteral 16 cs
  | '0' :: 'o' :: cs | '0' :: 'O' :: cs => nonDecimalLiteral 8 cs
  | '0' :: 'b' :: cs | '0' :: 'B' :: cs => nonDecimalLiteral 2 cs
  | '+' :: cs => unsignedDecimalLiteral cs
  | '-' :: cs => (unsignedDecimalLiteral cs).neg
  | cs => unsignedDecimalLiteral cs

/-- A string starting with a character that neither is white space nor starts
    a numeric literal does not convert. -/
theorem stringToNumber_eq_nan {c : Char} (cs : List Char) (hs : isStrWhiteSpace c = false)
    (hd : digitOf 10 c = none) (hc : c ∉ ['+', '-', '.', 'I', '0']) :
    stringToNumber (c :: cs) = .nan := by
  have ht : trimEnd ((c :: cs).dropWhile isStrWhiteSpace) = c :: trimEnd cs := by
    simp [hs, trimEnd]
  simp only [List.mem_cons, List.not_mem_nil, or_false, not_or] at hc
  obtain ⟨hp, hm, hdot, hI, h0⟩ := hc
  have hu : unsignedDecimalLiteral (c :: trimEnd cs) = .nan := by
    have hne : c :: trimEnd cs ≠ "Infinity".toList := by
      intro h
      exact hI (List.head_eq_of_cons_eq h)
    rw [unsignedDecimalLiteral, if_neg hne]
    simp only [digits, hd]
    split <;> simp_all
  rw [stringToNumber, ht]
  split <;> simp_all

/-! ## Values -/

/-- The contents of a buffer. -/
abbrev Bytes := List UInt8

/-- A primitive value. -/
inductive Prim
  | undefined
  | null
  | bool (b : Bool)
  | number (n : JsNumber)
  | string (s : List Char)
  | symbol
  deriving DecidableEq

/-- A value: a primitive, an `Error`, or another object, given by the primitive
    it converts to (`none` if converting it throws). -/
inductive JsValue
  | prim (p : Prim)
  | error (name message : List Char)
  | object (p : Option Prim)
  deriving DecidableEq

/-- The number a primitive converts to (`none`: the conversion throws). -/
def Prim.toNumber : Prim → Option JsNumber
  | undefined => some .nan
  | null => some (.fin 0)
  | bool b => some (.fin (if b then 1 else 0))
  | number n => some n
  | string s => some (stringToNumber s)
  | symbol => none

/-- What the `toString` method of an `Error` returns. -/
def errorToString (name message : List Char) : List Char :=
  if name = [] then message
  else if message = [] then name
  else name ++ ": ".toList ++ message

namespace JsValue

/-- The value `undefined`. -/
abbrev undefined : JsValue := prim .undefined

/-- The value `null`. -/
abbrev null : JsValue := prim .null

/-- The number a value converts to (`none`: the conversion throws). -/
def toNumber : JsValue → Option JsNumber
  | prim p => p.toNumber
  | error name message => some (stringToNumber (errorToString name message))
  | object p => p.bind Prim.toNumber

/-- The conversion to a 64-bit integer, `0` if it throws. -/
def integerValue (v : JsValue) : ℤ := (v.toNumber.map JsNumber.toInt64).getD 0

/-- The conversion to a 32-bit unsigned integer, `0` if it throws. -/
def uint32Value (v : JsValue) : BitVec 32 := (v.toNumber.map JsNumber.toUint32).getD 0

/-- The values a condition takes for true: all but `undefined`, `null`, `false`,
    zero, `NaN` and the empty string. -/
def truthy : JsValue → Bool
  | prim .undefined | prim .null => false
  | prim (.bool b) => b
  | prim (.number n) => n ≠ .nan ∧ n ≠ .fin 0
  | prim (.string s) => s ≠ []
  | _ => true

/-- An `Error` with the usual name converts to `0`, whatever its message. -/
theorem integerValue_error (message : List Char) :
    (error "Error".toList message).integerValue = 0 := by
  have hs : ∀ cs, stringToNumber ('E' :: cs) = .nan := fun cs =>
    stringToNumber_eq_nan cs (by decide) (by decide) (by decide)
  have he : ∃ cs, errorToString "Error".toList message = 'E' :: cs := by
    by_cases hm : message = []
    · exact ⟨"rror".toList, by rw [hm]; decide⟩
    · exact ⟨"rror: ".toList ++ message, by
        rw [errorToString, if_neg (by decide), if_neg hm]; rfl⟩
  obtain ⟨cs, hcs⟩ := he
  rw [integerValue, toNumber, hcs, hs]
  rfl

end JsValue

end NodeLkl
