import Mathlib.Tactic

/-!
The part of Lua the scripts of `lua-scripts` use: values, truth, equality with a number,
`tonumber`, the comparison `>` and the concatenation `..`, the last two with the error they
raise on other operands.

A number value is an integer, as Redis replies them; the numbers in the JSON messages of
`heartbeat.lua` are in `Decoded`. `tonumber` reads a numeral as the rational number it denotes,
and `..` writes a number with 14 digits, as `%.14g` does. A table is its list of entries from
index `1` on; `nil` among them is an absent entry.
-/

namespace AllInDocker

/-- A Lua value; `null` is the `ngx.null` of OpenResty. -/
inductive LuaVal where
  | nil
  | null
  | bool (b : Bool)
  | num (n : ℤ)
  | str (s : String)
  | table (entries : List LuaVal)

/-- How a script can end before its last line: by `ngx.exit(status)` or by a Lua error. -/
inductive Stop where
  | exit (status : ℕ)
  | luaError
  deriving DecidableEq

namespace Numeral

/-! ### Numerals

The numerals `tonumber` reads in LuaJIT: white space around, an optional sign, and digits with a
point and an exponent, decimal ones or hexadecimal ones after `0x` (with the exponent of a power
of two), or binary digits after `0b`. The words `inf` and `nan` are left out: the scripts compare
what they read with integers only, and these are equal to none. -/

/-- White space as `isspace` has it. -/
def isSpace (c : Char) : Bool :=
  c == ' ' || c == '\t' || c == '\n' || c == '\r' || c == '\x0b' || c == '\x0c'

/-- The text without the white space around it. -/
def trim (cs : List Char) : List Char :=
  ((cs.dropWhile isSpace).reverse.dropWhile isSpace).reverse

/-- The value of a decimal or hexadecimal digit. -/
def digitVal (c : Char) : ℕ :=
  if c.isDigit then c.toNat - '0'.toNat
  else if 'a' ≤ c then c.toNat - 'a'.toNat + 10
  else c.toNat - 'A'.toNat + 10

/-- The number a row of digits denotes in the given base. -/
def ofDigits (base : ℕ) (cs : List Char) : ℕ := cs.foldl (fun n c => base * n + digitVal c) 0

/-- The digits `0` to `9` and `a` to `f` in either case. -/
def isHexDigit (c : Char) : Bool :=
  c.isDigit || ('a' ≤ c && c ≤ 'f') || ('A' ≤ c && c ≤ 'F')

/-- An optionally signed row of digits: the exponent of a numeral. -/
def exponent : List Char → Option ℤ
  | '-' :: cs => if cs ≠ [] ∧ cs.all Char.isDigit then some (-(ofDigits 10 cs : ℤ)) else none
  | '+' :: cs => if cs ≠ [] ∧ cs.all Char.isDigit then some (ofDigits 10 cs) else none
  | cs => if cs ≠ [] ∧ cs.all Char.isDigit then some (ofDigits 10 cs) else none

/-- The fraction digits after a point, and what follows them. -/
def fraction (digit : Char → Bool) : List Char → List Char × List Char
  | '.' :: cs => (cs.takeWhile digit, cs.dropWhile digit)
  | cs => ([], cs)

/-- A numeral in a base without sign, with the letter that begins its exponent and the number
the exponent is of. -/
def inBase (base : ℕ) (digit : Char → Bool) (letter : Char) (power : ℚ) (cs : List Char) :
    Option ℚ :=
  let whole := cs.takeWhile digit
  let (frac, rest) := fraction digit (cs.dropWhile digit)
  if whole = [] ∧ frac = [] then none
  else
    let mantissa : ℚ := (ofDigits base (whole ++ frac) : ℚ) / base ^ frac.length
    match rest with
    | [] => some mantissa
    | e :: exp =>
        if e.toLower = letter then (exponent exp).map fun k => mantissa * power ^ k else none

/-- Binary digits, at most 64 from the first `1` on. -/
def binary (cs : List Char) : Option ℚ :=
  if cs ≠ [] ∧ cs.all (fun c => c == '0' || c == '1') ∧ (cs.dropWhile (· == '0')).length ≤ 64 then
    some (ofDigits 2 cs)
  else none

/-- A numeral without sign. -/
def unsigned : List Char → Option ℚ
  | '0' :: x :: cs =>
      if x.toLower = 'x' then inBase 16 isHexDigit 'p' 2 cs
      else if x.toLower = 'b' then binary cs
      else inBase 10 Char.isDigit 'e' 10 ('0' :: x :: cs)
  | cs => inBase 10 Char.isDigit 'e' 10 cs

/-- The number a string denotes for `tonumber`. -/
def parse (s : String) : Option ℚ :=
  match trim s.toList with
  | '-' :: cs => (unsigned cs).map fun q => -q
  | '+' :: cs => unsigned cs
  | cs => unsigned cs

/-! ### Numbers as text -/

/-- `m / p`, rounded to the nearest number and to the even one of two. -/
def roundHalfEven (m p : ℕ) : ℕ :=
  if 2 * (m % p) < p ∨ 2 * (m % p) = p ∧ m / p % 2 = 0 then m / p else m / p + 1

/-- Fourteen digits with a point after the first, without the zeros at the end. -/
def pointed (digits : List Char) : List Char :=
  match digits.take 1, (digits.drop 1).reverse.dropWhile (· == '0') with
  | d, [] => d
  | d, frac => d ++ '.' :: frac.reverse

/-- A number of at least fifteen digits: rounded to fourteen, with its exponent. -/
def scientific (m : ℕ) : List Char :=
  let e := m.repr.length - 1
  let q := roundHalfEven m (10 ^ (e - 13))
  -- rounding up may need a digit more
  let e' := if q = 10 ^ 14 then e + 1 else e
  pointed q.repr.toList ++ 'e' :: '+' :: e'.repr.toList

/-- The text of an integer, as `%.14g` writes it. -/
def toText (n : ℤ) : String :=
  let digits := if n.natAbs < 10 ^ 14 then n.natAbs.repr.toList else scientific n.natAbs
  String.ofList (if n < 0 then '-' :: digits else digits)

example : toText (-12) = "-12" ∧ toText 353918051234561 = "3.5391805123456e+14" ∧
    toText 999999999999999 = "1e+15" := by decide +kernel

end Numeral

namespace LuaVal

/-- `not v`: only `nil` and `false` are false. -/
def isFalse : LuaVal → Bool
  | nil => true
  | bool b => !b
  | _ => false

/-- `tonumber(v)`: `nil` for everything that is neither a number nor a numeral. -/
def tonumber : LuaVal → Option ℚ
  | num n => some n
  | str s => Numeral.parse s
  | _ => none

/-- `v == n` for a number `n`. -/
def eqNum (v : LuaVal) (n : ℤ) : Bool :=
  match v with
  | num m => m == n
  | _ => false

/-- `v > n` for a number `n`; `none` is the error Lua raises when `v` is not a number. -/
def gtNum (v : LuaVal) (n : ℤ) : Option Bool :=
  match v with
  | num m => some (n < m)
  | _ => none

/-- `s..v`; `none` is the error Lua raises when `v` is neither a string nor a number. -/
def concat (s : String) : LuaVal → Option String
  | str t => some (s ++ t)
  | num n => some (s ++ Numeral.toText n)
  | _ => none

@[simp] lemma tonumber_nil : tonumber nil = none := rfl

/-- A table is not a number to `tonumber`, not even an empty one. -/
@[simp] lemma tonumber_table (es : List LuaVal) : tonumber (table es) = none := rfl

/-- The text `1` under a block key reads as the number `1`. -/
@[simp] lemma tonumber_one : tonumber (str (toString (1 : ℤ))) = some 1 := by decide +kernel

@[simp] lemma eqNum_num (m n : ℤ) : eqNum (num m) n = (m == n) := rfl

@[simp] lemma gtNum_num (m n : ℤ) : gtNum (num m) n = some (decide (n < m)) := rfl

@[simp] lemma gtNum_nil (n : ℤ) : gtNum nil n = none := rfl

@[simp] lemma gtNum_table (es : List LuaVal) (n : ℤ) : gtNum (table es) n = none := rfl

example : tonumber (str " 0x.8p1 ") = some 1 ∧ tonumber (str "10e-1") = some 1 ∧
    tonumber (str "0b01") = some 1 ∧ tonumber (str "1 1") = none := by decide +kernel

end LuaVal

end AllInDocker
