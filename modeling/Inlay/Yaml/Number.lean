/-!
Plain text that stands for something other than itself: nothing, a truth value or a number.

Integers have at most 128 bits, in one of four bases; a decimal fraction counts if a double can
hold it. A number with a leading zero too many is no number, but is not left plain either.
-/

namespace Inlay.Yaml

def isNullWord (cs : List Char) : Bool :=
  ["~", "null", "Null", "NULL"].any fun w => w.toList == cs

def isTruthWord (cs : List Char) : Bool :=
  ["true", "True", "TRUE", "false", "False", "FALSE"].any fun w => w.toList == cs

def digit? (base : Nat) (c : Char) : Option Nat :=
  let n :=
    if '0' ≤ c ∧ c ≤ '9' then c.toNat - '0'.toNat
    else if 'a' ≤ c ∧ c ≤ 'f' then c.toNat - 'a'.toNat + 10
    else if 'A' ≤ c ∧ c ≤ 'F' then c.toNat - 'A'.toNat + 10
    else base
  if n < base then some n else none

/-- The number that digits denote, after the number `n` of the digits before. -/
def digits? (base n : Nat) : List Char → Option Nat
  | [] => some n
  | c :: cs => (digit? base c).bind fun d => digits? base (n * base + d) cs

def natural? (base : Nat) (cs : List Char) : Option Nat :=
  if cs = [] then none else digits? base 0 cs

def magnitude? : List Char → Option Nat
  | '0' :: 'x' :: cs => natural? 16 cs
  | '0' :: 'o' :: cs => natural? 8 cs
  | '0' :: 'b' :: cs => natural? 2 cs
  | cs => natural? 10 cs

/-- An integer of 128 bits. -/
def isInteger : List Char → Bool
  | '-' :: cs => (magnitude? cs).any fun n => decide (n ≤ Nat.pow 2 127)
  | '+' :: cs => (magnitude? cs).any fun n => decide (n < Nat.pow 2 128)
  | cs => (magnitude? cs).any fun n => decide (n < Nat.pow 2 128)

def dropSign : List Char → List Char
  | '-' :: cs => cs
  | '+' :: cs => cs
  | cs => cs

/-- Digits that start with a zero and go on. -/
def isZeroPadded (cs : List Char) : Bool :=
  match dropSign cs with
  | '0' :: c :: cs => (c :: cs).all Char.isDigit
  | _ => false

def exponent? : List Char → Option Int
  | [] => some 0
  | c :: cs =>
    if c = 'e' ∨ c = 'E' then
      match cs with
      | '-' :: cs => (natural? 10 cs).map fun n => -(n : Int)
      | '+' :: cs => (natural? 10 cs).map Int.ofNat
      | cs => (natural? 10 cs).map Int.ofNat
    else none

/-- Every decimal fraction below this number is rounded to a finite double. -/
def doubleLimit : Nat := Nat.pow 2 1024 - Nat.pow 2 970

/-- Does the number with these digits, times ten to the power `e`, have a finite double? The
number of digits decides unless it is that of the limit. -/
def hasDouble (digits : List Char) (e : Int) : Bool :=
  let ds := digits.dropWhile (· == '0')
  let width := (ds.length : Int) + e
  if ds = [] ∨ width < 309 then true
  else if 309 < width then false
  else
    (digits? 10 0 ds).any fun m =>
      if 0 ≤ e then decide (m * Nat.pow 10 e.toNat < doubleLimit)
      else decide (m < doubleLimit * Nat.pow 10 (-e).toNat)

def isFraction (cs : List Char) : Bool :=
  let whole := cs.takeWhile Char.isDigit
  let rest := cs.dropWhile Char.isDigit
  let (part, rest) :=
    match rest with
    | '.' :: rest => (rest.takeWhile Char.isDigit, rest.dropWhile Char.isDigit)
    | rest => ([], rest)
  let digits := whole ++ part
  !digits.isEmpty && (exponent? rest).any fun e => hasDouble digits (e - part.length)

def isInfinity (cs : List Char) : Bool :=
  [".inf", ".Inf", ".INF"].any fun w => w.toList == cs

def isNotANumber (cs : List Char) : Bool :=
  [".nan", ".NaN", ".NAN"].any fun w => w.toList == cs

def isFloat (cs : List Char) : Bool :=
  isNotANumber cs || isInfinity (dropSign cs) || isFraction (dropSign cs)

/-- Does the text, written plain, stand for something other than itself? -/
def isAmbiguous (cs : List Char) : Bool :=
  cs.isEmpty || isNullWord cs || isTruthWord cs || isInteger cs || isFloat cs || isZeroPadded cs

end Inlay.Yaml
