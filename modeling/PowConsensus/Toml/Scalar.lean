import PowConsensus.Power
import PowConsensus.Toml.Text

/-! # Numbers, dates and times of TOML

Values of these kinds are checked and skipped, which gives the characters after them: integers must
fit in 64 bits, floats must not round to positive infinity, and dates must exist.
-/
namespace PowConsensus.Toml

/-- A run of digits in which single underscores may stand between two of them; without these. -/
def digitRun (isDigit : Char → Bool) : List Char → List Char × List Char
  | '_' :: c :: rest =>
    if isDigit c then
      let (digits, rest) := digitRun isDigit rest
      (c :: digits, rest)
    else ([], '_' :: c :: rest)
  | c :: rest =>
    if isDigit c then
      let (digits, rest) := digitRun isDigit rest
      (c :: digits, rest)
    else ([], c :: rest)
  | [] => ([], [])

/-- At least one digit, not led by an underscore. -/
def digits? (isDigit : Char → Bool) : List Char → Option (List Char × List Char)
  | c :: rest =>
    if isDigit c then
      let (digits, rest) := digitRun isDigit rest
      some (c :: digits, rest)
    else none
  | [] => none

def readSign : List Char → Bool × List Char
  | '+' :: rest => (false, rest)
  | '-' :: rest => (true, rest)
  | cs => (false, cs)

/-- Decimal digits without a leading zero. -/
def whole? : List Char → Option (List Char × List Char)
  | '0' :: rest => some (['0'], rest)
  | cs => digits? Char.isDigit cs

def skipInBase (base : Nat) (limit : Nat) (cs : List Char) : Option (List Char) := do
  let (digits, rest) ← digits? (fun c => (digitBelow? base c).isSome) cs
  if (← number? base digits) < limit then some rest else none

def skipInteger : List Char → Option (List Char)
  | '0' :: 'x' :: rest => skipInBase 16 (2 ^ 63) rest
  | '0' :: 'o' :: rest => skipInBase 8 (2 ^ 63) rest
  | '0' :: 'b' :: rest => skipInBase 2 (2 ^ 63) rest
  | cs => do
    let (negative, cs) := readSign cs
    let (digits, rest) ← whole? cs
    let n ← number? 10 digits
    if n < 2 ^ 63 + (if negative then 1 else 0) then some rest else none

/-- Whether a decimal `digits * 10 ^ exponent` rounds to infinity among binary doubles. -/
def roundsToInfinity (digits : Nat) (exponent : Int) : Bool :=
  let scale := (Nat.toDigits 10 digits).length + exponent
  if digits = 0 ∨ scale < 300 then false
  else if 320 < scale then true
  else
    let bound := 2 ^ 1024 - 2 ^ 970
    if 0 ≤ exponent then bound ≤ digits * 10 ^ exponent.toNat
    else bound * 10 ^ (-exponent).toNat ≤ digits

def readFraction : List Char → Option (List Char × List Char)
  | '.' :: rest => digits? Char.isDigit rest
  | _ => none

def readExponent : List Char → Option (Int × List Char)
  | c :: rest =>
    if c = 'e' ∨ c = 'E' then do
      let (negative, rest) := readSign rest
      let (digits, rest) ← digits? Char.isDigit rest
      let n ← number? 10 digits
      some (if negative then -(n : Int) else n, rest)
    else none
  | [] => none

def skipSpecialFloat : List Char → Option (List Char)
  | 'i' :: 'n' :: 'f' :: rest => some rest
  | 'n' :: 'a' :: 'n' :: rest => some rest
  | _ => none

/-- A fraction, an exponent or both must stand after the whole part. -/
def skipFloat (cs : List Char) : Option (List Char) := do
  let (negative, cs) := readSign cs
  match skipSpecialFloat cs with
  | some r => some r
  | none =>
    let (whole, cs) ← whole? cs
    let fraction := readFraction cs
    let cs := (fraction.map (·.2)).getD cs
    let exponent := readExponent cs
    if fraction.isNone ∧ exponent.isNone then none
    else
      let places := (fraction.map (·.1)).getD []
      let n ← number? 10 (whole ++ places)
      let power := (exponent.map (·.1)).getD 0 - places.length
      if !negative && roundsToInfinity n power then none
      else some ((exponent.map (·.2)).getD cs)

/-! ## Dates and times -/

/-- Exactly `count` digits whose value lies in a range. -/
def fixed? (count low high : Nat) (cs : List Char) : Option (Nat × List Char) := do
  let digits := cs.take count
  if digits.length = count ∧ digits.all Char.isDigit then
    let n ← number? 10 digits
    if low ≤ n ∧ n ≤ high then some (n, cs.drop count) else none
  else none

def mark? (c : Char) : List Char → Option (List Char)
  | d :: rest => if c = d then some rest else none
  | [] => none

def isLeap (year : Nat) : Bool := year % 4 = 0 ∧ (year % 100 ≠ 0 ∨ year % 400 = 0)

def daysIn (year month : Nat) : Nat :=
  if month = 2 then if isLeap year then 29 else 28
  else if month = 4 ∨ month = 6 ∨ month = 9 ∨ month = 11 then 30
  else 31

def skipDate (cs : List Char) : Option (List Char) := do
  let (year, cs) ← fixed? 4 0 9999 cs
  let cs ← mark? '-' cs
  let (month, cs) ← fixed? 2 1 12 cs
  let cs ← mark? '-' cs
  let (_, cs) ← fixed? 2 1 (daysIn year month) cs
  some cs

def skipSecondFraction (cs : List Char) : List Char :=
  match cs with
  | '.' :: c :: rest => if c.isDigit then rest.dropWhile Char.isDigit else cs
  | _ => cs

def skipTime (cs : List Char) : Option (List Char) := do
  let (_, cs) ← fixed? 2 0 23 cs
  let cs ← mark? ':' cs
  let (_, cs) ← fixed? 2 0 59 cs
  let cs ← mark? ':' cs
  let (_, cs) ← fixed? 2 0 60 cs
  some (skipSecondFraction cs)

/-- Hours and minutes from the prime meridian, or nothing. -/
def skipOffset (cs : List Char) : List Char :=
  match cs with
  | 'Z' :: rest => rest
  | 'z' :: rest => rest
  | c :: rest =>
    if c = '+' ∨ c = '-' then
      (do
        let (_, rest) ← fixed? 2 0 23 rest
        let rest ← mark? ':' rest
        let (_, rest) ← fixed? 2 0 59 rest
        some rest : Option (List Char)).getD cs
    else cs
  | [] => []

/-- A date, with a time and an offset if they follow. -/
def skipDateTime (cs : List Char) : Option (List Char) := do
  let cs ← skipDate cs
  match cs with
  | c :: rest =>
    if c = 'T' ∨ c = 't' ∨ c = ' ' then
      match skipTime rest with
      | some rest => some (skipOffset rest)
      | none => some cs
    else some cs
  | [] => some []

def skipBool : List Char → Option (List Char)
  | 't' :: 'r' :: 'u' :: 'e' :: rest => some rest
  | 'f' :: 'a' :: 'l' :: 's' :: 'e' :: rest => some rest
  | _ => none

/-- The longer forms are tried first. -/
def skipScalar (cs : List Char) : Option (List Char) :=
  skipBool cs <|> skipDateTime cs <|> skipTime cs <|> skipFloat cs <|> skipInteger cs

end PowConsensus.Toml
