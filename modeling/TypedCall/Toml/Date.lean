import TypedCall.Decimal.Reading
/-!
# Dates and times

A date, a time, or both, with an offset when it has a date. `dateText?` reads one and writes it
in its canonical form: `T` between date and time, `Z` for the zero offset, and no zeros at the end
of a fraction of a second, of which nine digits count.
-/

namespace TypedCall.Toml

/-- Two digits and the number they write. -/
def twoDigits? : List Char → Option (Nat × List Char)
  | a :: b :: rest =>
    if a.isDigit && b.isDigit then some (digitsNat [a, b], rest) else none
  | _ => none

/-- A number in at least two digits. -/
def padded (n : Nat) : List Char := if n < 10 then '0' :: Nat.toDigits 10 n else Nat.toDigits 10 n

/-- Read `YYYY-MM-DD`; the day may be any up to 31. -/
def readDate? (cs : List Char) : Option (List Char × List Char) := do
  let (century, cs) ← twoDigits? cs
  let (year, cs) ← twoDigits? cs
  match cs with
  | '-' :: cs => do
    let (month, cs) ← twoDigits? cs
    match cs with
    | '-' :: cs => do
      let (day, cs) ← twoDigits? cs
      if month < 1 ∨ 12 < month ∨ day < 1 ∨ 31 < day then none
      else some (padded century ++ padded year ++ '-' :: padded month ++ '-' :: padded day, cs)
    | _ => none
  | _ => none

/-- The canonical fraction: nine digits without the zeros at their end. -/
def fractionText (digits : List Char) : List Char :=
  let kept := ((digits.take 9).reverse.dropWhile (· == '0')).reverse
  if kept.isEmpty then [] else '.' :: kept

/-- Read `HH:MM:SS` with a fraction. -/
def readTime? (cs : List Char) : Option (List Char × List Char) := do
  let (hour, cs) ← twoDigits? cs
  match cs with
  | ':' :: cs => do
    let (minute, cs) ← twoDigits? cs
    match cs with
    | ':' :: cs => do
      let (second, cs) ← twoDigits? cs
      if 24 < hour ∨ 59 < minute ∨ 59 < second then none
      else
        let text := padded hour ++ ':' :: padded minute ++ ':' :: padded second
        match cs with
        | '.' :: rest =>
          let digits := rest.takeWhile Char.isDigit
          if digits.isEmpty then none
          else some (text ++ fractionText digits, rest.dropWhile Char.isDigit)
        | _ => some (text, cs)
    | _ => none
  | _ => none

/-- Read an offset up to the end. -/
def readOffset? : List Char → Option (List Char)
  | [] => some []
  | ['Z'] | ['z'] => some ['Z']
  | sign :: cs =>
    if sign ≠ '+' ∧ sign ≠ '-' then none
    else do
      let (hours, cs) ← twoDigits? cs
      match cs with
      | ':' :: cs => do
        let (minutes, cs) ← twoDigits? cs
        if cs.isEmpty then
          some ((if hours = 0 then '+' else sign) :: padded hours ++ ':' :: padded minutes)
        else none
      | _ => none

/-- The canonical text of a date, a time or both. -/
def dateText? (cs : List Char) : Option (List Char) :=
  if cs[2]? = some ':' then do
    let (time, rest) ← readTime? cs
    if rest.isEmpty then some time else none
  else do
    let (date, rest) ← readDate? cs
    match rest with
    | c :: more =>
      if c = 'T' ∨ c = 't' ∨ c = ' ' then do
        let (time, rest) ← readTime? more
        return date ++ 'T' :: time ++ (← readOffset? rest)
      else return date ++ (← readOffset? rest)
    | [] => some date

end TypedCall.Toml
