/-!
# Timestamps

A timestamp is a date, alone or with a time of day. Behind a `T` or `t` the time has a zone, behind
spaces it has none. Months, days, hours, minutes and seconds have one or two digits, and seconds may
have a fraction.
-/

namespace IntWasm.Text.Timestamp

/-- A number of one or two digits in front of a text. -/
def number? : List Char → Option (Nat × List Char)
  | [] => none
  | a :: rest =>
    if a.isDigit then
      match rest with
      | [] => some (a.toNat - '0'.toNat, [])
      | b :: after =>
        if b.isDigit then
          some ((a.toNat - '0'.toNat) * 10 + (b.toNat - '0'.toNat), after)
        else some (a.toNat - '0'.toNat, b :: after)
    else none

/-- What follows a character. -/
def after? (c : Char) : List Char → Option (List Char)
  | [] => none
  | d :: rest => if d = c then some rest else none

/-- What follows a number of one or two digits that is at most `highest`. -/
def afterNumber? (highest : Nat) (cs : List Char) : Option (List Char) := do
  let (n, rest) ← number? cs
  if highest < n then none else some rest

/-- The number of days of a month. -/
def daysIn (year month : Nat) : Nat :=
  if month = 2 then
    if year % 4 = 0 && (year % 100 ≠ 0 || year % 400 = 0) then 29 else 28
  else if month = 4 || month = 6 || month = 9 || month = 11 then 30
  else 31

/-- What follows a date. -/
def afterDate? (cs : List Char) : Option (List Char) := do
  let digits := cs.takeWhile Char.isDigit
  if digits.length ≠ 4 then none
  else
    let year := digits.foldl (fun n c => n * 10 + (c.toNat - '0'.toNat)) 0
    let rest ← after? '-' (cs.drop 4)
    let (month, rest) ← number? rest
    if month = 0 || 12 < month then none
    else
      let rest ← after? '-' rest
      let (day, rest) ← number? rest
      if day = 0 || daysIn year month < day then none else some rest

/-- What follows a fraction of a second, if there is one. -/
def afterFraction : List Char → List Char
  | mark :: d :: rest =>
    if (mark = '.' || mark = ',') && d.isDigit then rest.dropWhile Char.isDigit
    else mark :: d :: rest
  | cs => cs

/-- What follows a time of day. -/
def afterTime? (cs : List Char) : Option (List Char) := do
  let rest ← after? ':' (← afterNumber? 23 cs)
  let rest ← after? ':' (← afterNumber? 59 rest)
  return afterFraction (← afterNumber? 59 rest)

/-- Whether a text is a zone: `Z`, or a sign, hours and minutes. -/
def isZone : List Char → Bool
  | ['Z'] => true
  | [sign, a, b, ':', c, d] =>
    (sign = '+' || sign = '-') && [a, b, c, d].all Char.isDigit &&
      (number? [a, b]).any (fun (n, _) => n ≤ 24) && (number? [c, d]).any fun (n, _) => n ≤ 60
  | _ => false

/-- Whether a text is a timestamp. -/
def isTimestamp (cs : List Char) : Bool :=
  match afterDate? cs with
  | none => false
  | some [] => true
  | some (c :: rest) =>
    if c = 'T' || c = 't' then (afterTime? rest).any isZone
    else if c = ' ' then (afterTime? (rest.dropWhile (· = ' '))).any List.isEmpty
    else false

end IntWasm.Text.Timestamp
