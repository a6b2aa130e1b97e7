import E6irc.Base.Bytes

/-!
# Server time

`parse_server_time_millis` and `server_time` of `e6irc-proto/src/time.rs`: a `time`
tag's text as milliseconds since 1970, and back.
-/

namespace E6irc.Time

open Base

def daysInMonth (year month : ℕ) : ℕ :=
  match month with
  | 1 | 3 | 5 | 7 | 8 | 10 | 12 => 31
  | 4 | 6 | 9 | 11 => 30
  | 2 => if (year % 4 = 0 ∧ year % 100 ≠ 0) ∨ year % 400 = 0 then 29 else 28
  | _ => 0

/-- A field of exactly `width` digits. -/
def parseTimeField (text : Bytes) (width : ℕ) : Option ℕ :=
  if text.length = width ∧ text.all isAsciiDigit then
    some (text.foldl (fun n b => n * 10 + (b.toNat - 48)) 0)
  else none

/-- Days from 1970-01-01 on; January and February count to the year before. -/
def daysFromCivil (year month day : ℕ) : ℤ :=
  let y : ℤ := if month ≤ 2 then year - 1 else year
  let era := (if 0 ≤ y then y else y - 399).tdiv 400
  let yoe := y - era * 400
  let mp : ℤ := if 2 < month then month - 3 else month + 9
  let doy := (153 * mp + 2) / 5 + day - 1
  let doe := yoe * 365 + yoe / 4 - yoe / 100 + doy
  era * 146097 + doe - 719468

def parseDate (date : Bytes) : Option ℤ :=
  match date.splitOn (byte '-') with
  | [year, month, day] => do
    let year ← parseTimeField year 4
    let month ← parseTimeField month 2
    let day ← parseTimeField day 2
    guard (1 ≤ month ∧ month ≤ 12 ∧ 1 ≤ day ∧ day ≤ daysInMonth year month)
    some (daysFromCivil year month day)
  | _ => none

def parseClock (hms : Bytes) : Option ℕ :=
  match hms.splitOn (byte ':') with
  | [hh, mm, ss] => do
    let hh ← parseTimeField hh 2
    let mm ← parseTimeField mm 2
    let ss ← parseTimeField ss 2
    guard (hh ≤ 23 ∧ mm ≤ 59 ∧ ss ≤ 59)
    some (hh * 3600 + mm * 60 + ss)
  | _ => none

/-- A fraction of one to three digits, in milliseconds. -/
def parseFraction (frac : Bytes) : Option ℕ := do
  guard (1 ≤ frac.length ∧ frac.length ≤ 3)
  let digits ← parseTimeField frac frac.length
  some (digits * 10 ^ (3 - frac.length))

/-- `YYYY-MM-DDThh:mm:ss[.f]Z`, none of it before 1970. -/
def parseServerTimeMillis (text : Bytes) : Option ℕ := do
  guard (text.getLast? = some (byte 'Z'))
  let (date, time) ← splitOnce (byte 'T') text.dropLast
  let days ← parseDate date
  let (hms, frac) := match splitOnce (byte '.') time with
    | some (hms, frac) => (hms, some frac)
    | none => (time, none)
  let clock ← parseClock hms
  let millis ← match frac with
    | none => some 0
    | some frac => parseFraction frac
  let secs := days * 86400 + clock
  guard (0 ≤ secs)
  some (secs.toNat * 1000 + millis)

/-- Year, month and day, `days` after 1970-01-01. -/
def civilFromDays (days : ℕ) : ℕ × ℕ × ℕ :=
  let z := days + 719468
  let era := z / 146097
  let doe := z - era * 146097
  let yoe := (doe - doe / 1460 + doe / 36524 - doe / 146096) / 365
  let y := yoe + era * 400
  let doy := doe - (365 * yoe + yoe / 4 - yoe / 100)
  let mp := (5 * doy + 2) / 153
  let d := doy - (153 * mp + 2) / 5 + 1
  let m := if mp < 10 then mp + 3 else mp - 9
  (if m ≤ 2 then y + 1 else y, m, d)

/-- A number in at least `width` digits. -/
def padded (width n : ℕ) : Bytes :=
  List.replicate (width - (decimal n).length) (byte '0') ++ decimal n

def serverTime (epochMillis : ℕ) : Bytes :=
  let (secs, millis) := (epochMillis / 1000, epochMillis % 1000)
  let s := secs % 86400
  let (year, month, day) := civilFromDays (secs / 86400)
  padded 4 year ++ ascii "-" ++ padded 2 month ++ ascii "-" ++ padded 2 day ++ ascii "T" ++
    padded 2 (s / 3600) ++ ascii ":" ++ padded 2 (s % 3600 / 60) ++ ascii ":" ++ padded 2 (s % 60) ++
    ascii "." ++ padded 3 millis ++ ascii "Z"

example : parseServerTimeMillis (ascii "2000-02-29T12:00:00.5Z") = some 951825600500 := by
  decide +kernel

example : serverTime 951825600500 = ascii "2000-02-29T12:00:00.500Z" := by decide +kernel

end E6irc.Time
