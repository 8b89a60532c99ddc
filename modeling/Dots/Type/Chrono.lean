import Dots.Lib.Decimal
import Dots.Text.Scan
import Mathlib.Data.List.Forall2
import Mathlib.Data.List.TakeWhile

/-!
# Durations as texts

* `Duration.toString`: an ISO text of a duration.
* `Duration.fromString`: the duration of a view, read from the memory that it points to.
* `Duration.meaning`: what an ISO text says.

Durations and seconds are rational numbers, and a decimal text stands for its exact value. A text
has the first six digits of the seconds only.
-/

set_option autoImplicit false

namespace Dots

/-! ## Numbers -/

/-- The class `[0-9\.]` of the regex. -/
def isNumberSymbol (b : UInt8) : Bool := (0x30 ≤ b && b ≤ 0x39) || b == 0x2E

/-- What `std::strtod` takes of a number without sign and exponent, and the rest. -/
def scanDecimal (text : List UInt8) : Option (ℚ × List UInt8) :=
  let whole := leadingDigits 10 text
  let rest := text.drop whole.length
  let fraction := if rest.head? = some 0x2E then leadingDigits 10 rest.tail else []
  if whole = [] ∧ fraction = [] then none
  else
    some (ofDigits 10 whole + fractionValue 10 fraction,
      if rest.head? = some 0x2E then rest.tail.drop fraction.length else rest)

/-- The value of a text that is a decimal number and nothing else. -/
def decimalValue (text : List UInt8) : Option ℚ :=
  (scanDecimal text).bind fun r => if r.2 = [] then some r.1 else none

/-- The text of a number that is not negative and has at most nine digits after the point. -/
def decimalText (x : ℚ) : List UInt8 :=
  let fraction := fractionDigits 10 9 (Int.fract x)
  toChars 10 ⌊x⌋ ++ if fraction = [] then [] else 0x2E :: fraction.map digitSymbol

/-- The digits of a `double` that `std::ostream` writes by default. -/
def streamPrecision : ℕ := 6

/-- `operator <<` of a positive number. It has an exponent if it is below `0.0001` or has more
digits before the point than are written. -/
def streamText (x : ℚ) : List UInt8 :=
  let rounded := roundSignificant 10 streamPrecision x
  let exponent := Int.log 10 rounded
  if -4 ≤ exponent ∧ exponent < streamPrecision then decimalText rounded
  else
    decimalText (rounded / 10 ^ exponent) ++ ascii "e" ++
      (if exponent < 0 then ascii "-" else ascii "+") ++
      (if exponent.natAbs < 10 then ascii "0" else []) ++ toChars 10 exponent.natAbs

namespace Duration

/-! ## Units -/

/-- The parts of a text, in their order. -/
inductive DurationUnit
  | years
  | months
  | weeks
  | days
  | hours
  | minutes
  | seconds
  deriving DecidableEq

namespace DurationUnit

/-- The seconds of a unit: `date::years`, ..., `std::chrono::minutes`. -/
def length : DurationUnit → ℚ
  | years => 31556952
  | months => 2629746
  | weeks => 604800
  | days => 86400
  | hours => 3600
  | minutes => 60
  | seconds => 1

/-- The symbol behind the number. -/
def designator : DurationUnit → UInt8
  | years => 0x59
  | months => 0x4D
  | weeks => 0x57
  | days => 0x44
  | hours => 0x48
  | minutes => 0x4D
  | seconds => 0x53

/-- The bits of the integer that counts a unit. Seconds are counted as nanoseconds. -/
def bits : DurationUnit → ℕ
  | years | months | weeks | days => 32
  | hours | minutes | seconds => 64

/-- The parts of a unit that are counted. -/
def ticks : DurationUnit → ℕ
  | seconds => 10 ^ 9
  | _ => 1

end DurationUnit

open DurationUnit

/-- The units before the time designator. -/
def dateUnits : List DurationUnit := [years, months, weeks, days]

/-- The units behind the time designator. -/
def timeUnits : List DurationUnit := [hours, minutes, seconds]

/-! ## Writing -/

/-- The text so far and what is left of the duration. -/
structure Written where
  text : List UInt8
  duration : ℚ

/-- `floor_to_string`. The conversion to the unit has no result out of the range of its count. -/
def floorToString (s : Written) (unit : DurationUnit) : Option Written :=
  let floored := ⌊s.duration / unit.length⌋
  if floored < -2 ^ (unit.bits - 1) ∨ 2 ^ (unit.bits - 1) ≤ floored then none
  else if 0 < floored then
    some { text := s.text ++ toChars 10 floored ++ [unit.designator]
           duration := s.duration - floored * unit.length }
  else some s

/-- `Duration::toString`. -/
def toString (d : ℚ) : Option (List UInt8) :=
  if d = 0 then some (ascii "PT0S")
  else do
    let s ← floorToString { text := ascii "P", duration := d } days
    if 0 < s.duration then
      let s ← floorToString { s with text := s.text ++ ascii "T" } hours
      let s ← floorToString s minutes
      if 0 < s.duration then return s.text ++ streamText s.duration ++ [seconds.designator]
      else return s.text
    else return s.text

/-! ## Reading -/

/-- An optional group `([0-9\.]+X)?` of the regex, and the rest. -/
def matchGroup (designator : UInt8) (input : List UInt8) : List UInt8 × List UInt8 :=
  let number := input.takeWhile isNumberSymbol
  if number ≠ [] ∧ (input.drop number.length).head? = some designator then
    (number ++ [designator], input.drop (number.length + 1))
  else ([], input)

def matchGroups : List DurationUnit → List UInt8 → List (List UInt8) × List UInt8
  | [], input => ([], input)
  | unit :: units, input =>
    let (part, rest) := matchGroup unit.designator input
    let (parts, rest) := matchGroups units rest
    (part :: parts, rest)

/-- The groups of a match. -/
structure DurationMatch where
  date : List (List UInt8)
  time : List (List UInt8)

/-- The sub-matches, where a group that takes no part is empty. -/
def DurationMatch.parts (m : DurationMatch) : List (List UInt8) := m.date ++ ascii "T" :: m.time

/-- `std::regex_match` of a whole text. -/
def regexMatch (input : List UInt8) : Option DurationMatch :=
  match input with
  | 0x50 :: input =>
    match matchGroups dateUnits input with
    | (date, 0x54 :: rest) =>
      match matchGroups timeUnits rest with
      | (time, []) => some ⟨date, time⟩
      | _ => none
    | _ => none
  | _ => none

/-- `parse_duration`: the digits in front are counted, and nothing else of the part is read. -/
def parseDuration (unit : DurationUnit) (part : List UInt8) : Except (List UInt8) ℚ :=
  match fromCharsSigned unit.bits 10 part with
  | some (count, _) => .ok (count.toInt * unit.length)
  | none =>
    let message := if leadingDigits 10 part = [] then "Invalid argument"
      else "Numerical result out of range"
    .error (ascii "could not parse duration from string part: " ++ part ++ ascii " -> " ++
      ascii message)

/-- The least number that `std::stod` rounds to infinity. -/
def stodLimit : ℚ := (2 ^ 54 - 1) * 2 ^ 970

/-- `std::stod`. -/
def stod (part : List UInt8) : Except (List UInt8) ℚ :=
  match scanDecimal part with
  | some (x, _) => if stodLimit ≤ x then .error (ascii "stod") else .ok x
  | none => .error (ascii "stod")

/-- `duration_cast` of seconds that are not negative to nanoseconds, which has no result out of
their range. -/
def castToNanoseconds (x : ℚ) : Option ℚ :=
  let count := ⌊x * seconds.ticks⌋
  if 2 ^ (seconds.bits - 1) ≤ count then none else some (count / seconds.ticks)

/-- The variables of the loop. A duration of `none` is undefined. -/
structure Reading where
  preTimeDesignator : Bool := true
  duration : Option ℚ := some 0

def Reading.add (s : Reading) (x : Option ℚ) : Reading :=
  { s with duration := Option.map₂ (· + ·) s.duration x }

/-- A round of the loop. -/
def readPart (s : Reading) (part : List UInt8) : Except (List UInt8) Reading :=
  match part.getLast? with
  | none => .ok s
  | some 0x59 => (parseDuration years part).map fun x => s.add (some x)
  | some 0x57 => (parseDuration weeks part).map fun x => s.add (some x)
  | some 0x44 => (parseDuration days part).map fun x => s.add (some x)
  | some 0x54 => .ok { s with preTimeDesignator := false }
  | some 0x48 => (parseDuration hours part).map fun x => s.add (some x)
  | some 0x53 => (stod part).map fun x => s.add (castToNanoseconds x)
  | some 0x4D =>
    if s.preTimeDesignator then (parseDuration months part).map fun x => s.add (some x)
    else (parseDuration minutes part).map fun x => s.add (some x)
  | some symbol => .error (ascii "encountered invalid symbol while parsing duration: '" ++
      [symbol] ++ ascii "'")

/-- `value.data()` as a string, where `behind` is what the memory holds behind the view. -/
def cString (value behind : List UInt8) : List UInt8 := (value ++ behind).takeWhile (· ≠ 0)

/-- `Duration::FromString`. -/
def fromString (value behind : List UInt8) : Except (List UInt8) (Option ℚ) :=
  if value = ascii "PT0S" then .ok (some 0)
  else
    match regexMatch (cString value behind) with
    | some m => (m.parts.foldlM readPart {}).map fun s => s.duration
    | none => .error (ascii "could not parse duration from string: " ++ value)

/-! ## The meaning of a text -/

/-- The full value of the number of a part, which is zero if the part is missing. -/
def partValue (part : List UInt8) : Option ℚ :=
  if part = [] then some 0 else decimalValue part.dropLast

/-- The sum of the values of the parts, each times its unit. -/
def sumOfParts : List DurationUnit → List (List UInt8) → Option ℚ
  | unit :: units, part :: parts => do
    let x ← partValue part
    let y ← sumOfParts units parts
    return x * unit.length + y
  | _, _ => some 0

/-- What a text says, if it is one of a duration. -/
def meaning (value : List UInt8) : Option ℚ := do
  let m ← regexMatch value
  let x ← sumOfParts dateUnits m.date
  let y ← sumOfParts timeUnits m.time
  return x + y

/-- There is a memory in which the view is accepted. -/
def Accepted (value : List UInt8) : Prop := ∃ behind r, fromString value behind = .ok r

/-- Whatever is behind the view, it stands for what its own symbols say. -/
def Means (value : List UInt8) : Prop :=
  ∀ behind r, fromString value behind = .ok r → ∃ x, r = some x ∧ meaning value = some x

/-- The text of the duration is accepted and stands for it. -/
def RoundTrips (d : ℚ) : Prop := ∃ text, toString d = some text ∧ fromString text [] = .ok (some d)

/-! ## What is kept -/

/-- The part is a whole number of ticks that the count has room for. -/
def Kept (unit : DurationUnit) (part : List UInt8) : Prop :=
  ∃ n : ℕ, n < 2 ^ (unit.bits - 1) ∧ partValue part = some ((n : ℚ) / unit.ticks)

/-- The view is a whole text that ends with seconds, and nothing of its parts is lost. -/
def Exact (value : List UInt8) : Prop :=
  ∃ m, regexMatch value = some m ∧ m.time.getLast? ≠ some [] ∧
    List.Forall₂ Kept dateUnits m.date ∧ List.Forall₂ Kept timeUnits m.time

/-- The seconds of a duration that are behind its minutes. -/
def secondsOf (d : ℚ) : ℚ := d - ⌊d / 60⌋ * 60

/-- The number is written without an exponent, and with all its digits. -/
def Streamed (x : ℚ) : Prop :=
  1 / 10 ^ 4 ≤ x ∧ ∃ m k : ℕ, m < 10 ^ streamPrecision ∧ x * 10 ^ k = m

/-! ## The texts that match -/

variable {unit : DurationUnit} {units : List DurationUnit} {part number input rest : List UInt8}
  {parts : List (List UInt8)} {m : DurationMatch}

/-- What an optional group takes. -/
def IsPart (unit : DurationUnit) (part : List UInt8) : Prop :=
  part = [] ∨ ∃ number, number ≠ [] ∧ (∀ b ∈ number, isNumberSymbol b = true) ∧
    part = number ++ [unit.designator]

namespace DurationMatch

/-- The text of the groups. -/
def text (m : DurationMatch) : List UInt8 := 0x50 :: (m.date.flatten ++ 0x54 :: m.time.flatten)

structure Formed (m : DurationMatch) : Prop where
  date : List.Forall₂ IsPart dateUnits m.date
  time : List.Forall₂ IsPart timeUnits m.time

end DurationMatch

theorem isNumberSymbol_designator (unit : DurationUnit) :
    isNumberSymbol unit.designator = false := by
  cases unit <;> decide

theorem takeWhile_number (hnumber : ∀ b ∈ number, isNumberSymbol b = true) {d : UInt8}
    (hd : isNumberSymbol d = false) (rest : List UInt8) :
    (number ++ d :: rest).takeWhile isNumberSymbol = number := by
  rw [List.takeWhile_append_of_pos hnumber, List.takeWhile_cons, hd]
  simp

theorem matchGroup_part (hne : number ≠ []) (hnumber : ∀ b ∈ number, isNumberSymbol b = true)
    {d : UInt8} (hd : isNumberSymbol d = false) (rest : List UInt8) :
    matchGroup d (number ++ d :: rest) = (number ++ [d], rest) := by
  have htake := takeWhile_number hnumber hd rest
  have hnext : ((number ++ d :: rest).drop number.length).head? = some d := by simp
  have hdrop : (number ++ d :: rest).drop (number.length + 1) = rest := by
    rw [← List.drop_drop, List.drop_left, List.drop_one, List.tail_cons]
  simp only [matchGroup, htake, hdrop]
  rw [if_pos ⟨hne, hnext⟩]

/-- Another symbol is behind the number. -/
theorem matchGroup_other (hnumber : ∀ b ∈ number, isNumberSymbol b = true) {d e : UInt8}
    (he : isNumberSymbol e = false) (hne : e ≠ d) (rest : List UInt8) :
    matchGroup d (number ++ e :: rest) = ([], number ++ e :: rest) := by
  have htake := takeWhile_number hnumber he rest
  have hnext : ((number ++ e :: rest).drop number.length).head? = some e := by simp
  simp only [matchGroup, htake, hnext]
  rw [if_neg fun h => hne (Option.some.inj h.2)]

/-- A group takes a number with its designator, or nothing. -/
theorem matchGroup_cases (unit : DurationUnit) (input : List UInt8) :
    matchGroup unit.designator input = ([], input) ∨
      ∃ number rest, number ≠ [] ∧ (∀ b ∈ number, isNumberSymbol b = true) ∧
        input = number ++ unit.designator :: rest ∧
        matchGroup unit.designator input = (number ++ [unit.designator], rest) := by
  by_cases h : input.takeWhile isNumberSymbol ≠ [] ∧
      (input.drop (input.takeWhile isNumberSymbol).length).head? = some unit.designator
  · right
    obtain ⟨hne, hnext⟩ := h
    have hnumber : ∀ b ∈ input.takeWhile isNumberSymbol, isNumberSymbol b = true :=
      fun b hb => List.mem_takeWhile_imp hb
    obtain ⟨left, hleft⟩ := List.takeWhile_prefix isNumberSymbol (l := input)
    generalize input.takeWhile isNumberSymbol = number at *
    subst hleft
    rw [List.drop_left, List.head?_eq_some_iff] at hnext
    obtain ⟨rest, rfl⟩ := hnext
    exact ⟨number, rest, hne, hnumber, rfl,
      matchGroup_part hne hnumber (isNumberSymbol_designator unit) rest⟩
  · exact Or.inl (if_neg h)

theorem matchGroups_cons (h : matchGroup unit.designator input = (part, rest)) :
    matchGroups (unit :: units) input =
      (part :: (matchGroups units rest).1, (matchGroups units rest).2) := by
  rw [matchGroups, h]

theorem matchGroups_spec : ∀ (units : List DurationUnit) (input : List UInt8),
    List.Forall₂ IsPart units (matchGroups units input).1 ∧
      input = (matchGroups units input).1.flatten ++ (matchGroups units input).2
  | [], input => ⟨.nil, rfl⟩
  | unit :: units, input => by
    rcases matchGroup_cases unit input with h | ⟨number, rest, hne, hnumber, hinput, h⟩
    · obtain ⟨hparts, htext⟩ := matchGroups_spec units input
      rw [matchGroups_cons h]
      exact ⟨.cons (Or.inl rfl) hparts, by simpa using htext⟩
    · obtain ⟨hparts, htext⟩ := matchGroups_spec units rest
      rw [matchGroups_cons h]
      refine ⟨.cons (Or.inr ⟨number, hne, hnumber, rfl⟩) hparts, ?_⟩
      rw [List.flatten_cons, List.append_assoc, ← htext, List.append_assoc, List.singleton_append]
      exact hinput

/-- A group whose part is missing takes nothing of the parts of other units. -/
theorem matchGroup_flatten (hparts : List.Forall₂ IsPart units parts) {d : UInt8}
    (hd : d ∉ units.map designator) (hne : parts.flatten ≠ []) (rest : List UInt8) :
    matchGroup d (parts.flatten ++ rest) = ([], parts.flatten ++ rest) := by
  induction hparts with
  | nil => exact absurd rfl hne
  | @cons unit part units parts hpart hparts ih =>
    rw [List.map_cons, List.mem_cons, not_or] at hd
    rcases hpart with rfl | ⟨number, -, hnumber, rfl⟩
    · exact ih hd.2 hne
    · rw [List.flatten_cons, List.append_assoc, List.append_assoc, List.singleton_append]
      exact matchGroup_other hnumber (isNumberSymbol_designator unit) (Ne.symm hd.1) _

/-- The groups take exactly the parts, if what follows cannot be taken for a missing one. -/
theorem matchGroups_flatten (hparts : List.Forall₂ IsPart units parts)
    (hunits : (units.map designator).Nodup) (rest : List UInt8)
    (hrest : (∀ unit ∈ units, matchGroup unit.designator rest = ([], rest)) ∨
      ∃ part, parts.getLast? = some part ∧ part ≠ []) :
    matchGroups units (parts.flatten ++ rest) = (parts, rest) := by
  induction hparts with
  | nil => rfl
  | @cons unit part units parts hpart hparts ih =>
    rw [List.map_cons, List.nodup_cons] at hunits
    have hrest' : (∀ unit ∈ units, matchGroup unit.designator rest = ([], rest)) ∨
        ∃ part, parts.getLast? = some part ∧ part ≠ [] := by
      rcases hrest with h | ⟨last, hlast, hne⟩
      · exact Or.inl fun u hu => h u (List.mem_cons_of_mem _ hu)
      · cases hparts with
        | nil => exact Or.inl (by simp)
        | cons => exact Or.inr ⟨last, by simpa using hlast, hne⟩
    have hgroups := ih hunits.2 hrest'
    rcases hpart with rfl | ⟨number, hne, hnumber, rfl⟩
    · have hgroup : matchGroup unit.designator (parts.flatten ++ rest) =
          ([], parts.flatten ++ rest) := by
        by_cases hempty : parts.flatten = []
        · rcases hrest with h | ⟨last, hlast, hne⟩
          · rw [hempty]
            exact h unit List.mem_cons_self
          · rw [List.flatten_eq_nil_iff] at hempty
            rcases List.mem_cons.mp (List.mem_of_getLast? hlast) with h | h
            · exact absurd h hne
            · exact absurd (hempty last h) hne
        · exact matchGroup_flatten hparts hunits.1 hempty rest
      rw [List.flatten_cons, List.nil_append, matchGroups_cons hgroup, hgroups]
    · have hgroup := matchGroup_part hne hnumber (isNumberSymbol_designator unit)
        (parts.flatten ++ rest)
      rw [List.flatten_cons, List.append_assoc, List.append_assoc, List.singleton_append,
        matchGroups_cons hgroup, hgroups]

/-- Whatever follows, the groups take the parts that are there. -/
theorem matchGroups_append (hparts : List.Forall₂ IsPart units parts)
    (hunits : (units.map designator).Nodup) (rest : List UInt8) :
    List.Forall₂ (fun part taken => part = [] ∨ taken = part) parts
      (matchGroups units (parts.flatten ++ rest)).1 := by
  induction hparts with
  | nil => exact .nil
  | @cons unit part units parts hpart hparts ih =>
    rw [List.map_cons, List.nodup_cons] at hunits
    rcases hpart with rfl | ⟨number, hne, hnumber, rfl⟩
    · rw [List.flatten_cons, List.nil_append]
      by_cases hempty : parts.flatten = []
      · rw [List.flatten_eq_nil_iff] at hempty
        rw [matchGroups_cons rfl]
        refine .cons (Or.inl rfl) (List.forall₂_iff_zip.mpr ⟨?_, fun hzip => Or.inl ?_⟩)
        · rw [← hparts.length_eq]
          exact (matchGroups_spec units _).1.length_eq
        · exact hempty _ (List.of_mem_zip hzip).1
      · rw [matchGroups_cons (matchGroup_flatten hparts hunits.1 hempty rest)]
        exact .cons (Or.inl rfl) (ih hunits.2)
    · have hgroup := matchGroup_part hne hnumber (isNumberSymbol_designator unit)
        (parts.flatten ++ rest)
      rw [List.flatten_cons, List.append_assoc, List.append_assoc, List.singleton_append,
        matchGroups_cons hgroup]
      exact .cons (Or.inr rfl) (ih hunits.2)

/-- No group takes the time designator. -/
theorem matchGroup_time (d : UInt8) (rest : List UInt8) :
    matchGroup d (0x54 :: rest) = ([], 0x54 :: rest) := by
  have htake : (0x54 :: rest).takeWhile isNumberSymbol = [] := rfl
  simp only [matchGroup, htake]
  exact if_neg fun h => h.1 rfl

/-- The regex takes the date of a text as it is, and the groups of the time from what follows. -/
theorem regexMatch_append (hm : m.Formed) (rest : List UInt8) :
    regexMatch (m.text ++ rest) =
      if (matchGroups timeUnits (m.time.flatten ++ rest)).2 = [] then
        some ⟨m.date, (matchGroups timeUnits (m.time.flatten ++ rest)).1⟩
      else none := by
  have hdate : matchGroups dateUnits (m.date.flatten ++ 0x54 :: (m.time.flatten ++ rest)) =
      (m.date, 0x54 :: (m.time.flatten ++ rest)) :=
    matchGroups_flatten hm.date (by decide) _
      (Or.inl fun unit _ => matchGroup_time unit.designator _)
  have htext : m.text ++ rest =
      0x50 :: (m.date.flatten ++ 0x54 :: (m.time.flatten ++ rest)) := by
    simp [DurationMatch.text]
  rw [htext, regexMatch]
  simp only [hdate]
  rcases matchGroups timeUnits (m.time.flatten ++ rest) with ⟨time, _ | ⟨b, left⟩⟩ <;> simp

/-- **A text matches with the groups that it is made of.** -/
theorem regexMatch_eq_some_iff : regexMatch input = some m ↔ m.Formed ∧ input = m.text := by
  constructor
  · intro h
    unfold regexMatch at h
    split at h <;> try contradiction
    rename_i input
    split at h <;> try contradiction
    rename_i date rest hdate
    split at h <;> try contradiction
    rename_i time htime
    obtain rfl := Option.some.inj h
    obtain ⟨hdates, hinput⟩ := matchGroups_spec dateUnits input
    obtain ⟨htimes, hrest⟩ := matchGroups_spec timeUnits rest
    rw [hdate] at hdates hinput
    rw [htime, List.append_nil] at hrest
    rw [htime] at htimes
    exact ⟨⟨hdates, htimes⟩, by rw [DurationMatch.text, hinput, ← hrest]⟩
  · rintro ⟨hm, rfl⟩
    have htime := matchGroups_flatten hm.time (by decide) [] (Or.inl fun _ _ => rfl)
    have happend := regexMatch_append hm []
    rw [htime, List.append_nil] at happend
    exact happend

theorem DurationMatch.Formed.regexMatch (hm : m.Formed) : regexMatch m.text = some m :=
  regexMatch_eq_some_iff.mpr ⟨hm, rfl⟩

/-- Nothing can follow the seconds. -/
theorem regexMatch_append_seconds (hm : m.Formed) (hseconds : m.time.getLast? ≠ some [])
    (hne : rest ≠ []) : regexMatch (m.text ++ rest) = none := by
  obtain ⟨last, hlast⟩ : ∃ part, m.time.getLast? = some part := by
    rw [← Option.isSome_iff_exists, List.getLast?_isSome, ← List.length_pos_iff,
      ← hm.time.length_eq]
    decide
  have hgroups := matchGroups_flatten hm.time (by decide) rest
    (Or.inr ⟨last, hlast, fun h => hseconds (h ▸ hlast)⟩)
  rw [regexMatch_append hm, hgroups]
  exact if_neg hne

/-- What follows a text can only add parts to its time. -/
theorem regexMatch_append_some {m' : DurationMatch} (hm : m.Formed)
    (h : regexMatch (m.text ++ rest) = some m') :
    m'.date = m.date ∧
      List.Forall₂ (fun part taken => part = [] ∨ taken = part) m.time m'.time := by
  rw [regexMatch_append hm] at h
  split_ifs at h
  obtain rfl := Option.some.inj h
  exact ⟨rfl, matchGroups_append hm.time (by decide) rest⟩

end Duration

end Dots
