import SqlScribe.Pattern.Search

/-!
# Amounts

Amounts of money in whole won. A Korean phrase such as `5천5백만원` is a sum of terms:
the small units add into a section, and a group unit (`만`, `억`) multiplies the
section and closes it. Group units become smaller from left to right; the phrase ends
at the first that does not. A number beyond the signed 64-bit range is no amount.

`amountIn?` reads the amount a text speaks of: an interval of two amounts with a
connector, else the first phrase, else millions, else a long bare number.
-/

namespace SqlScribe

/-- One amount, or the interval between two. -/
inductive Amount where
  | value (v : Int)
  | range (min max : Int)
deriving DecidableEq, Repr

/-- The interval between two amounts in either order. -/
def Amount.between (a b : Int) : Amount := .range (min a b) (max a b)

/-- The largest amount. -/
def maxAmount : Nat := 9223372036854775807

/-- The amount, if it is not too large. -/
def amountUpToMax? (n : Nat) : Option Nat := if n ≤ maxAmount then some n else none

/-! ## Units and phrases -/

/-- A numeral unit: what it multiplies its own count by, and what it multiplies the whole
section by if it closes one. -/
structure NumeralUnit where
  name : Text
  factor : Nat
  group : Option Nat
deriving DecidableEq, Repr

/-- The units; a compound one comes before its first syllable. -/
def numeralUnits : List NumeralUnit := [
  ⟨"억", 1, some 100000000⟩, ⟨"천만", 1000, some 10000⟩, ⟨"백만", 100, some 10000⟩,
  ⟨"십만", 10, some 10000⟩, ⟨"만", 1, some 10000⟩, ⟨"천", 1000, none⟩, ⟨"백", 100, none⟩,
  ⟨"십", 10, none⟩]

/-- A unit that is nothing but a group: a count in front of it is added to the section as
it is. -/
def NumeralUnit.isPlain (u : NumeralUnit) : Bool := u.factor == 1

namespace AmountPattern

open Pattern

/-- The name of a unit. The longest name is taken, and kept. -/
def unit : Pattern := commit (oneOf (numeralUnits.map fun u => literal u.name))

/-- Digits, units with or without digits in front, and a final `원`; or digits and `원`. -/
def phrase : Pattern :=
  alt
    (run1 .decimal ++ blanks ++ unit ++ star (blanks ++ run .decimal ++ blanks ++ unit)
      ++ blanks ++ opt (literal "원"))
    (run1 .decimal ++ blanks ++ literal "원")

/-- One term of a phrase: its digits, if any, and its unit. -/
def term : Pattern := group 1 (run .decimal) ++ blanks ++ group 2 unit

/-- A run of digits. -/
def digits : Pattern := run1 .decimal

/-- A number in groups of three digits with commas between them. -/
def grouped : Pattern :=
  let three := times 3 (one .decimal)
  one .decimal ++ upTo 2 (one .decimal) ++ literal "," ++ three ++ star (literal "," ++ three)

/-- A connector and the phrase behind it. -/
def connected (connector : Text) : Pattern :=
  blanks ++ literal connector ++ blanks ++ group 1 phrase

/-- Two numbers of millions; the first may leave the word out. -/
def betweenMillions : Pattern :=
  letters "between" ++ blanks1 ++ group 1 digits ++ many .blank ++ opt (letters "million")
    ++ blanks1 ++ letters "and" ++ blanks1 ++ group 2 digits ++ blanks ++ letters "million"

/-- A number of millions. -/
def millions : Pattern := group 1 digits ++ blanks ++ letters "million" ++ edge

/-- At least five digits. -/
def bare : Pattern := times 5 (one .decimal) ++ run .decimal

end AmountPattern

/-! ## The value of a phrase -/

/-- A term of a phrase. -/
structure AmountTerm where
  digits : Text
  unit : NumeralUnit
deriving DecidableEq, Repr

/-- The terms of a phrase, from left to right. -/
def amountTerms (phrase : Text) : List AmountTerm :=
  (AmountPattern.term.findAll phrase).filterMap fun m =>
    (numeralUnits.find? fun u => u.name == m.group 2).map fun u => ⟨m.group 1, u⟩

/-- What has been read of a phrase: the closed groups, the open section, and the last
group unit. -/
structure AmountSum where
  total : Nat
  running : Nat
  lastGroup : Option Nat
deriving DecidableEq, Repr

namespace AmountSum

/-- Nothing has been read. -/
def zero : AmountSum := ⟨0, 0, none⟩

/-- A group unit that is not smaller than the last one ends the phrase. -/
def endsAt (s : AmountSum) (u : NumeralUnit) : Bool :=
  match s.lastGroup, u.group with
  | some last, some g => last ≤ g
  | _, _ => false

/-- The section with a count of a unit added. A unit without a count counts once, but a
plain group unit adds nothing to a section that holds something. -/
def sectionWith (s : AmountSum) (count : Option Nat) (u : NumeralUnit) : Nat :=
  if u.isPlain then
    match count with
    | some n => s.running + n
    | none => if s.running = 0 then 1 else s.running
  else s.running + count.getD 1 * u.factor

/-- The sum with one more term. -/
def add? (s : AmountSum) (count : Option Nat) (u : NumeralUnit) : Option AmountSum :=
  match amountUpToMax? (s.sectionWith count u) with
  | none => none
  | some sec =>
    match u.group with
    | none => some { s with running := sec }
    | some g => (amountUpToMax? (s.total + sec * g)).map fun n => ⟨n, 0, some g⟩

/-- The whole sum. -/
def value? (s : AmountSum) : Option Nat := amountUpToMax? (s.total + s.running)

/-- The value of the sum with further terms, up to the one that ends the phrase. -/
def valueWith? (s : AmountSum) : List AmountTerm → Option Nat
  | [] => s.value?
  | t :: ts =>
      let count? : Option (Option Nat) :=
        if t.digits.isEmpty then some none
        else (t.digits.toNatUpTo? maxAmount).map some
      match count? with
      | none => none
      | some count =>
        if s.endsAt t.unit then s.value?
        else
          match s.add? count t.unit with
          | none => none
          | some next => next.valueWith? ts

end AmountSum

/-- The value of a phrase. Its first term needs digits; without any terms the first run of
digits counts. -/
def phraseValue? (phrase : Text) : Option Nat :=
  match amountTerms phrase with
  | [] =>
    match AmountPattern.digits.find? phrase with
    | none => none
    | some m => m.text.toNatUpTo? maxAmount
  | t :: ts => if t.digits.isEmpty then none else AmountSum.zero.valueWith? (t :: ts)

/-! ## Amounts in a text -/

/-- The text with the commas taken out of its grouped numbers. -/
def ungroupDigits (t : Text) : Text :=
  AmountPattern.grouped.replaceAll (fun m => m.text.filter (· != ',')) t

/-- The match stands right behind a digit, a comma or a point: it is the end of a number
that could not be read. -/
def Match.continuesNumber (m : Match) : Bool :=
  m.before.any fun c => c.isDigit || c == ',' || c == '.'

/-- A number of millions. -/
def millionsOf? (digits : Text) : Option Nat :=
  match digits.toNatUpTo? maxAmount with
  | none => none
  | some n => amountUpToMax? (n * 1000000)

/-- The phrases of a text, from left to right. -/
def amountPhrases (t : Text) : List Match := AmountPattern.phrase.findAll t

/-- The phrase behind this one, if the connector stands between them. -/
def Match.connected? (m : Match) (connector : Text) : Option Text :=
  ((AmountPattern.connected connector).matchAt? m.text.getLast? m.after).map fun n => n.group 1

/-- The connectors of an interval, the most telling one first. -/
def connectors : List Text := ["에서", "부터", "~", "-"]

/-- The first two phrases with a connector between them. -/
def connectedPhrases? (connector : Text) (phrases : List Match) : Option (Text × Text) :=
  phrases.findSome? fun m => (m.connected? connector).map fun second => (m.text, second)

/-- The interval of two texts, each read by `read`. -/
def intervalOf? (read : Text → Option Nat) (ends : Text × Text) : Option Amount :=
  match read ends.1, read ends.2 with
  | some a, some b => some (.between a b)
  | _, _ => none

/-- The interval of phrases, by the first connector that gives one. -/
def phraseInterval? (phrases : List Match) : Option Amount :=
  connectors.findSome? fun c => (connectedPhrases? c phrases).bind (intervalOf? phraseValue?)

/-- The interval of millions. -/
def millionsInterval? (t : Text) : Option Amount :=
  (AmountPattern.betweenMillions.find? t).bind fun m =>
    intervalOf? millionsOf? (m.group 1, m.group 2)

/-- The value of the first phrase that can be read. -/
def firstPhraseValue? (phrases : List Match) : Option Nat :=
  (phrases.filter fun m => !m.continuesNumber).findSome? fun m => phraseValue? m.text

/-- The first long number without a unit. Numbers of people (`명`) and years (`년`) are no
amounts. -/
def bareNumberIn? (t : Text) : Option Nat :=
  (AmountPattern.bare.findAll t).findSome? fun m =>
    if m.continuesNumber then none
    else
      match (Text.trimStart m.after).head? with
      | some '명' | some '년' => none
      | _ => m.text.toNatUpTo? maxAmount

/-- The amount a text without commas in its numbers speaks of. -/
def ungroupedAmount? (t : Text) : Option Amount :=
  let phrases := amountPhrases t
  match (phraseInterval? phrases).or (millionsInterval? t) with
  | some a => some a
  | none =>
    match firstPhraseValue? phrases with
    | some v => some (.value v)
    | none =>
      match AmountPattern.millions.find? t with
      | some m => (millionsOf? (m.group 1)).map fun v => .value v
      | none => (bareNumberIn? t).map fun v => .value v

/-- The amount a text speaks of. -/
def amountIn? (t : Text) : Option Amount := ungroupedAmount? (ungroupDigits t)

end SqlScribe
