/-
Reading JSON.

The readers go through a text character by character and count the bytes they
pass, because a fault is reported with its line and with its column in bytes. A
fault is noticed in one of two ways: at a character that was passed over, or at
one that was only looked at, which then counts as the place itself.
-/
import LocaleKeys.Json.Value
import LocaleKeys.Text.Position

set_option autoImplicit false

namespace LocaleKeys.Json

/-! ## Faults

A fault says what is wrong and where. Columns count bytes, and the place is in
front of the next character or behind the last one, depending on how the fault
was noticed. -/

/-- What a text or a value is not. -/
inductive Cause where
  | listEnds
  | objectEnds
  | stringEnds
  | valueEnds
  | colonExpected
  | listGoesOn
  | objectGoesOn
  | wordExpected
  | valueExpected
  | badEscape
  | badNumber
  | numberOutOfRange
  | controlCharacter
  | keyNotString
  | loneSurrogate
  | escapeEnds
  | trailingComma
  | trailingCharacters
  | nestedTooDeeply
  /-- A value of another type than wanted. -/
  | wrongType (found wanted : String)
  /-- A value of the right type but out of the wanted range. -/
  | wrongValue (found wanted : String)
  /-- A list of another length than wanted. -/
  | wrongLength (found : Nat) (wanted : String)
  | duplicateField (name : String)
  /-- A value that is none of several things. -/
  | noVariant (name : String)
deriving Repr, DecidableEq, Inhabited

/-- The wording of a cause. -/
def Cause.message : Cause → String
  | .listEnds => "EOF while parsing a list"
  | .objectEnds => "EOF while parsing an object"
  | .stringEnds => "EOF while parsing a string"
  | .valueEnds => "EOF while parsing a value"
  | .colonExpected => "expected \x60:\x60"
  | .listGoesOn => "expected \x60,\x60 or \x60]\x60"
  | .objectGoesOn => "expected \x60,\x60 or \x60\x7d\x60"
  | .wordExpected => "expected ident"
  | .valueExpected => "expected value"
  | .badEscape => "invalid escape"
  | .badNumber => "invalid number"
  | .numberOutOfRange => "number out of range"
  | .controlCharacter => "control character (\\u0000-\\u001F) found while parsing a string"
  | .keyNotString => "key must be a string"
  | .loneSurrogate => "lone leading surrogate in hex escape"
  | .escapeEnds => "unexpected end of hex escape"
  | .trailingComma => "trailing comma"
  | .trailingCharacters => "trailing characters"
  | .nestedTooDeeply => "recursion limit exceeded"
  | .wrongType found wanted => "invalid type: " ++ found ++ ", expected " ++ wanted
  | .wrongValue found wanted => "invalid value: " ++ found ++ ", expected " ++ wanted
  | .wrongLength found wanted =>
    "invalid length " ++ toString found ++ ", expected " ++ wanted
  | .duplicateField name => "duplicate field \x60" ++ name ++ "\x60"
  | .noVariant name => "data did not match any variant of untagged enum " ++ name

/-- A cause and how many bytes stand in front of the place where it was
noticed. -/
structure Fault where
  cause : Cause
  index : Nat
deriving Repr, DecidableEq, Inhabited

/-- The line and the column behind the first `index` bytes of a text. Lines
count from one, and a column is the number of bytes since the line began. -/
def lineAndColumn (index : Nat) : (text : List Char) → (passed line column : Nat) → Nat × Nat
  | [], _, line, column => (line, column)
  | c :: r, passed, line, column =>
    if index ≤ passed then (line, column)
    else if c == '\n' then lineAndColumn index r (passed + 1) (line + 1) 0
    else
      let size := min c.utf8Size (index - passed)
      lineAndColumn index r (passed + c.utf8Size) line (column + size)

/-- The wording of a fault in a text, with its place. -/
def Fault.message (f : Fault) (text : List Char) : String :=
  let (line, column) := lineAndColumn f.index text 0 1 0
  f.cause.message ++ " at line " ++ toString line ++ " column " ++ toString column

/-! ## Where reading stands

What is left of the text, with what has been passed so far. The stand is handed
from reader to reader, so that each fault has its place at hand. -/

/-- The text that is still to be read, and how many bytes of the whole text are
in front of it. -/
structure Stand where
  rest : List Char
  index : Nat
deriving Repr, DecidableEq, Inhabited

namespace Stand

/-- The start of a text. -/
def start (text : List Char) : Stand := ⟨text, 0⟩

/-- Passes over characters that take a byte each. -/
def drop (s : Stand) (n : Nat) : Stand := ⟨s.rest.drop n, s.index + n⟩

/-- A fault at the place behind the next byte, which was looked at. -/
def fault {α : Type} (s : Stand) (cause : Cause) : Except Fault α :=
  .error ⟨cause, if s.rest.isEmpty then s.index else s.index + 1⟩

/-- A fault at the place behind what was passed over. -/
def faultHere {α : Type} (s : Stand) (cause : Cause) : Except Fault α :=
  .error ⟨cause, s.index⟩

end Stand

/-- The character may stand between tokens. -/
def isBlank (c : Char) : Bool := c == ' ' || c == '\n' || c == '\t' || c == '\r'

/-- Passes over blanks. -/
def Stand.skipBlanks (s : Stand) : Stand := s.drop (s.rest.takeWhile isBlank).length

/-! ## Strings

A string is read up to its quote, and its escapes are replaced on the way. Four
hexadecimal digits may be half of a surrogate pair, and then the other half has
to follow. -/

/-- The value of a hexadecimal digit. -/
def hexDigit? (c : Char) : Option Nat :=
  if c.isDigit then some (c.toNat - '0'.toNat)
  else if 'a' ≤ c && c ≤ 'f' then some (c.toNat - 'a'.toNat + 10)
  else if 'A' ≤ c && c ≤ 'F' then some (c.toNat - 'A'.toNat + 10)
  else none

/-- The number that four hexadecimal digits spell. -/
def fourHexDigits (s : Stand) : Except Fault Nat :=
  let four := s.rest.take 4
  match four.filterMap hexDigit? with
  | [a, b, c, d] => .ok (((a * 16 + b) * 16 + c) * 16 + d)
  | _ =>
    let bytes := Text.byteCount four
    if bytes < 4 then .error ⟨.stringEnds, s.index + bytes⟩ else .error ⟨.badEscape, s.index + 4⟩

/-- The character that is spelled behind `\u`, and how many characters spell
it. Characters beyond the first 65536 are spelled as two halves. -/
def unicodeEscape (s : Stand) : Except Fault (Char × Nat) := do
  let n ← fourHexDigits s
  let s := s.drop 4
  if 0xDC00 ≤ n && n ≤ 0xDFFF then s.faultHere .loneSurrogate
  else if 0xD800 ≤ n && n ≤ 0xDBFF then
    match s.rest with
    | [] => s.faultHere .stringEnds
    | '\\' :: [] => (s.drop 1).faultHere .stringEnds
    | '\\' :: 'u' :: _ =>
      let m ← fourHexDigits (s.drop 2)
      if 0xDC00 ≤ m && m ≤ 0xDFFF then
        return (Char.ofNat (0x10000 + (n - 0xD800) * 0x400 + (m - 0xDC00)), 10)
      else (s.drop 6).faultHere .loneSurrogate
    | '\\' :: _ => .error ⟨.escapeEnds, s.index + 2⟩
    | _ => .error ⟨.escapeEnds, s.index + 1⟩
  else return (Char.ofNat n, 4)

/-- The character that is spelled behind a backslash, and how many characters
spell it. -/
def escaped (s : Stand) : Except Fault (Char × Nat) :=
  match s.rest with
  | [] => s.faultHere .stringEnds
  | '"' :: _ => .ok ('"', 1)
  | '\\' :: _ => .ok ('\\', 1)
  | '/' :: _ => .ok ('/', 1)
  | 'b' :: _ => .ok ('\x08', 1)
  | 'f' :: _ => .ok ('\x0c', 1)
  | 'n' :: _ => .ok ('\n', 1)
  | 'r' :: _ => .ok ('\r', 1)
  | 't' :: _ => .ok ('\t', 1)
  | 'u' :: _ => (unicodeEscape (s.drop 1)).map fun (c, k) => (c, k + 1)
  | _ => .error ⟨.badEscape, s.index + 1⟩

/-- The inside of a string, with `done` read so far in reverse. The first
argument counts characters to be passed over. -/
def stringFrom : (skip : Nat) → (done : List Char) → (index : Nat) → List Char →
    Except Fault (String × Stand)
  | _, _, index, [] => .error ⟨.stringEnds, index⟩
  | k + 1, done, index, _ :: r => stringFrom k done (index + 1) r
  | 0, done, index, c :: r =>
    if c == '"' then .ok (String.ofList done.reverse, ⟨r, index + 1⟩)
    else if c == '\\' then
      match escaped ⟨r, index + 1⟩ with
      | .ok (c, k) => stringFrom k (c :: done) (index + 1) r
      | .error fault => .error fault
    else if c.toNat < 0x20 then .error ⟨.controlCharacter, index + 1⟩
    else stringFrom 0 (c :: done) (index + c.utf8Size) r

/-! ## Numbers

A number is kept as a whole number as long as it fits into sixty-four bits, and
becomes a binary fraction if it does not or if it has a point or an exponent.
Too great an exponent is a fault, and one that is too small makes the number
zero. -/

/-- The greatest integer. -/
def greatestInteger : Nat := Nat.pow 2 64 - 1

/-- Adds digits to a number as long as it fits, and says how many were added. -/
def addDigits : (n : Nat) → List Char → Nat × Nat
  | n, [] => (n, 0)
  | n, c :: cs =>
    let m := n * 10 + (c.toNat - '0'.toNat)
    if m > greatestInteger then (n, 0)
    else
      let (m, k) := addDigits m cs
      (m, k + 1)

/-- A fraction from its digits and its decimal exponent. -/
def fraction (negative : Bool) (digits : Nat) (exponent : Int) (s : Stand) :
    Except Fault (Number × Stand) :=
  match Decimal.Binary.ofDecimal? digits exponent with
  | some b => .ok (.fraction negative b, s)
  | none => s.faultHere .numberOutOfRange

/-- The greatest exponent that is counted. -/
def greatestExponent : Nat := Nat.pow 2 31 - 1

/-- A number from its exponent on, which begins with `e`. -/
def exponentFrom (negative : Bool) (digits : Nat) (exponent : Int) (s : Stand) :
    Except Fault (Number × Stand) :=
  let s := s.drop 1
  let down := s.rest.head? == some '-'
  let s := if down || s.rest.head? == some '+' then s.drop 1 else s
  let ds := s.rest.takeWhile Char.isDigit
  let value := ds.foldl (fun n c => n * 10 + (c.toNat - '0'.toNat)) 0
  if ds.isEmpty then
    if s.rest.isEmpty then s.faultHere .valueEnds else .error ⟨.badNumber, s.index + 1⟩
  else
    let behind := s.drop ds.length
    if value > greatestExponent then
      if digits != 0 && !down then .error ⟨.numberOutOfRange, s.index + counted ds 0 0⟩
      else .ok (.fraction negative .zero, behind)
    else fraction negative digits (if down then exponent - value else exponent + value) behind
where
  /-- How many digits are read until the exponent is too great. -/
  counted : List Char → (n k : Nat) → Nat
    | [], _, k => k
    | c :: cs, n, k =>
      let n := n * 10 + (c.toNat - '0'.toNat)
      if n > greatestExponent then k + 1 else counted cs n (k + 1)

/-- A number from behind its whole part on, of which `dropped` digits did not
fit. -/
def numberBehindWhole (negative : Bool) (digits dropped : Nat) (s : Stand) :
    Except Fault (Number × Stand) :=
  match s.rest with
  | '.' :: r =>
    let s := s.drop 1
    let ds := r.takeWhile Char.isDigit
    if ds.isEmpty then s.fault (if s.rest.isEmpty then .valueEnds else .badNumber)
    else
      let (digits, added) := addDigits digits ds
      let exponent : Int := (dropped : Int) - added
      let s := s.drop ds.length
      match s.rest with
      | 'e' :: _ | 'E' :: _ => exponentFrom negative digits exponent s
      | _ => fraction negative digits exponent s
  | 'e' :: _ | 'E' :: _ => exponentFrom negative digits dropped s
  | _ =>
    if dropped != 0 then fraction negative digits dropped s
    else if !negative then .ok (.integer digits, s)
    else if digits == 0 || digits > Nat.pow 2 63 then fraction true digits 0 s
    else .ok (.integer (-(digits : Int)), s)

/-- A number from its first digit on. -/
def numberFrom (negative : Bool) (s : Stand) : Except Fault (Number × Stand) :=
  let ds := s.rest.takeWhile Char.isDigit
  match ds with
  | [] => if s.rest.isEmpty then s.faultHere .valueEnds else .error ⟨.badNumber, s.index + 1⟩
  | '0' :: _ :: _ => .error ⟨.badNumber, s.index + 2⟩
  | _ =>
    let (digits, added) := addDigits 0 ds
    numberBehindWhole negative digits (ds.length - added) (s.drop ds.length)

/-! ## Lists and objects

A list and an object end with their bracket, and a comma has to be followed by
something. -/

/-- Passes over the rest of a word. -/
def wordFrom (s : Stand) : List Char → Except Fault Stand
  | [] => .ok s
  | w :: ws =>
    match s.rest with
    | [] => s.faultHere .valueEnds
    | c :: _ => if c == w then wordFrom (s.drop 1) ws else .error ⟨.wordExpected, s.index + 1⟩

/-- The items of a list from behind its bracket on, up to the closing one,
which is passed over. The first argument is a bound on their number. -/
def elementsFrom {α : Type} (element : Stand → Except Fault (α × Stand)) :
    (bound : Nat) → (first : Bool) → (done : List α) → Stand → Except Fault (List α × Stand)
  | 0, _, _, s => s.fault .nestedTooDeeply
  | bound + 1, first, done, s =>
    let s := s.skipBlanks
    match s.rest with
    | [] => s.fault .listEnds
    | ']' :: _ => .ok (done.reverse, s.drop 1)
    | c :: _ => do
      if first then
        let (a, s) ← element s
        elementsFrom element bound false (a :: done) s
      else if c == ',' then
        let s := (s.drop 1).skipBlanks
        match s.rest with
        | [] => s.fault .valueEnds
        | ']' :: _ => s.fault .trailingComma
        | _ =>
          let (a, s) ← element s
          elementsFrom element bound false (a :: done) s
      else s.fault .listGoesOn

/-- The colon between the name of a member and its value. -/
def colon (s : Stand) : Except Fault Stand :=
  let s := s.skipBlanks
  match s.rest with
  | [] => s.fault .objectEnds
  | ':' :: _ => .ok (s.drop 1)
  | _ => s.fault .colonExpected

/-- The members of an object from behind its brace on, up to the closing one,
which is passed over. Each is handed to `member` from behind its name on, with
what the earlier ones made. The first argument is a bound on their number. -/
def membersFrom {σ : Type} (member : σ → String → Stand → Except Fault (σ × Stand)) :
    (bound : Nat) → (first : Bool) → σ → Stand → Except Fault (σ × Stand)
  | 0, _, _, s => s.fault .nestedTooDeeply
  | bound + 1, first, made, s =>
    let s := s.skipBlanks
    let named (s : Stand) (r : List Char) : Except Fault (σ × Stand) := do
      let (key, s) ← stringFrom 0 [] (s.index + 1) r
      let (made, s) ← member made key s
      membersFrom member bound false made s
    match s.rest with
    | [] => s.fault .objectEnds
    | '}' :: _ => .ok (made, s.drop 1)
    | c :: r =>
      if first then
        if c == '"' then named s r else s.fault .keyNotString
      else if c == ',' then
        let s := (s.drop 1).skipBlanks
        match s.rest with
        | [] => s.fault .valueEnds
        | '"' :: r => named s r
        | '}' :: _ => s.fault .trailingComma
        | _ => s.fault .keyNotString
      else s.fault .objectGoesOn

/-! ## Values

Values may be nested so deep and no deeper. The depth left over is what the
recursion goes by. -/

/-- How deep lists and objects may nest. -/
def greatestDepth : Nat := 128

/-- A value, nested less deep than the first argument says. -/
def valueFrom : (depth : Nat) → Stand → Except Fault (Value × Stand)
  | 0, s => s.fault .nestedTooDeeply
  | depth + 1, s =>
    let s := s.skipBlanks
    match s.rest with
    | [] => s.fault .valueEnds
    | 'n' :: _ => (wordFrom (s.drop 1) "ull".toList).map (Value.null, ·)
    | 't' :: _ => (wordFrom (s.drop 1) "rue".toList).map (Value.bool true, ·)
    | 'f' :: _ => (wordFrom (s.drop 1) "alse".toList).map (Value.bool false, ·)
    | '-' :: _ => (numberFrom true (s.drop 1)).map fun (n, s) => (.number n, s)
    | '"' :: r => (stringFrom 0 [] (s.index + 1) r).map fun (t, s) => (.string t, s)
    | '[' :: r =>
      if depth == 0 then s.fault .nestedTooDeeply
      else (elementsFrom (valueFrom depth) (r.length + 1) true [] (s.drop 1)).map
        fun (items, s) => (.array items, s)
    | '{' :: r =>
      if depth == 0 then s.fault .nestedTooDeeply
      else
        let member (made : List (String × Value)) (key : String) (s : Stand) :
            Except Fault (List (String × Value) × Stand) := do
          let s ← colon s
          let (v, s) ← valueFrom depth s
          return (made ++ [(key, v)], s)
        (membersFrom member (r.length + 1) true [] (s.drop 1)).map
          fun (members, s) => (.object (distinctMembers members), s)
    | c :: _ =>
      if c.isDigit then (numberFrom false s).map fun (n, s) => (.number n, s)
      else s.fault .valueExpected

/-- Nothing but blanks may follow. -/
def atEnd (s : Stand) : Except Fault Unit :=
  let s := s.skipBlanks
  if s.rest.isEmpty then .ok () else s.fault .trailingCharacters

/-- The value that a whole text is. -/
def read (text : List Char) : Except Fault Value := do
  let (v, s) ← valueFrom greatestDepth (Stand.start text)
  atEnd s
  return v

end LocaleKeys.Json
