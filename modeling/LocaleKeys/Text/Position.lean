/-
Places in a text: line and column for people, byte offsets for machines.

Lines and columns count from one, and a column counts UTF-16 units, not bytes
and not cells on a screen: a character beyond the first 65536 is two columns
wide. A line ends at a line feed, at a carriage return, or at the pair of both,
which is one end and not two. A terminator that is the very last thing in the
text opens no further line: the place behind it is still on the line it closes.
A text without characters has no line at all, and its only place is called line
zero.
-/

set_option autoImplicit false

namespace LocaleKeys.Text

/-- A line and a column, both counted from one (`SourcePosition`). -/
structure Position where
  line : Nat
  column : Nat
deriving Repr, DecidableEq, Inhabited

namespace Position

/-- Reading order: an earlier line first, and on one line the smaller column. -/
def before (p q : Position) : Bool :=
  p.line < q.line || (p.line == q.line && p.column < q.column)

/-- Reading order, or the same place. -/
def upTo (p q : Position) : Bool :=
  p.line < q.line || (p.line == q.line && p.column ≤ q.column)

/-- The same place for an editor that counts from zero. -/
def toZeroBased (p : Position) : Nat × Nat :=
  (p.line - 1, p.column - 1)

/-- The place as it is written in messages: `line:column`. -/
def render (p : Position) : String :=
  toString p.line ++ ":" ++ toString p.column

end Position

/-- A stretch of text, from its first character to the place behind its last
one (`SourceSpan`). The byte offsets `lo` and `hi` name the same two places. -/
structure Span where
  start : Position
  stop : Position
  lo : Nat
  hi : Nat
deriving Repr, DecidableEq, Inhabited

/-- Whether `p` lies in the span (`SourceSpan::contains`). The place behind the
last character counts as inside, so that a cursor right after a literal still
belongs to it. -/
def Span.contains (s : Span) (p : Position) : Bool :=
  s.start.upTo p && p.upTo s.stop

/-! ## Reading through a text

All places of a text are computed once, by reading through it from the front. A
byte inside of a character has the place of that character. -/

/-- A place in a text under both of its names. -/
structure Place where
  position : Position
  offset : Nat
deriving Repr, DecidableEq, Inhabited

/-- Whether a line ends right behind `c`, given what follows it. A carriage
return that a line feed follows leaves the ending to the line feed. -/
def endsLine (c : Char) (rest : List Char) : Bool :=
  c == '\n' || (c == '\r' && rest.head? != some '\n')

/-- How many columns a character takes. -/
def units16 (c : Char) : Nat := if c.toNat < 0x10000 then 1 else 2

/-- The place behind `c`, which stands at place `p` with `rest` behind it. -/
def Place.after (p : Place) (c : Char) (rest : List Char) : Place where
  position :=
    if endsLine c rest && !rest.isEmpty then ⟨p.position.line + 1, 1⟩
    else ⟨p.position.line, p.position.column + units16 c⟩
  offset := p.offset + c.utf8Size

/-- The first place of a text. -/
def firstPlace (text : List Char) : Place :=
  ⟨⟨if text.isEmpty then 0 else 1, 1⟩, 0⟩

/-- The places of the bytes of `c`, which stands at place `p`. They share the
line and the column of the character. -/
def placesWithin (p : Place) (c : Char) : List Place :=
  (List.range c.utf8Size).map fun k => ⟨p.position, p.offset + k⟩

/-- The place `p` and every later one, up to the end of the text that stands
there. -/
def placesFrom (p : Place) : List Char → List Place
  | [] => [p]
  | c :: rest => placesWithin p c ++ placesFrom (p.after c rest) rest

/-- Every place of a text, in order: one in front of each byte, and the end. -/
def places (text : List Char) : List Place :=
  placesFrom (firstPlace text) text

/-- How many bytes the characters take. -/
def byteCount (text : List Char) : Nat :=
  text.foldr (fun c n => c.utf8Size + n) 0

/-- A text has one place more than it has bytes. -/
theorem length_placesFrom (p : Place) (text : List Char) :
    (placesFrom p text).length = byteCount text + 1 := by
  induction text generalizing p with
  | nil => rfl
  | cons c rest ih => simp [placesFrom, placesWithin, byteCount, ih, Nat.add_assoc]

/-- The text that a span of a document refers to. The characters and the places
are computed once, so that the place of a byte is a look-up. -/
structure Document where
  characters : List Char
  places : Array Place
deriving Inhabited

/-- The document of a text. A byte order mark in front is no part of it. -/
def Document.ofString (text : String) : Document :=
  let characters := match text.toList with
    | c :: rest => if c.toNat == 0xFEFF then rest else c :: rest
    | [] => []
  ⟨characters, (Text.places characters).toArray⟩

/-- The place in front of the byte with this offset. Behind the end it is the
end. -/
def Document.place (d : Document) (offset : Nat) : Place :=
  d.places.getD (min offset (d.places.size - 1)) default

/-- The span between two places that are given by their offsets. -/
def Document.span (d : Document) (lo hi : Nat) : Span :=
  let a := d.place lo
  let b := d.place hi
  ⟨a.position, b.position, a.offset, b.offset⟩

end LocaleKeys.Text
