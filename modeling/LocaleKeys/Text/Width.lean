/-
How many cells of a terminal a text takes.

Most characters take one cell, wide ones two, and marks none. But some
characters make one sign together: a picture with its skin tone, two letters
that name a flag, or two letters of a script that are written as one. So a text
is read from its end, and what stands behind a character decides how much the
character adds: as a rule its own width, and nothing or even less than nothing
where it goes into the sign behind it.

What was seen is a `Sign`, which a selector between it and the next character
may have changed. Of a sign that is a letter, selectors and other invisible
marks are no part, and the letter in front of them still meets it.
-/
import LocaleKeys.Text.WidthRanges

set_option autoImplicit false

namespace LocaleKeys.Text

/-! ## Single characters

Which characters are wide, which are marks and which are pictures is a matter
of tables. The ranges are those that the terminal library has. -/

/-- The character lies within one of the ranges. -/
def isWithin (ranges : List (Nat × Nat)) (c : Char) : Bool :=
  ranges.any fun (lo, hi) => lo ≤ c.toNat && c.toNat ≤ hi

/-- One of the letters of which two name a flag. -/
def isFlagLetter (c : Char) : Bool := 0x1f1e6 ≤ c.toNat && c.toNat ≤ 0x1f1ff

/-- How many cells a character takes by itself. -/
def charWidth (c : Char) : Nat :=
  if c.toNat < 0xa1 || isFlagLetter c then 1
  else if c.toNat == 0x17d8 then 3
  else if isWithin zeroWidthRanges c then 0
  else if isWithin wideRanges c then 2
  else 1

/-- The character is a skin tone. -/
def isTone (c : Char) : Bool := 0x1f3fb ≤ c.toNat && c.toNat ≤ 0x1f3ff

/-- A selector may follow the character. -/
def takesSelector (c : Char) : Bool := isWithin selectableRanges c

/-- The character is a picture that a selector turns into narrow text.
Ideographs stay wide. -/
def isNarrowedByText (c : Char) : Bool :=
  takesSelector c && isWithin pictureRanges c && !(0x1f200 ≤ c.toNat && c.toNat ≤ 0x1f2ff)

/-- One of the four curled quotes. -/
def isCurledQuote (c : Char) : Bool := [0x2018, 0x2019, 0x201c, 0x201d].contains c.toNat

/-- The joiner that makes one sign of two. -/
def isJoiner (c : Char) : Bool := c.toNat == 0x200d

/-- A mark that is not to be seen and that stands between letters without
separating them. -/
def isInvisibleMark (c : Char) : Bool :=
  isWithin [(0x34f, 0x34f), (0x17b4, 0x17b5), (0x180b, 0x180d), (0x180f, 0x180f), (0x200d, 0x200d),
    (0xfe00, 0xfe0f), (0xe0100, 0xe01ef)] c

/-- A mark between two letters that are joined all the same. -/
def isJoinedAcross (c : Char) : Bool := charWidth c == 0 && !isWithin unjoinedRanges c

/-- An alef, which becomes one sign with a lam in front of it. -/
def isAlef (c : Char) : Bool :=
  isWithin [(0x622, 0x623), (0x625, 0x625), (0x627, 0x627), (0x671, 0x673), (0x675, 0x675),
    (0x773, 0x774), (0x870, 0x882)] c

/-- A lam. -/
def isLam (c : Char) : Bool :=
  isWithin [(0x644, 0x644), (0x6b5, 0x6b8), (0x76a, 0x76a), (0x8a6, 0x8a6), (0x8c7, 0x8c7)] c

/-- A Khmer letter that may stand below another one. -/
def isKhmerSubscript (c : Char) : Bool :=
  isWithin [(0x1780, 0x1782), (0x1784, 0x1787), (0x1789, 0x178c), (0x178e, 0x1793),
    (0x1795, 0x1798), (0x179b, 0x179d), (0x17a0, 0x17a0), (0x17a2, 0x17a2), (0x17a7, 0x17a7),
    (0x17ab, 0x17ac), (0x17af, 0x17af)] c

/-- A Tifinagh consonant. -/
def isTifinagh (c : Char) : Bool := isWithin [(0x2d31, 0x2d65), (0x2d6f, 0x2d6f)] c

/-- A letter of the tags that name a flag. -/
def isTagLetter (c : Char) : Bool := 0xe0061 ≤ c.toNat && c.toNat ≤ 0xe007a

/-- A digit of the tags that name a flag. -/
def isTagDigit (c : Char) : Bool := 0xe0030 ≤ c.toNat && c.toNat ≤ 0xe0039

/-! ## What stands behind a character

Characters that go into one sign are met from the back. So what has to be
remembered is only the sign that stands behind, and the cases of `Sign` are the
ones in which that makes a difference. -/

/-- What stands behind a character, as far as it matters for its width. -/
inductive Sign where
  | other
  | lineFeed
  /-- A skin tone. -/
  | tone
  /-- A picture. -/
  | picture
  /-- A joiner in front of a picture, with a key cap in front of it if `cap`
  says so. -/
  | joiner (cap : Bool)
  /-- A letter of a flag. -/
  | flagLetter
  /-- More than one letter of a flag. -/
  | flagLetters
  /-- A letter of a flag in front of a joiner. -/
  | joinedLetter
  /-- Letters of flags in front of a joiner, of which `even` says whether they
  are all in pairs. -/
  | joinedLetters (even : Bool)
  /-- The end of the tags of a flag in front of a joiner, as many letters and
  then digits of it. -/
  | tags (letters digits : Nat)
  /-- The vowel sign E of Kirat Rai. -/
  | kiratE
  /-- The vowel sign AI of Kirat Rai. -/
  | kiratAI
  | alef
  /-- A Hebrew lamed; here and below, `joined` says that a joiner stands in
  front of the letter. -/
  | lamed (joined : Bool)
  /-- A Buginese ya. -/
  | ya (joined : Bool)
  /-- A Buginese vowel that was joined to a ya. -/
  | vowelOfYa
  | tifinagh (joined : Bool)
  /-- A Tifinagh consonant behind the mark that joins consonants. -/
  | tifinaghMark
  /-- One of the Lisu tones that may be the second of two. -/
  | lisuTone
  /-- An Old Turkic letter. -/
  | orkhon (joined : Bool)
  /-- A Khmer letter that may stand below another one. -/
  | khmer
deriving Repr, DecidableEq, Inhabited

namespace Sign

/-- What a character is by itself. -/
def ofChar (c : Char) : Sign :=
  let n := c.toNat
  if c == '\n' then .lineFeed
  else if n < 0xa1 then .other
  else if n == 0x5dc then .lamed false
  else if isAlef c then .alef
  else if isKhmerSubscript c then .khmer
  else if n == 0x1a10 then .ya false
  else if isTifinagh c then .tifinagh false
  else if n == 0xa4fc || n == 0xa4fd then .lisuTone
  else if n == 0x10c03 then .orkhon false
  else if n == 0x16d67 then .kiratE
  else if n == 0x16d68 then .kiratAI
  else if isFlagLetter c then .flagLetter
  else if isTone c then .tone
  else if isWithin pictureRanges c then .picture
  else .other

/-- The sign is a letter that others may be joined to. -/
def isLetter : Sign → Bool
  | alef | lamed _ | ya _ | vowelOfYa | tifinagh _ | tifinaghMark | lisuTone | orkhon _ | khmer =>
    true
  | _ => false

/-- The letter behind a joiner. -/
def join : Sign → Sign
  | lamed _ => lamed true
  | ya _ => ya true
  | tifinagh _ => tifinagh true
  | orkhon _ => orkhon true
  | s => s

/-- What a character adds in front of a sign that it goes into, and the sign
that both are. -/
def absorb? (c : Char) (s : Sign) : Option (Int × Sign) :=
  let n := c.toNat
  match s with
  | .alef =>
    if isLam c then some (0, .other) else if isJoinedAcross c then some (0, .alef) else none
  | .lamed true => if n == 0x5d0 then some (0, .other) else none
  | .khmer => if n == 0x17d2 then some (-1, .other) else none
  | .ya true => if n == 0x1a17 then some (0, .vowelOfYa) else none
  | .vowelOfYa => if n == 0x1a15 then some (0, .other) else none
  | .tifinagh joined =>
    if n == 0x2d7f then some (1, .tifinaghMark)
    else if joined && isTifinagh c then some (0, .other)
    else none
  | .tifinaghMark => if isTifinagh c then some (-1, .other) else none
  | .lisuTone => if 0xa4f8 ≤ n && n ≤ 0xa4fb then some (0, .other) else none
  | .orkhon true => if n == 0x10c32 then some (0, .other) else none
  | .tone =>
    if isWithin tintedRanges c then some (0, .picture)
    else if isJoiner c then some (0, .joiner false)
    else none
  | .flagLetter => if isFlagLetter c then some (1, .flagLetters) else none
  | .flagLetters =>
    if isFlagLetter c then some (1, .flagLetters)
    else if isJoiner c then some (0, .joiner false)
    else none
  | .picture => if isJoiner c then some (0, .joiner false) else none
  | .joiner false =>
    if n == 0x20e3 then some (0, .joiner true)
    else if isFlagLetter c then some (1, .joinedLetter)
    else if isTone c then some (0, .tone)
    else if n == 0xe007f then some (0, .tags 0 0)
    else if isWithin pictureRanges c then some (0, .picture)
    else none
  | .joinedLetter => if isFlagLetter c then some (-1, .joinedLetters true) else none
  | .joinedLetters even =>
    if isFlagLetter c then
      some (if even then (3, .joinedLetters false) else (-1, .joinedLetters true))
    else if isJoiner c then some (0, .joiner false)
    else none
  | .tags letters digits =>
    if isTagLetter c && digits == 0 && letters < 6 then some (0, .tags (letters + 1) 0)
    else if isTagDigit c && digits < 3 && (letters ≤ 4 || digits > 0) then
      some (0, .tags letters (digits + 1))
    else if n == 0x1f3f4 && (digits == 3 || (digits == 0 && letters ≥ 3)) then some (0, .picture)
    else none
  | .kiratE =>
    if n == 0x16d63 || n == 0x16d69 then some (0, .other)
    else if n == 0x16d67 then some (0, .kiratAI)
    else if n == 0x16d68 then some (1, .kiratE)
    else none
  | .kiratAI => if n == 0x16d63 then some (0, .other) else none
  | _ => none

end Sign

/-- What a selector asks for. -/
inductive Selector where
  | picture
  | text
  /-- A wide shape. -/
  | wide
deriving Repr, DecidableEq, Inhabited

/-- The selector that a character is. -/
def Selector.ofChar? (c : Char) : Option Selector :=
  match c.toNat with
  | 0xfe0f => some .picture
  | 0xfe0e => some .text
  | 0xfe01 => some .wide
  | _ => none

/-- A sign, with the selector that stands in front of it. -/
structure Following where
  sign : Sign
  selector : Option Selector := none
deriving Repr, DecidableEq, Inhabited

namespace Following

/-- What a selector in front of this is. A joiner can be told to join a
picture, and nothing comes between letters, but any other sign is out of
reach. -/
def select (f : Following) (selector : Selector) : Following :=
  let joins := match f.sign with
    | .joiner _ => selector == .picture
    | _ => false
  ⟨if f.sign.isLetter || joins then f.sign else .other, some selector⟩

/-- The same where the selector did not fit. -/
def unselect (f : Following) : Following := ⟨if f.sign.isLetter then f.sign else .other, none⟩

/-- How many cells a character takes that the selector in front of the sign
fits, and what both are. -/
def selected? (c : Char) (f : Following) : Option (Int × Following) :=
  match f.selector with
  | none => none
  | some .picture =>
    let joined := match f.sign with
      | .joiner _ => true
      | _ => false
    if takesSelector c then some (if joined then 0 else 2, ⟨.picture, none⟩) else none
  | some .text => if isNarrowedByText c then some (1, ⟨.other, none⟩) else none
  | some .wide => if isCurledQuote c then some (2, ⟨.other, none⟩) else none

end Following

/-! ## Texts

A text is folded from its end. -/

/-- What a character adds to the width of what follows, and what both are for
the one in front. -/
def widthBefore (c : Char) (f : Following) : Int × Following :=
  match f.selected? c with
  | some answer => answer
  | none =>
    let f := if f.selector.isSome then f.unselect else f
    let alone : Int × Following := (charWidth c, ⟨.ofChar c, none⟩)
    if c.toNat < 0xa1 then
      if c == '\r' && f.sign == .lineFeed then (0, ⟨.other, none⟩) else alone
    else match Selector.ofChar? c with
      | some selector => (0, f.select selector)
      | none =>
        if f.sign.isLetter && f.sign != .alef && isInvisibleMark c then
          (0, ⟨if isJoiner c then f.sign.join else f.sign, none⟩)
        else match f.sign.absorb? c with
          | some (added, sign) => (added, ⟨sign, none⟩)
          | none => alone

/-- How many cells the characters take, and what the first of them is for one
in front of it. -/
def widthAndFirst : List Char → Int × Following
  | [] => (0, ⟨.other, none⟩)
  | c :: r =>
    let (width, following) := widthAndFirst r
    let (added, first) := widthBefore c following
    (added + width, first)

/-- How many cells a text takes. -/
def width (text : String) : Nat := (widthAndFirst text.toList).1.toNat

end LocaleKeys.Text
