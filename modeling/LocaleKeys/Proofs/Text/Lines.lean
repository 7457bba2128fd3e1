/-
The lines of a text, and where on them a place is.

A line ends at a line feed, at a carriage return, or at the pair of both. So
the number of a line can be told by counting: the line feeds in front of it,
and the carriage returns that have no line feed behind them (`loneReturns`).
And a column can be told by counting what stands on the line in front of it. A
place that a part of a line end stands in front of still is on that line, as
long as no other line begins there, and this part takes columns as well
(`position_behind_append`).
-/
import LocaleKeys.Proofs.Text.Places
import Mathlib.Data.List.DropRight

set_option autoImplicit false

namespace LocaleKeys.Text

/-- The character ends a line, by itself or with the one behind it. -/
def isBreak (c : Char) : Bool := c == '\n' || c == '\r'

/-- The characters behind the last break. -/
def lineFront (front : List Char) : List Char := front.rtakeWhile (!isBreak ·)

/-- The characters up to the first break. -/
def lineRest (rest : List Char) : List Char := rest.takeWhile (!isBreak ·)

/-- How many carriage returns in `front` end a line by themselves, where `rest`
stands behind. -/
def loneReturns : (front rest : List Char) → Nat
  | [], _ => 0
  | c :: front, rest =>
    (if c == '\r' && (front ++ rest).head? != some '\n' then 1 else 0) + loneReturns front rest

/-- How many columns the characters of a line take. -/
def columns : List Char → Nat
  | [] => 0
  | c :: line => units16 c + columns line

/-- How many characters take two columns. -/
def beyond (line : List Char) : Nat := line.countP (0x10000 ≤ ·.toNat)

/-- A character takes one column, and one more if it lies beyond the first
plane. -/
theorem columns_eq (line : List Char) : columns line = line.length + beyond line := by
  induction line with
  | nil => rfl
  | cons c line ih =>
    rw [columns, ih, beyond, beyond, List.countP_cons, List.length_cons, units16]
    by_cases hc : c.toNat < 0x10000
    · rw [if_pos hc, if_neg (by simpa using hc)]
      omega
    · rw [if_neg hc, if_pos (by simpa using hc)]
      omega

theorem columns_concat (line : List Char) (c : Char) : columns (line ++ [c]) = columns line + units16 c := by
  induction line with
  | nil => exact Nat.add_comm _ _
  | cons c' line ih => rw [List.cons_append, columns, ih, columns, Nat.add_assoc]

/-- Carriage returns are counted part by part. Whether one stands alone depends
on what follows it, which for the front part is the middle one. -/
theorem loneReturns_append (front mid rest : List Char) :
    loneReturns (front ++ mid) rest = loneReturns front (mid ++ rest) + loneReturns mid rest := by
  induction front with
  | nil => exact (Nat.zero_add _).symm
  | cons c front ih => rw [List.cons_append, loneReturns, ih, loneReturns, List.append_assoc, Nat.add_assoc]

/-- Only breaks end a line. A carriage return in front of a line feed is a
break and does not. -/
theorem isBreak_of_endsLine {c : Char} {rest : List Char} (h : endsLine c rest = true) : isBreak c = true := by
  rw [endsLine, Bool.or_eq_true, Bool.and_eq_true] at h
  rw [isBreak, Bool.or_eq_true]
  exact h.imp_right And.left

/-! ## Where a place is

The program carries a place over the text character by character. What it has
come to is told here from the text in front alone. Lines are easy: each break
that ends one adds one. Columns are reset by a break and counted from there, so
the induction for them is from the end of the front, and it needs that the
front does not end within a line end.

Where it does, namely between a carriage return and its line feed or behind the
last break of a text, the place is still on the old line, and the break takes a
column. That is why a front is split into what is in front of this part and the
part itself (`exists_closing`), in the only possible way (`closing_unique`). -/

namespace Place

variable {rest : List Char}

theorem behind_concat (p : Place) (front : List Char) (c : Char) (rest : List Char) :
    p.behind (front ++ [c]) rest = (p.behind front (c :: rest)).after c rest :=
  p.behind_append front [c] rest

/-- **The number of a line** is the number of line feeds and lone carriage
returns in front. A carriage return with a line feed behind it is not counted a
second time, wherever the text is cut. -/
theorem line_behind (p : Place) (hrest : rest ≠ []) (front : List Char) :
    (p.behind front rest).position.line = p.position.line + front.count '\n' + loneReturns front rest := by
  induction front generalizing p with
  | nil => rfl
  | cons c front ih =>
    have hmore : (front ++ rest).isEmpty = false := by
      rw [List.isEmpty_eq_false_iff]
      exact fun h => hrest (List.append_eq_nil_iff.mp h).2
    rw [behind, ih, after, hmore, loneReturns, List.count_cons, endsLine]
    -- a line feed always ends a line, a carriage return only without one
    -- behind it
    by_cases hfeed : c = '\n'
    · subst hfeed
      simp
      omega
    · rw [beq_eq_false_iff_ne.mpr hfeed]
      generalize (c == '\r' && (front ++ rest).head? != some '\n') = lone
      cases lone with
      | true => simp only [Bool.or_true, Bool.not_false, Bool.and_true, if_true, Bool.false_eq_true, if_false]; omega
      | false => simp only [Bool.or_false, Bool.false_and, Bool.false_eq_true, if_false]; omega

/-- **The column** is told by what stands on the line, if the place is not
within a line end. Between a carriage return and its line feed the line is not
over yet, and a column is counted for the carriage return. -/
theorem column_behind (p : Place) (hp : p.position.column = 1) (front : List Char) :
    ∀ rest : List Char, (∀ c ∈ front.getLast?, isBreak c = true → endsLine c rest = true ∧ rest ≠ []) →
      (p.behind front rest).position.column = columns (lineFront front) + 1 := by
  induction front using List.reverseRecOn with
  | nil => exact fun _ _ => hp
  | append_singleton front c ih =>
    intro rest hends
    rw [List.getLast?_concat] at hends
    have hc := hends c rfl
    rw [behind_concat, after]
    -- a break at the end begins a line, and any other character takes columns
    -- on the one there is
    by_cases hbreak : isBreak c = true
    · obtain ⟨hend, hrest⟩ := hc hbreak
      have hmore : rest.isEmpty = false := List.isEmpty_eq_false_iff.mpr hrest
      rw [hend, hmore, lineFront, List.rtakeWhile_concat_neg _ _ _ (by simp [hbreak])]
      rfl
    · have hend : endsLine c rest = false := by
        rw [← Bool.not_eq_true]
        exact fun h => hbreak (isBreak_of_endsLine h)
      have hfront := ih (c :: rest) fun c' _ hbreak' => ?_
      · rw [hend, lineFront, List.rtakeWhile_concat_pos _ _ _ (by simpa using hbreak), columns_concat]
        simp only [Bool.false_and, Bool.false_eq_true, if_false, hfront, lineFront]
        omega
      · -- what stands behind the break is no line feed
        have hfeed : c ≠ '\n' := fun h => hbreak (by rw [h]; rfl)
        refine ⟨?_, List.cons_ne_nil _ _⟩
        rw [isBreak, Bool.or_eq_true] at hbreak'
        rw [endsLine, Bool.or_eq_true, Bool.and_eq_true]
        exact hbreak'.imp_right fun h => ⟨h, by simpa using hfeed⟩

end Place

open Place

/-- At the end of `front` another line begins, unless a character that breaks
no line stands there. -/
def OpensLine (front rest : List Char) : Prop :=
  ∀ c ∈ front.getLast?, isBreak c = true → endsLine c rest = true ∧ rest ≠ []

/-- A character that ends no line takes its columns. -/
theorem position_after {c : Char} {rest : List Char} (h : (endsLine c rest && !rest.isEmpty) = false) (p : Place) :
    (p.after c rest).position = ⟨p.position.line, p.position.column + units16 c⟩ := by
  rw [after, h]
  rfl

/-- Where another line could begin, line and column are those that were
counted. -/
theorem position_behind {front rest : List Char} (hne : front ++ rest ≠ []) (hopens : OpensLine front rest) :
    ((firstPlace (front ++ rest)).behind front rest).position
      = ⟨front.count '\n' + loneReturns front rest + 1, columns (lineFront front) + 1⟩ := by
  have hfirst : (firstPlace (front ++ rest)).position = ⟨1, 1⟩ := by
    rw [firstPlace, List.isEmpty_eq_false_iff.mpr hne]
    rfl
  have hcolumn := column_behind (firstPlace (front ++ rest)) rfl front rest hopens
  have hline : ((firstPlace (front ++ rest)).behind front rest).position.line
      = front.count '\n' + loneReturns front rest + 1 := by
    by_cases hrest : rest = []
    · -- the last character breaks no line, so that it may be told from the place in front of it
      subst hrest
      rw [List.append_nil] at hne hfirst ⊢
      obtain ⟨front, c, rfl⟩ := (List.eq_nil_or_concat' front).resolve_left hne
      have hbreak : ¬ isBreak c = true := fun h => (hopens c (List.getLast?_concat) h).2 rfl
      have hfeed : c ≠ '\n' := fun h => hbreak (by rw [h]; rfl)
      have hreturn : (c == '\r') = false := beq_eq_false_iff_ne.mpr fun h => hbreak (by rw [h]; rfl)
      rw [behind_concat, position_after (by simp), line_behind _ (List.cons_ne_nil _ _), hfirst,
        loneReturns_append, List.count_append, List.count_singleton, if_neg (by simpa using hfeed)]
      simp only [loneReturns, hreturn, List.singleton_append, Bool.false_and, Bool.false_eq_true, if_false]
      omega
    · rw [line_behind _ hrest, hfirst, Nat.add_assoc, Nat.add_comm 1]
  rw [← hline, ← hcolumn]

/-- In front of what does not go on a line end, another line begins behind a
break. -/
theorem opensLine_cons {front rest : List Char} {c : Char} (h : c ≠ '\n' ∨ front.getLast? ≠ some '\r') :
    OpensLine front (c :: rest) := by
  intro c' hc' hbreak
  refine ⟨?_, List.cons_ne_nil _ _⟩
  rw [isBreak, Bool.or_eq_true] at hbreak
  rw [endsLine, Bool.or_eq_true, Bool.and_eq_true]
  refine hbreak.imp_right fun hreturn => ⟨hreturn, ?_⟩
  rw [eq_of_beq hreturn] at hc'
  simpa using h.resolve_right (not_not_intro hc')

/-- A break that no line begins behind takes a column. -/
theorem position_behind_concat {front rest : List Char} {c : Char} (hbreak : isBreak c = true)
    (hopens : OpensLine front (c :: rest)) (hstays : (endsLine c rest && !rest.isEmpty) = false) :
    ((firstPlace (front ++ [c] ++ rest)).behind (front ++ [c]) rest).position
      = ⟨front.count '\n' + loneReturns front (c :: rest) + 1, columns (lineFront front) + 1 + 1⟩ := by
  have hunits : units16 c = 1 := by
    rcases Bool.or_eq_true_iff.mp hbreak with h | h <;> rw [eq_of_beq h] <;> rfl
  rw [behind_concat, position_after hstays, List.append_assoc, List.singleton_append,
    position_behind (by simp) hopens, hunits]

/-- A part of a line end that no other line begins behind: the first half of a
pair, or what closes the text. -/
def Closes (closing rest : List Char) : Prop :=
  closing = ['\r'] ∧ rest.head? = some '\n' ∨ rest = [] ∧ closing ∈ [['\n'], ['\r'], ['\r', '\n']]

/-- Such a part begins with a break. -/
theorem Closes.exists_break {closing rest : List Char} (h : Closes closing rest) :
    ∃ c more, closing = c :: more ∧ isBreak c = true := by
  rcases h with ⟨rfl, -⟩ | ⟨-, h⟩
  · exact ⟨_, _, rfl, rfl⟩
  · simp only [List.mem_cons, List.not_mem_nil, or_false] at h
    rcases h with rfl | rfl | rfl <;> exact ⟨_, _, rfl, rfl⟩

/-- What is in front of a place ends with a part of the line end that the place
is at, if it does at all. -/
theorem exists_closing (text rest : List Char) : ∃ front closing, text = front ++ closing ∧
    (closing = [] ∨ Closes closing rest) ∧ OpensLine front (closing ++ rest) := by
  by_cases hopens : OpensLine text rest
  · exact ⟨text, [], (List.append_nil text).symm, .inl rfl, hopens⟩
  -- a break stands in front of the place, and no line begins behind it
  obtain ⟨c, hc, hbreak, hstays⟩ :
      ∃ c ∈ text.getLast?, isBreak c = true ∧ ¬ (endsLine c rest = true ∧ rest ≠ []) := by
    simpa only [OpensLine, not_forall, exists_prop] using hopens
  obtain ⟨front, rfl⟩ := List.getLast?_eq_some_iff.mp hc
  rcases Bool.or_eq_true_iff.mp hbreak with hfeed | hreturn
  · obtain rfl := eq_of_beq hfeed
    obtain rfl : rest = [] := by
      by_contra hrest
      exact hstays ⟨rfl, hrest⟩
    by_cases hpair : front.getLast? = some '\r'
    · obtain ⟨front, rfl⟩ := List.getLast?_eq_some_iff.mp hpair
      exact ⟨front, ['\r', '\n'], by simp, .inr (.inr ⟨rfl, by simp⟩), opensLine_cons (.inl (by decide))⟩
    · exact ⟨front, ['\n'], rfl, .inr (.inr ⟨rfl, by simp⟩), opensLine_cons (.inr hpair)⟩
  · obtain rfl := eq_of_beq hreturn
    refine ⟨front, ['\r'], rfl, .inr ?_, opensLine_cons (.inl (by decide))⟩
    by_cases hrest : rest = []
    · exact .inr ⟨hrest, by simp⟩
    · refine .inl ⟨rfl, ?_⟩
      simpa [endsLine, hrest] using hstays

/-- Where another line begins, nothing of a line's end is left to be told
apart. -/
theorem Closes.eq_nil_of_opensLine {front mid closing rest : List Char} (h : Closes (mid ++ closing) rest)
    (hopens : OpensLine (front ++ mid) (closing ++ rest)) : mid = [] := by
  by_contra hne
  obtain ⟨mid, c, rfl⟩ := (List.eq_nil_or_concat' mid).resolve_left hne
  have hlast := hopens c (by simp)
  rw [List.append_assoc, List.singleton_append] at h
  rcases h with ⟨h, hfeed⟩ | ⟨rfl, h⟩
  · obtain ⟨rfl, rfl⟩ : c = '\r' ∧ closing = [] := by
      rcases mid with - | ⟨a, mid⟩ <;> simp_all
    simpa [endsLine, hfeed] using (hlast rfl).1
  · have hcases : c = '\n' ∧ closing = [] ∨ c = '\r' ∧ closing = [] ∨ c = '\r' ∧ closing = ['\n'] := by
      simp only [List.mem_cons, List.not_mem_nil, or_false] at h
      rcases h with h | h | h <;> rcases mid with - | ⟨a, - | ⟨b, mid⟩⟩ <;> simp_all
    rcases hcases with ⟨rfl, rfl⟩ | ⟨rfl, rfl⟩ | ⟨rfl, rfl⟩
    · exact (hlast rfl).2 rfl
    · exact (hlast rfl).2 rfl
    · exact absurd (hlast rfl).1 (by decide)

/-- There is one way to tell apart what closes the line. -/
theorem closing_unique {front closing front' closing' rest : List Char}
    (h : front ++ closing = front' ++ closing') (hcloses : closing = [] ∨ Closes closing rest)
    (hopens : OpensLine front (closing ++ rest)) (hcloses' : closing' = [] ∨ Closes closing' rest)
    (hopens' : OpensLine front' (closing' ++ rest)) : front = front' ∧ closing = closing' := by
  have hmid : ∀ {front mid closing : List Char}, (mid ++ closing = [] ∨ Closes (mid ++ closing) rest) →
      OpensLine (front ++ mid) (closing ++ rest) → mid = [] := by
    intro front mid closing hcloses hopens
    rcases hcloses with hnil | hcloses
    · exact (List.append_eq_nil_iff.mp hnil).1
    · exact hcloses.eq_nil_of_opensLine hopens
  rcases List.append_eq_append_iff.mp h with ⟨mid, rfl, rfl⟩ | ⟨mid, rfl, rfl⟩
  · obtain rfl := hmid hcloses hopens'
    simp
  · obtain rfl := hmid hcloses' hopens
    simp

/-- **Where a place is.** The number of its line is told by the line ends in
front, and its column by what stands on the line in front of it. Among that may
be a part of the line's end. -/
theorem position_behind_append {front closing rest : List Char} (hne : front ++ closing ++ rest ≠ [])
    (hcloses : closing = [] ∨ Closes closing rest) (hopens : OpensLine front (closing ++ rest)) :
    ((firstPlace (front ++ closing ++ rest)).behind (front ++ closing) rest).position
      = ⟨front.count '\n' + loneReturns front (closing ++ rest) + 1,
        columns (lineFront front) + closing.length + 1⟩ := by
  rcases hcloses with rfl | ⟨rfl, hfeed⟩ | ⟨rfl, hmem⟩
  · rw [List.append_nil] at hne ⊢
    exact position_behind hne hopens
  · refine position_behind_concat rfl hopens ?_
    rw [endsLine, hfeed]
    rfl
  · simp only [List.mem_cons, List.not_mem_nil, or_false] at hmem
    rcases hmem with rfl | rfl | rfl
    · exact position_behind_concat rfl hopens rfl
    · exact position_behind_concat rfl hopens rfl
    · -- both halves of the pair take a column
      have hfirst := @position_behind_concat front ['\n'] '\r' rfl hopens rfl
      have hpair : front ++ ['\r', '\n'] = front ++ ['\r'] ++ ['\n'] := by simp
      rw [hpair, behind_concat, position_after rfl, List.append_nil, hfirst]
      rfl

/-! ## What is around a place

The data that the claims about positions are told with: everything about a
place is read off its `Situation`, and `Of` says that a situation is the one
that a source has around an offset. It is unique, so a statement about some
situation is one about the source; and there is one around every place between
characters. -/

/-- What is around a place of a source: a byte order mark, the characters in
front of the place and those behind it. A part of the place's own line end is
told apart from what is in front. -/
structure Situation where
  mark : List Char
  front : List Char
  closing : List Char
  rest : List Char

namespace Situation

variable (x : Situation)

/-- The characters of the line in front of the place. -/
def before : List Char := lineFront x.front

/-- The characters of the line behind the place. -/
def after : List Char := lineRest (x.closing ++ x.rest)

/-- The line and the column of the place: they are told by line feeds, by lone
carriage returns, and by the columns in front on the line. -/
def position : Position :=
  ⟨x.front.count '\n' + loneReturns x.front (x.closing ++ x.rest) + 1, columns x.before + x.closing.length + 1⟩

/-- This is what is around the place with the offset. -/
structure Of (source : String) (offset : Nat) : Prop where
  whole : source.toList = x.mark ++ (x.front ++ x.closing ++ x.rest)
  characters : (Document.ofString source).characters = x.front ++ x.closing ++ x.rest
  offset : offset = byteCount (x.front ++ x.closing)
  closes : x.closing = [] ∨ Closes x.closing x.rest
  opens : OpensLine x.front (x.closing ++ x.rest)
  mark : ∀ c ∈ x.mark, c.toNat = 0xFEFF

variable {x} {source : String} {offset : Nat}

/-- Only a byte order mark is left out of the characters of a document. -/
theorem exists_mark (source : String) : ∃ mark, source.toList = mark ++ (Document.ofString source).characters ∧
    ∀ c ∈ mark, c.toNat = 0xFEFF := by
  rw [Document.ofString]
  dsimp only
  cases source.toList with
  | nil => exact ⟨[], rfl, by simp⟩
  | cons c rest =>
    by_cases hc : (c.toNat == 0xFEFF) = true
    · exact ⟨[c], by simp [hc], by simpa using hc⟩
    · exact ⟨[], by simp [hc], by simp⟩

/-- **One situation is around a place**: nothing is left open in how it is
told. The mark, the front, the end of the line and the rest are cut out of the
text at places that the offset determines. -/
theorem Of.unique {y : Situation} (hx : x.Of source offset) (hy : y.Of source offset) : x = y := by
  obtain ⟨hfront, hrest⟩ := eq_of_byteCount_eq (hx.characters.symm.trans hy.characters)
    (hx.offset.symm.trans hy.offset)
  have hmark : x.mark = y.mark := by
    have hwhole := hx.whole.symm.trans hy.whole
    rw [← hx.characters, ← hy.characters] at hwhole
    exact List.append_cancel_right hwhole
  obtain ⟨hfront, hclosing⟩ := closing_unique hfront hx.closes hx.opens (hrest ▸ hy.closes) (hrest ▸ hy.opens)
  obtain ⟨mark, front, closing, rest⟩ := x
  exact (mk.injEq ..).mpr ⟨hmark, hfront, hclosing, hrest⟩

/-- There is a situation around every place between characters. -/
theorem exists_of (h : IsBetween (Document.ofString source).characters offset) :
    ∃ x : Situation, x.Of source offset := by
  obtain ⟨rest, text, htext, rfl⟩ := h
  obtain ⟨mark, hwhole, hmark⟩ := exists_mark source
  obtain ⟨front, closing, rfl, hcloses, hopens⟩ := exists_closing text rest
  exact ⟨⟨mark, front, closing, rest⟩, hwhole.trans (by rw [htext]), htext, rfl, hcloses, hopens, hmark⟩

/-- The line and the column of a place that is not at the very beginning. There
a text may be empty, and then it has no line. -/
theorem Of.place (h : x.Of source offset) (hpos : 0 < offset) :
    ((Document.ofString source).place offset).position = x.position := by
  have hne : x.front ++ x.closing ++ x.rest ≠ [] := by
    intro hnil
    rw [h.offset, (List.append_eq_nil_iff.mp hnil).1] at hpos
    exact absurd hpos (by simp)
  rw [h.offset, Document.place_of_stands h.characters, h.characters]
  exact position_behind_append hne h.closes h.opens

end Situation

end LocaleKeys.Text
