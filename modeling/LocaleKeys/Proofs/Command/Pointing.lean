/-
Where a report points.

A report shows the line that a missing key is on, with a caret below the end of
the key. The line and the column come with the entry, and they are counted as
the parser does: a line ends at a line feed, at a carriage return or at the
pair of both, a byte order mark is left out, and a character beyond the first
65536 takes two columns. What the report shows is looked up in the source
again, and there a line ends at line feeds only, a byte order mark is a
character, and all characters count once.

So an entry names the place at which the report looks only where both ways of
counting agree (`Situation.Of.position_eq_found_iff`). There the caret is below
the key (`Situation.Of.pointed_at`), provided that the line ends for both at
the same character. All this is so in sources that have only line feeds and
pairs, and no byte order mark or character beyond the first 65536
(`Situation.Of.agrees`).
-/
import LocaleKeys.Proofs.Analysis.Comparing
import LocaleKeys.Proofs.Command.Analysing
import LocaleKeys.Proofs.Text.Lines
import LocaleKeys.Proofs.Text.Pieces

set_option autoImplicit false

namespace LocaleKeys

open Text (Position Situation)

/-! ## Lines that end at line feeds

The report splits the source at line feeds and takes one carriage return off
the end of each line. The front of a place and the rest behind it are looked at
separately: `feedFront` is the part of the line in front, and `shownRest` what
the report shows of the rest. The counting of the parser, which these are
compared with, is in `Text/Lines`. -/

namespace Report

/-- A line of a source with a caret below it, in front of which `front` would
fit. -/
def pointing (gutter number : Nat) (line front : List Char) : String :=
  let bar := blanks gutter ++ " |"
  bar ++ "\n"
    ++ rightAligned gutter (toString number) ++ " | " ++ String.ofList line ++ "\n"
    ++ bar ++ " " ++ blanks (Text.width (String.ofList front)) ++ "^\n"

/-- The characters behind the last line feed. -/
def feedFront (front : List Char) : List Char := front.rtakeWhile (· != '\n')

/-- The characters up to the first line feed. -/
def feedRest (rest : List Char) : List Char := rest.takeWhile (· != '\n')

/-- What a report shows of the line on which `rest` stands: up to the end of
the line, of which a carriage return may be a part. -/
def shownRest (rest : List Char) : List Char :=
  if '\n' ∈ rest then withoutReturn (feedRest rest) else feedRest rest

/-- Without a line feed all of the front is on the line. -/
theorem feedFront_of_notMem {front : List Char} (h : '\n' ∉ front) : feedFront front = front := by
  rw [feedFront, List.rtakeWhile_eq_self_iff]
  intro c hc
  rw [bne_iff_ne]
  rintro rfl
  exact h hc

/-- Without a line feed all of the rest is on the line. -/
theorem feedRest_of_notMem {rest : List Char} (h : '\n' ∉ rest) : feedRest rest = rest := by
  rw [feedRest, List.takeWhile_eq_self_iff]
  intro c hc
  rw [bne_iff_ne]
  rintro rfl
  exact h hc

/-- There is no line feed on a line. -/
theorem notMem_feedFront (front : List Char) : '\n' ∉ feedFront front := by
  intro h
  simpa using List.mem_rtakeWhile_imp h

/-- Behind a line feed, the line begins anew. -/
theorem feedFront_append {line : List Char} (h : '\n' ∉ line) (front : List Char) :
    feedFront (front ++ '\n' :: line) = line := by
  induction line using List.reverseRecOn with
  | nil => exact List.rtakeWhile_concat_neg _ _ _ (by decide)
  | append_singleton line c ih =>
    rw [List.mem_append, not_or, List.mem_singleton] at h
    have hc : (c != '\n') = true := by
      rw [bne_iff_ne]
      exact fun heq => h.2 heq.symm
    rw [feedFront, ← List.cons_append, ← List.append_assoc, List.rtakeWhile_concat_pos (· != '\n') _ _ hc]
    exact congrArg (· ++ [c]) (ih h.1)

/-- Behind its last line feed a text has no other. -/
theorem feedFront_cases (front : List Char) :
    '\n' ∉ front ∨ ∃ lines, front = lines ++ '\n' :: feedFront front := by
  by_cases h : '\n' ∈ front
  · right
    obtain ⟨line, lines, hfront, hline⟩ := List.eq_append_cons_of_mem (List.mem_reverse.mpr h)
    have hfront' : front = lines.reverse ++ '\n' :: line.reverse := by
      rw [← List.reverse_reverse front, hfront]
      simp
    refine ⟨lines.reverse, ?_⟩
    conv_rhs => rw [hfront', feedFront_append (by simpa using hline)]
    exact hfront'
  · exact .inl h

/-! ### What is shown

What is shown of a source is its line up to a carriage return. The line is
found by counting line feeds, and the lemmas say which characters of the source
it has. -/

/-- The lines of two texts with a line feed in between are those of each. -/
theorem linesOf_append (front rest : List Char) :
    linesOf (front ++ '\n' :: rest) = (Text.pieces '\n' front).map withoutReturn ++ linesOf rest := by
  obtain ⟨last, hlast⟩ : ∃ last, (Text.pieces '\n' rest).getLast? = some last :=
    ⟨_, List.getLast?_eq_some_getLast (Text.pieces_ne_nil '\n' rest)⟩
  -- the last piece is a piece of `rest`, and only this one may be no line
  rw [linesOf, linesOf, Text.pieces_append, List.dropLast_append_of_ne_nil (Text.pieces_ne_nil '\n' rest),
    List.map_append, List.append_assoc, List.getLastD_eq_getLast?, List.getLastD_eq_getLast?,
    List.getLast?_append, hlast]
  rfl

/-- A text without line feeds is one line. -/
theorem linesOf_of_notMem {line : List Char} (hne : line ≠ []) (h : '\n' ∉ line) : linesOf line = [line] := by
  rw [linesOf, Text.pieces_of_notMem h]
  simp [hne]

/-- A carriage return is taken off at the end, wherever the text begins. -/
theorem withoutReturn_append {line : List Char} (h : '\r' ∉ line) (rest : List Char) :
    withoutReturn (line ++ rest) = line ++ withoutReturn rest := by
  cases hlast : rest.getLast? with
  | none =>
    obtain rfl := List.getLast?_eq_none_iff.mp hlast
    have hline : ¬ (line.getLast? == some '\r') = true := fun heq => h (List.mem_of_getLast? (eq_of_beq heq))
    rw [List.append_nil, withoutReturn, if_neg hline]
    exact (List.append_nil line).symm
  | some c =>
    have hne : rest ≠ [] := by
      rintro rfl
      exact absurd hlast (by simp)
    rw [withoutReturn, withoutReturn, List.getLast?_append, hlast, Option.some_or,
      List.dropLast_append_of_ne_nil hne]
    split <;> rfl

/-- The first line of a text, of which a part without line ends is in front of
`rest`. -/
theorem head?_linesOf {line rest : List Char} (hfeed : '\n' ∉ line) (hreturn : '\r' ∉ line)
    (hne : line ++ rest ≠ []) : (linesOf (line ++ rest))[0]? = some (line ++ shownRest rest) := by
  rw [shownRest]
  by_cases hmem : '\n' ∈ rest
  · obtain ⟨first, more, rfl, hfirst⟩ := List.eq_append_cons_of_mem hmem
    have hrest : feedRest (first ++ '\n' :: more) = first := by
      rw [feedRest, List.takeWhile_append_of_pos (fun c hc => by rw [bne_iff_ne]; rintro rfl; exact hfirst hc)]
      simp
    have hboth : '\n' ∉ line ++ first := by
      rw [List.mem_append, not_or]
      exact ⟨hfeed, hfirst⟩
    rw [if_pos hmem, hrest, ← withoutReturn_append hreturn, ← List.append_assoc, linesOf_append,
      Text.pieces_of_notMem hboth]
    rfl
  · have hboth : '\n' ∉ line ++ rest := by
      rw [List.mem_append, not_or]
      exact ⟨hfeed, hmem⟩
    rw [if_neg hmem, feedRest_of_notMem hmem, linesOf_of_notMem hne hboth]
    rfl

/-- **The line that is found by counting line feeds**, where no carriage return
stands on it in front of `rest`. -/
theorem getElem?_linesOf {front rest : List Char} (hreturn : '\r' ∉ feedFront front)
    (hne : feedFront front ++ rest ≠ []) :
    (linesOf (front ++ rest))[front.count '\n']? = some (feedFront front ++ shownRest rest) := by
  have hfirst := head?_linesOf (notMem_feedFront front) hreturn hne
  -- the lines that are counted are those in front of the last line feed
  rcases feedFront_cases front with h | ⟨lines, hlines⟩
  · rw [feedFront_of_notMem h] at hfirst ⊢
    rw [List.count_eq_zero.mpr h, hfirst]
  · have hcount : front.count '\n' = (Text.pieces '\n' lines).length := by
      conv_lhs => rw [hlines]
      rw [Text.length_pieces, List.count_append, List.count_cons_self,
        List.count_eq_zero.mpr (notMem_feedFront front)]
    have hwhole : front ++ rest = lines ++ '\n' :: (feedFront front ++ rest) := by
      conv_lhs => rw [hlines]
      simp
    rw [hwhole, linesOf_append, hcount, List.getElem?_append_right (by simp), List.length_map,
      Nat.sub_self, hfirst]

/-- **What is shown of a line ends where the line does** if and only if there
is no lone carriage return up to the next line feed. -/
theorem shownRest_eq_iff (rest : List Char) :
    shownRest rest = Text.lineRest rest ↔
      Text.loneReturns (feedRest rest) (rest.dropWhile (· != '\n')) = 0 := by
  induction rest with
  | nil => simp [shownRest, Text.lineRest, feedRest, Text.loneReturns]
  | cons c rest ih =>
    by_cases hfeed : c = '\n'
    · subst hfeed
      simp [shownRest, Text.lineRest, feedRest, Text.loneReturns, withoutReturn, Text.isBreak]
    have hmem : '\n' ∈ c :: rest ↔ '\n' ∈ rest := by simp [Ne.symm hfeed]
    have hrest : feedRest (c :: rest) = c :: feedRest rest := List.takeWhile_cons_of_pos (by simpa using hfeed)
    have hbehind : (c :: rest).dropWhile (· != '\n') = rest.dropWhile (· != '\n') :=
      List.dropWhile_cons_of_pos (by simpa using hfeed)
    have hwhole : feedRest rest ++ rest.dropWhile (· != '\n') = rest := List.takeWhile_append_dropWhile
    rw [shownRest, hrest, hbehind, Text.loneReturns, hwhole]
    simp only [hmem]
    -- a carriage return ends the line for the parser, and for the report only
    -- in front of a line feed
    by_cases hreturn : c = '\r'
    · subst hreturn
      have hline : Text.lineRest ('\r' :: rest) = [] := List.takeWhile_cons_of_neg (by decide)
      rw [hline]
      cases rest with
      | nil => simp [feedRest]
      | cons c' rest =>
        by_cases hpair : c' = '\n'
        · subst hpair
          simp [feedRest, withoutReturn, Text.loneReturns]
        · -- the carriage return is shown, for it stands alone
          have hrest' : feedRest (c' :: rest) = c' :: feedRest rest :=
            List.takeWhile_cons_of_pos (by simpa using hpair)
          rw [hrest']
          refine iff_of_false ?_ (by simp [hpair])
          split
          · rw [withoutReturn]
            split <;> simp
          · simp
    · have hline : Text.lineRest (c :: rest) = c :: Text.lineRest rest :=
        List.takeWhile_cons_of_pos (by simp [Text.isBreak, hfeed, hreturn])
      have hshown : withoutReturn (c :: feedRest rest) = c :: withoutReturn (feedRest rest) :=
        @withoutReturn_append [c] (by simpa using Ne.symm hreturn) _
      have hlone : (c == '\r' && rest.head? != some '\n') = false := by simp [hreturn]
      rw [hline, hshown, hlone, ← apply_ite (List.cons c), ← shownRest, List.cons_inj_right, ih]
      simp

end Report

/-! ## Byte order marks take no cell

The caret is placed by the width of the text in front. A byte order mark in
front of the first line is part of what is shown, and the width counts it as
nothing, whatever it stands next to. This takes a look into the tables of the
width function, one sign after the other. -/

namespace Text

/-- A byte order mark is part of no sequence, or of one in which it takes no
cell. -/
theorem absorb?_mark (s : Sign) : s.absorb? '\ufeff' = none ∨ s.absorb? '\ufeff' = some (0, .alef) := by
  cases s with
  | alef => exact .inr (by decide +kernel)
  | lamed b | ya b | tifinagh b | orkhon b | joiner b | joinedLetters b =>
    left
    cases b <;> decide +kernel
  | tags letters digits =>
    left
    have hletter : isTagLetter '\ufeff' = false := rfl
    have hdigit : isTagDigit '\ufeff' = false := rfl
    simp [Sign.absorb?, hletter, hdigit]
  | _ => exact .inl (by decide +kernel)

/-- A byte order mark takes no cell, whatever stands behind it. -/
theorem widthBefore_mark (f : Following) : (widthBefore '\ufeff' f).1 = 0 := by
  have hselected : f.selected? '\ufeff' = none := by
    rw [Following.selected?]
    rcases f.selector with - | (- | - | -) <;> rfl
  have hwidth : charWidth '\ufeff' = 0 := by decide +kernel
  have hinvisible : isInvisibleMark '\ufeff' = false := by decide +kernel
  have hselector : Selector.ofChar? '\ufeff' = none := rfl
  rw [widthBefore, hselected]
  dsimp only
  -- whether a selector stands behind the mark does not matter from here on
  generalize (if f.selector.isSome = true then f.unselect else f) = f
  rw [if_neg (by decide), hselector, hinvisible, hwidth, Bool.and_false, if_neg (by decide)]
  rcases absorb?_mark f.sign with h | h
  · rw [h]
    rfl
  · rw [h]

/-- Byte order marks in front do not make a text wider. -/
theorem width_append_of_marks {marks : List Char} (h : ∀ c ∈ marks, c.toNat = 0xFEFF) (text : List Char) :
    width (String.ofList (marks ++ text)) = width (String.ofList text) := by
  rw [width, width, String.toList_ofList, String.toList_ofList]
  congr 1
  induction marks with
  | nil => rfl
  | cons c marks ih =>
    obtain rfl : c = '\ufeff' := Char.ext (UInt32.toNat_inj.mp (h c List.mem_cons_self))
    rw [List.cons_append, widthAndFirst]
    dsimp only
    rw [widthBefore_mark, Int.zero_add]
    exact ih fun c hc => h c (List.mem_cons_of_mem _ hc)

end Text

/-! ## Where both ways of counting agree

Both ways start from the same decomposition of the source around the place, its
`Situation`. Three independent conditions come out: in front of the place no
carriage return ends a line alone, on the line as many characters count twice
as there are marks that do not count, and behind the place no carriage return
ends the line alone. The first two are about where the report looks, and the
third is about how much it shows. -/

namespace Text

open Report

/-- There is no carriage return on the line in front of a place. -/
theorem return_notMem_lineFront (front : List Char) : '\r' ∉ lineFront front := by
  intro h
  exact absurd (List.mem_rtakeWhile_imp h) (by decide)

/-- Without lone carriage returns in front a line begins behind the last line
feed. -/
theorem feedFront_eq_lineFront {front rest : List Char} (hlone : loneReturns front rest = 0)
    (hopens : front.getLast? = some '\r' → rest.head? ≠ some '\n') : feedFront front = lineFront front := by
  induction front using List.reverseRecOn generalizing rest with
  | nil => rfl
  | append_singleton front c ih =>
    -- what stands behind `front` begins with `c` now, so the last character is
    -- told apart by what it is
    rw [loneReturns_append, Nat.add_eq_zero_iff] at hlone
    obtain ⟨hlone, hlast⟩ := hlone
    rw [List.getLast?_concat] at hopens
    by_cases hfeed : c = '\n'
    · subst hfeed
      rw [feedFront, lineFront, List.rtakeWhile_concat_neg _ _ _ (by decide),
        List.rtakeWhile_concat_neg _ _ _ (by decide)]
    · have hreturn : c ≠ '\r' := by
        rintro rfl
        simp [loneReturns, hopens rfl] at hlast
      have hbehind : feedFront front = lineFront front := ih hlone fun _ => by simpa using hfeed
      rw [feedFront, lineFront, List.rtakeWhile_concat_pos (· != '\n') _ _ (by simpa using hfeed),
        List.rtakeWhile_concat_pos (!isBreak ·) _ _ (by simp [isBreak, hfeed, hreturn])]
      exact congrArg (· ++ [c]) hbehind

namespace Situation

variable (x : Situation)

/-- The byte order mark, if no line feed stands between it and the place. -/
def marks : List Char := if '\n' ∈ x.front then [] else x.mark

/-- The line of the place, as it is in the source. -/
def line : List Char := x.marks ++ x.before ++ x.after

/-- The line and the column where a report looks for the place, by line feeds
and by characters. -/
def found : Position :=
  ⟨(x.mark ++ x.front).count '\n' + 1, (feedFront (x.mark ++ x.front)).length + x.closing.length + 1⟩

/-- No carriage return in front of the place ends a line by itself. -/
def BeginsAtFeed : Prop := loneReturns x.front (x.closing ++ x.rest) = 0

/-- No carriage return behind the place ends the line by itself. -/
def EndsAtFeed : Prop :=
  loneReturns (feedRest (x.closing ++ x.rest)) ((x.closing ++ x.rest).dropWhile (· != '\n')) = 0

/-- In front of the place, as many characters take two columns as there are
byte order marks, which take none: most of the time there are none of both. -/
def HasColumns : Prop := beyond x.before = x.marks.length

instance : Decidable x.BeginsAtFeed := inferInstanceAs (Decidable (_ = _))

instance : Decidable x.EndsAtFeed := inferInstanceAs (Decidable (_ = _))

instance : Decidable x.HasColumns := inferInstanceAs (Decidable (_ = _))

variable {x} {source : String} {offset : Nat}

/-- The mark has no other characters in it. -/
theorem Of.notMem_mark (h : x.Of source offset) {c : Char} (hc : c.toNat ≠ 0xFEFF) : c ∉ x.mark :=
  fun hmem => hc (h.mark c hmem)

/-- Nor does it have line feeds. -/
theorem Of.count_mark (h : x.Of source offset) : x.mark.count '\n' = 0 :=
  List.count_eq_zero.mpr (h.notMem_mark (by decide))

/-- What is on the line of the mark is the mark. -/
theorem Of.mem_marks (h : x.Of source offset) {c : Char} (hc : c ∈ x.marks) : c.toNat = 0xFEFF := by
  rw [marks] at hc
  split at hc
  · exact absurd hc List.not_mem_nil
  · exact h.mark c hc

/-- What stands behind the last line feed, if lines begin there only. -/
theorem Of.feedFront_eq (h : x.Of source offset) (hbegins : x.BeginsAtFeed) :
    feedFront (x.mark ++ x.front) = x.marks ++ x.before := by
  have hopens : x.front.getLast? = some '\r' → (x.closing ++ x.rest).head? ≠ some '\n' := by
    intro hlast
    obtain ⟨hends, -⟩ := h.opens '\r' hlast rfl
    simpa [endsLine] using hends
  have hfront := feedFront_eq_lineFront hbegins hopens
  rw [marks, before, ← hfront]
  rcases feedFront_cases x.front with hnone | ⟨lines, hlines⟩
  · have hboth : '\n' ∉ x.mark ++ x.front := by
      rw [List.mem_append, not_or]
      exact ⟨h.notMem_mark (by decide), hnone⟩
    rw [if_neg hnone, feedFront_of_notMem hboth, feedFront_of_notMem hnone]
  · have hmem : '\n' ∈ x.front := by
      rw [hlines]
      simp
    have hwhole : x.mark ++ x.front = (x.mark ++ lines) ++ '\n' :: feedFront x.front := by
      conv_lhs => rw [hlines]
      simp
    rw [if_pos hmem, hwhole, feedFront_append (notMem_feedFront x.front), List.nil_append]

/-- **The entry names the place where the report looks** if and only if lines
begin at line feeds and characters are columns. -/
theorem Of.position_eq_found_iff (h : x.Of source offset) :
    x.position = x.found ↔ x.BeginsAtFeed ∧ x.HasColumns := by
  have hline : (x.mark ++ x.front).count '\n' = x.front.count '\n' := by
    rw [List.count_append, h.count_mark, Nat.zero_add]
  rw [position, found, Position.mk.injEq, hline]
  have hbegins : x.front.count '\n' + loneReturns x.front (x.closing ++ x.rest) + 1 = x.front.count '\n' + 1 ↔
      x.BeginsAtFeed := by
    rw [BeginsAtFeed]
    omega
  rw [hbegins]
  -- columns can be compared only where both begin the line at the same
  -- character
  refine and_congr_right fun hbegins => ?_
  rw [h.feedFront_eq hbegins, columns_eq, List.length_append, HasColumns]
  omega

/-- **What is shown**: the line of the place, up to the end that the report
sees. -/
theorem Of.shown (h : x.Of source offset) (hpos : 0 < offset) (hbegins : x.BeginsAtFeed) :
    (linesOf source.toList)[x.position.line - 1]?
      = some (x.marks ++ x.before ++ shownRest (x.closing ++ x.rest)) := by
  have hfront := h.feedFront_eq hbegins
  have hreturn : '\r' ∉ x.marks ++ x.before := by
    rw [List.mem_append, not_or]
    exact ⟨fun hmem => absurd (h.mem_marks hmem) (by decide), return_notMem_lineFront x.front⟩
  have hne : x.marks ++ x.before ++ (x.closing ++ x.rest) ≠ [] := by
    intro hnil
    obtain ⟨hline, hrest⟩ := List.append_eq_nil_iff.mp hnil
    have hbefore := (List.append_eq_nil_iff.mp hline).2
    -- a line has begun here, but nothing follows
    obtain ⟨hclosing, -⟩ := List.append_eq_nil_iff.mp hrest
    have hfrontne : x.front ≠ [] := by
      intro hnil
      rw [h.offset, hnil, hclosing] at hpos
      exact absurd hpos (by simp)
    obtain ⟨front, c, hc⟩ := (List.eq_nil_or_concat' x.front).resolve_left hfrontne
    have hbreak : isBreak c = true := by
      rw [before, lineFront, hc, List.rtakeWhile_eq_nil_iff] at hbefore
      simpa using hbefore (by simp)
    exact (h.opens c (by rw [hc, List.getLast?_concat]; rfl) hbreak).2 hrest
  have hline : x.position.line - 1 = (x.mark ++ x.front).count '\n' := by
    rw [position, hbegins, List.count_append, h.count_mark]
    simp
  have hwhole : source.toList = (x.mark ++ x.front) ++ (x.closing ++ x.rest) := by
    rw [h.whole]
    simp
  rw [hline, hwhole, getElem?_linesOf (hfront ▸ hreturn) (hfront ▸ hne), hfront]

/-- In front of the column of the place stands what is in front of the place. -/
theorem Of.take_line (h : x.Of source offset) (hcolumns : x.HasColumns) :
    x.line.take (x.position.column - 1) = x.marks ++ x.before := by
  have hcolumn : x.position.column - 1 = (x.marks ++ x.before).length + x.closing.length := by
    rw [position, columns_eq, hcolumns, List.length_append]
    dsimp only
    omega
  -- a part of the line's end is no part of what is behind the place on the
  -- line
  have hafter : x.after.take x.closing.length = [] := by
    rcases h.closes with hnone | hcloses
    · rw [hnone]
      rfl
    · obtain ⟨c, more, hclosing, hbreak⟩ := hcloses.exists_break
      have hnone : x.after = [] := by
        rw [after, hclosing, lineRest, List.cons_append, List.takeWhile_cons_of_neg (by simp [hbreak])]
      rw [hnone, List.take_nil]
  rw [line, hcolumn, List.take_length_add_append, hafter, List.append_nil]

/-- **The report points at the place**: it shows the line, and the caret has as
many columns in front of it as the characters in front of the place take. -/
theorem Of.pointed_at (h : x.Of source offset) (hpos : 0 < offset) (hbegins : x.BeginsAtFeed)
    (hcolumns : x.HasColumns) (hends : x.EndsAtFeed) (gutter : Nat) :
    ((linesOf source.toList)[x.position.line - 1]?).elim "" (excerpt gutter x.position)
      = pointing gutter x.position.line x.line x.before := by
  have hline : x.marks ++ x.before ++ shownRest (x.closing ++ x.rest) = x.line := by
    rw [(shownRest_eq_iff _).mpr hends]
    rfl
  rw [h.shown hpos hbegins, hline, Option.elim_some, excerpt, h.take_line hcolumns,
    width_append_of_marks fun c hc => h.mem_marks hc]
  rfl

/-- Both ways of counting agree on sources without lone carriage returns, byte
order marks and characters beyond the first 65536. -/
theorem Of.agrees (h : x.Of source offset) (hreturns : loneReturns source.toList [] = 0)
    (hchars : ∀ c ∈ source.toList, c.toNat ≠ 0xFEFF ∧ c.toNat < 0x10000) :
    x.BeginsAtFeed ∧ x.HasColumns ∧ x.EndsAtFeed := by
  have hmark : x.mark = [] := by
    refine List.eq_nil_iff_forall_not_mem.mpr fun c hc => ?_
    exact (hchars c (by rw [h.whole]; exact List.mem_append_left _ hc)).1 (h.mark c hc)
  have hwhole : source.toList = x.front ++ (x.closing ++ x.rest) := by
    rw [h.whole, hmark, List.nil_append, List.append_assoc]
  rw [hwhole, loneReturns_append, List.append_nil, Nat.add_eq_zero_iff] at hreturns
  refine ⟨hreturns.1, ?_, ?_⟩
  · have hbeyond : beyond x.before = 0 := by
      refine List.countP_eq_zero.mpr fun c hc => ?_
      have hmem : c ∈ source.toList := by
        rw [hwhole]
        exact List.mem_append_left _ ((List.rtakeWhile_suffix _ _).subset hc)
      simpa using (hchars c hmem).2
    rw [HasColumns, hbeyond, marks, hmark, ite_self, List.length_nil]
  · have hrest := hreturns.2
    rw [← List.takeWhile_append_dropWhile (p := (· != '\n')) (l := x.closing ++ x.rest), loneReturns_append,
      List.append_nil, Nat.add_eq_zero_iff] at hrest
    exact hrest.1

end Situation

end Text

/-! ## The report on a source

A missing key has an entry, the entry comes from a result, the result from a
use, and the use is at the end of a literal. That this end is a place between
characters of the source, and not its very beginning, is what the parser
guarantees. -/

/-- The missing entries are those of the results without a text. -/
theorem FileReport.mem_missing_iff {uri : String} {version : Int} {locale : String} {results : List Resolution}
    {e : Entry} : e ∈ (ofResolutions uri version locale results).missing ↔
      ∃ r ∈ results, r.text = none ∧ e = ⟨r.key, r.position, missingWarning r.key⟩ := by
  rw [ofResolutions, List.mem_filterMap]
  refine exists_congr fun r => and_congr_right fun _ => ?_
  rw [Resolution.asMissing?]
  cases r.text with
  | none => simp [eq_comm]
  | some text => simp

/-- A report that names a missing key is about a source that can be read as a
module. -/
theorem Session.exists_use_of_missing {s : Session} {doc : Document} {report : FileReport}
    (h : s.report doc = .ok report) {e : Entry} (he : e ∈ report.missing) :
    ∃ dialect o, Outline.ofSource dialect doc.text = .ok o ∧
      ∃ use ∈ o.keyUses s.settings (o.bindings s.settings),
        e.key = use.key (o.bindings s.settings) ∧ e.position = use.position := by
  rw [Session.report] at h
  cases hanalysis : s.analysis? doc with
  | none =>
    -- the document is not looked at
    rw [hanalysis] at h
    obtain rfl := Except.ok.inj h
    exact absurd he List.not_mem_nil
  | some result =>
    rw [hanalysis] at h
    rw [analysis?] at hanalysis
    split at hanalysis
    · exact absurd hanalysis (by simp)
    obtain ⟨dialect, -, hresult⟩ := Option.map_eq_some_iff.mp hanalysis
    cases ho : Outline.ofSource dialect doc.text with
    | error u =>
      rw [ho] at hresult
      obtain rfl : Except.error u = result := hresult
      exact absurd h (by simp)
    | ok o =>
      rw [ho] at hresult
      obtain rfl := hresult
      obtain rfl := Except.ok.inj h
      obtain ⟨r, hr, -, rfl⟩ := FileReport.mem_missing_iff.mp he
      obtain ⟨use, huse, rfl⟩ := List.mem_map.mp hr
      exact ⟨dialect, o, ho, use, huse, rfl, rfl⟩

/-- **The report points at the keys.** Each missing key is used at a literal,
and the entry names the line and the column of the literal's end, which can be
told from what is around this place. The report looks at this place if and only
if no carriage return in front ends a line by itself, and the characters in
front on the line are columns. It shows this line if and only if no carriage
return ends the line by itself. Where all of this is so the line is shown as it
is in the source, and the caret has as many columns in front of it as the
characters in front of the place take. -/
theorem Project.points_at_missing {p : Project} {d : Disk} {path : Path} {source : String} {report : FileReport}
    (h : p.outcome d path = .analysed path source report) {e : Entry} (he : e ∈ report.missing) :
    let doc := Text.Document.ofString source
    let settings := p.session.settings
    ∃ dialect t, Script.parseModule dialect doc.characters = .ok t ∧
      let o := Outline.ofTree doc t
      ∃ use ∈ o.keyUses settings (o.bindings settings), e.key = use.key (o.bindings settings) ∧
        ∃ literal ∈ t.literals, use.IsAt doc literal ∧
          ∃ x : Situation, (∀ y : Situation, y.Of source literal.hi ↔ y = x) ∧ e.position = x.position ∧
            (e.position = x.found ↔ x.BeginsAtFeed ∧ x.HasColumns) ∧
            (x.BeginsAtFeed →
              ((Report.linesOf source.toList)[e.position.line - 1]? = some x.line ↔ x.EndsAtFeed)) ∧
            (x.BeginsAtFeed → x.HasColumns → x.EndsAtFeed → ∀ gutter file,
              Report.missingBlock gutter file source e
                = "error: " ++ e.text ++ "\n  --> " ++ Report.shownPlace file e.position ++ "\n"
                  ++ Report.pointing gutter e.position.line x.line x.before ++ "\n") := by
  intro doc settings
  obtain ⟨-, hreport⟩ := outcome_eq_analysed_iff.mp h
  obtain ⟨dialect, o, (ho : Outline.ofSource dialect source = .ok o), use, huse, hkey, hposition⟩ :=
    Session.exists_use_of_missing hreport he
  obtain ⟨t, ht, rfl⟩ := Outline.ofSource_eq_ok ho
  obtain ⟨literal, hliteral, hat⟩ := Outline.exists_literal_of_use huse
  rw [← Outline.ofTree_eq] at huse hkey
  have hruns := Script.runs_parseModule ht
  obtain ⟨x, hx⟩ := Situation.exists_of (hruns.isBetween_hi hliteral)
  have hpos : 0 < literal.hi := hruns.lt_hi hliteral
  have hplace : e.position = x.position := by
    rw [hposition, hat.2]
    exact hx.place hpos
  have hunique : ∀ y : Situation, y.Of source literal.hi ↔ y = x :=
    fun y => ⟨fun hy => hy.unique hx, fun hy => hy ▸ hx⟩
  refine ⟨dialect, t, ht, use, huse, hkey, literal, hliteral, hat, x, hunique, hplace, ?_, ?_, ?_⟩
  · rw [hplace, hx.position_eq_found_iff]
  · intro hbegins
    rw [hplace, hx.shown hpos hbegins, Situation.line, Situation.after, Option.some.injEq,
      List.append_cancel_left_eq]
    exact Report.shownRest_eq_iff _
  · intro hbegins hcolumns hends gutter file
    rw [Report.missingBlock, hplace, hx.pointed_at hpos hbegins hcolumns hends]

/-- A project without messages. -/
def bareProject : Project :=
  ⟨{}, ⟨"."⟩, ⟨{}, ⟨"."⟩, jsonLoader, .polling, { current := "zh-CN" }, none, 0⟩, false⟩

/-- A disk with one source. -/
def soleSource (source : String) : Disk := ⟨.directory [("a.ts", .file (.ofText source 1))], []⟩

/-- If the entry of a source can be computed, the outcome has a report with it. -/
theorem Project.exists_missing_of_soleSource (source : String) (e : Entry)
    (hread : (soleSource source).read ⟨"a.ts"⟩ = .ok source)
    (hmissing : (bareProject.session.report (.ofFile ⟨"a.ts"⟩ source)).toOption.any (·.missing == [e]) = true) :
    ∃ report, bareProject.outcome (soleSource source) ⟨"a.ts"⟩ = .analysed ⟨"a.ts"⟩ source report ∧
      e ∈ report.missing := by
  obtain ⟨report, hreport, hmissing⟩ := exists_ok_of_any hmissing
  refine ⟨report, outcome_eq_analysed_iff.mpr ⟨hread, hreport⟩, ?_⟩
  rw [eq_of_beq hmissing]
  exact List.mem_singleton_self e

/-- A line ends at a pair, and the key has a character that takes two cells. -/
theorem Project.points_at_missing_of_pair :
    let source := "let t=useI18n();\r\nt('键')"
    ∃ report e, bareProject.outcome (soleSource source) ⟨"a.ts"⟩ = .analysed ⟨"a.ts"⟩ source report ∧
      e ∈ report.missing ∧ ∃ x : Situation, e.position = x.position ∧
        Report.missingBlock 1 "a.ts" source e
          = "error: missing key: 键\n  --> a.ts:2:6\n" ++ Report.pointing 1 2 x.line x.before ++ "\n" ∧
        Report.missingBlock 1 "a.ts" source e
          = "error: missing key: 键\n  --> a.ts:2:6\n  |\n2 | t('键')\n  |       ^\n\n" := by
  intro source
  let e : Entry := ⟨"键", ⟨2, 6⟩, "missing key: 键"⟩
  obtain ⟨report, houtcome, he⟩ := exists_missing_of_soleSource source e (by decide +kernel) (by decide +kernel)
  obtain ⟨-, -, -, -, -, -, literal, -, -, x, hx, hposition, -, -, hpoints⟩ :=
    Project.points_at_missing houtcome he
  have hchars : (source.toList.all fun c => c.toNat != 0xFEFF && c.toNat < 0x10000) = true := by decide +kernel
  obtain ⟨hbegins, hcolumns, hends⟩ := ((hx x).mpr rfl).agrees (by decide +kernel) fun c hc => by
    simpa using List.all_eq_true.mp hchars c hc
  have hheading : "error: " ++ e.text ++ "\n  --> " ++ Report.shownPlace "a.ts" e.position ++ "\n"
      = "error: missing key: 键\n  --> a.ts:2:6\n" := by decide +kernel
  have hblock := hpoints hbegins hcolumns hends 1 "a.ts"
  rw [hheading] at hblock
  exact ⟨report, e, houtcome, he, x, hposition, hblock, by decide +kernel⟩

/-- **The report may point elsewhere.** It finds no line behind a lone carriage
return, and where a byte order mark is on the line, the caret is too far in
front. -/
theorem Project.points_elsewhere :
    (¬ ∀ (p : Project) (d : Disk) (path : Path) (source : String) (report : FileReport),
      p.outcome d path = .analysed path source report → ∀ e ∈ report.missing,
        ∃ line, (Report.linesOf source.toList)[e.position.line - 1]? = some line) ∧
    ¬ ∀ (p : Project) (d : Disk) (path : Path) (source : String) (report : FileReport),
      p.outcome d path = .analysed path source report → ∀ e ∈ report.missing, ∀ (offset : Nat) (x : Situation),
        x.Of source offset → e.position = x.position → ∀ gutter file,
          Report.missingBlock gutter file source e
            = "error: " ++ e.text ++ "\n  --> " ++ Report.shownPlace file e.position ++ "\n"
              ++ Report.pointing gutter e.position.line x.line x.before ++ "\n" := by
  constructor
  · intro hall
    obtain ⟨report, hreport, he⟩ :=
      exists_missing_of_soleSource "let t=useI18n();\rt('k')" ⟨"k", ⟨2, 6⟩, "missing key: k"⟩
        (by decide +kernel) (by decide +kernel)
    obtain ⟨line, hline⟩ := hall _ _ _ _ _ hreport _ he
    have hnone : (Report.linesOf "let t=useI18n();\rt('k')".toList)[1]? = none := by decide +kernel
    exact absurd (hnone.symm.trans hline) (by simp)
  · intro hall
    let source := "\ufefflet t=useI18n();t('k')"
    obtain ⟨report, hreport, he⟩ := exists_missing_of_soleSource source ⟨"k", ⟨1, 22⟩, "missing key: k"⟩
      (by decide +kernel) (by decide +kernel)
    let x : Situation := ⟨['\ufeff'], "let t=useI18n();t('k'".toList, [], [')']⟩
    have hx : x.Of source 21 :=
      ⟨by decide +kernel, by decide +kernel, by decide +kernel, .inl rfl,
        Text.opensLine_cons (.inl (by decide)), List.forall_mem_singleton.mpr rfl⟩
    have hblock := hall _ _ _ _ _ hreport _ he 21 x hx (by decide +kernel) 1 "a.ts"
    exact absurd hblock (by decide +kernel)

end LocaleKeys
