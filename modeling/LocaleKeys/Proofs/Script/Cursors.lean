/-
Cursors keep step with the text.

A cursor knows five places around its token and the text at two of them. In a
sound cursor they are in order and are what they are said to be
(`Cursor.Sound`). Whichever way a cursor is moved, it stays sound, and the end
of the previous token only ever moves on.
-/
import LocaleKeys.Proofs.Script.Delimiters
import LocaleKeys.Script.Grammar.Element

set_option autoImplicit false

namespace LocaleKeys.Script

open LocaleKeys.Text

namespace Cursor

/-- The token that the cursor stands on, with what is behind it. -/
def lexeme (c : Cursor) : Lexeme := ⟨c.token, c.hi, c.rest⟩

/-- The places of the cursor are those of its token in the text, wherever the
token was found. -/
structure Steady (text : List Char) (c : Cursor) : Prop where
  stands : Stands text c.begins c.here
  fits : c.lexeme.Fits text c.begins c.here
  previous_isBetween : IsBetween text c.previous
  previous_le : c.previous ≤ c.lo
  lo_le : c.lo ≤ c.begins
  /-- A token begins with its first character, or with an old sign in front of
  it. -/
  opens : c.lo = c.begins ∨ OldGap text c.lo c.begins

/-- The cursor is steady, and if its token is a literal, then that begins with
a quote. Pieces of templates do not. -/
structure Sound (text : List Char) (c : Cursor) : Prop extends Steady text c where
  spelled : c.token.isSpelled = true → ∃ q r, c.here = q :: r ∧ literalEnd? q c.begins r = some c.hi

variable {text : List Char} {c : Cursor}

theorem Steady.rest (h : c.Steady text) : Stands text c.hi c.rest := h.fits.inStep.1

/-- A token does not end in front of its beginning. -/
theorem Steady.begins_le (h : c.Steady text) : c.begins ≤ c.hi := h.fits.inStep.2

/-- The place where a token counts as beginning is between characters. -/
theorem Steady.isBetween (h : c.Steady text) : IsBetween text c.lo := by
  rcases h.opens with hlo | hold
  · exact hlo ▸ h.stands.isBetween
  · exact hold.1.isBetween

/-- A place further on is not in front of the previous token. -/
theorem Steady.previous_le_hi (h : c.Steady text) : c.previous ≤ c.hi :=
  Nat.le_trans h.previous_le (Nat.le_trans h.lo_le h.begins_le)

/-- Tokens that are no literals need not begin with a quote. -/
theorem Steady.sound (h : c.Steady text) (hspelled : c.token.isSpelled = false) : c.Sound text :=
  ⟨h, fun hs => absurd hs (by simp [hspelled])⟩

/-- A literal that the cursor stands on is delimited by its quotes. -/
theorem Sound.delimited (h : c.Sound text) (hspelled : c.token.isSpelled = true) :
    Delimited text ⟨c.lo, c.hi⟩ := by
  obtain ⟨q, r, hhere, hend⟩ := h.spelled hspelled
  exact ⟨c.begins, q, r, hhere ▸ h.stands, hend, h.lo_le, h.opens⟩

/-- **A cursor on the next token of a text is sound.** The gap is skipped, then
the token is read.
-/
theorem sound_ofText (strict inType : Bool) {n : Nat} (broke : Bool) {r : List Char} (arrowStart : Option Nat)
    (h : Stands text n r) : (ofText strict inType n broke r arrowStart).Sound text := by
  obtain ⟨hgap, hle, hopening⟩ :=
    stands_skipGap inType 0 .blank { broke } (Nat.le_refl n) h rfl (fun p hp => absurd hp (by simp))
  have hfits := fits_lexemeAt strict (skipGap inType 0 .blank n { broke } r).value.broke hgap
  have hspelled := @literalEnd?_lexemeAt (skipGap inType 0 .blank n { broke } r).stop
    (skipGap inType 0 .blank n { broke } r).rest strict (skipGap inType 0 .blank n { broke } r).value.broke
  unfold ofText
  -- the token begins at its first character, unless the gap has an old sign in
  -- it
  cases hopens : (skipGap inType 0 .blank n { broke } r).value.opening with
  | none =>
    refine ⟨⟨hgap, hfits, h.isBetween, ?_, ?_, ?_⟩, hspelled⟩
    all_goals simp only [hopens, Option.getD_none]
    · exact hle
    · exact Nat.le_refl _
    · exact .inl trivial
  | some p =>
    obtain ⟨hfrom, hto, hold⟩ := hopening p hopens
    refine ⟨⟨hgap, hfits, h.isBetween, ?_, ?_, ?_⟩, hspelled⟩
    all_goals simp only [hopens, Option.getD_some]
    · exact hfrom
    · exact hto
    · exact .inr hold

/-- Passing the token, whatever it was, the cursor is sound again. -/
theorem Steady.advance (h : c.Steady text) (inType : Bool) : (c.advance inType).Sound text :=
  sound_ofText true inType false c.arrowStart h.rest

/-- A token may be seen in another sense, if it is read from where it begins. -/
theorem Steady.reread (h : c.Steady text) {x : Lexeme} (hx : x.Fits text c.begins c.here) :
    (c.reread x).Steady text :=
  ⟨h.stands, hx, h.previous_isBetween, h.previous_le, h.lo_le, h.opens⟩

/-- Where no arrow function begins is of no account. -/
theorem Sound.withArrowStart (h : c.Sound text) (arrowStart : Option Nat) :
    ({ c with arrowStart } : Cursor).Sound text :=
  ⟨⟨h.stands, h.fits, h.previous_isBetween, h.previous_le, h.lo_le, h.opens⟩, h.spelled⟩

/-- So is the cursor that a text is begun with. -/
theorem sound_start (text : List Char) : (start text).Sound text := by
  unfold start
  split
  · rename_i r
    apply sound_ofText
    have hline := stands_dropWhile (fun c => !isLineBreak c) (stands_self ('#' :: '!' :: r))
    rw [Nat.zero_add] at hline
    exact hline
  · exact sound_ofText _ _ _ _ (stands_self text)

/-- Plain text between elements ends where it says. -/
theorem stands_skipPlainText {n : Nat} {r : List Char} (h : Stands text n r) :
    Stands text (skipPlainText n r).1 (skipPlainText n r).2 ∧ n ≤ (skipPlainText n r).1 := by
  induction r generalizing n with
  | nil => exact ⟨h, Nat.le_refl n⟩
  | cons ch r ih =>
    unfold skipPlainText
    split
    · exact ⟨h, Nat.le_refl n⟩
    · obtain ⟨hstands, hle⟩ := ih h.tail
      exact ⟨hstands, Nat.le_trans (Nat.le_add_right _ _) hle⟩

/-- Plain text ends with the text, or in front of a tag or a brace. -/
theorem skipPlainText_cases (n : Nat) (r : List Char) :
    (skipPlainText n r).2 = [] ∨ ∃ r', (skipPlainText n r).2 = '<' :: r' ∨ (skipPlainText n r).2 = '{' :: r' := by
  induction r generalizing n with
  | nil => exact .inl rfl
  | cons ch r ih =>
    unfold skipPlainText
    split
    · rename_i hc
      rcases Bool.or_eq_true_iff.mp hc with hc | hc
      · exact .inr ⟨r, .inl (by rw [eq_of_beq hc])⟩
      · exact .inr ⟨r, .inr (by rw [eq_of_beq hc])⟩
    · exact ih _

/-- Behind an element the cursor may go over plain text to the next tag or
brace. -/
theorem Steady.advancePlain (h : c.Steady text) : c.advancePlain.Sound text := by
  obtain ⟨hstands, hle⟩ := stands_skipPlainText h.rest
  have hcases := skipPlainText_cases c.hi c.rest
  unfold Cursor.advancePlain
  -- what stops plain text is a tag that closes, one that opens, a brace, or
  -- the end
  generalize skipPlainText c.hi c.rest = plain at hstands hle hcases ⊢
  obtain ⟨n, r⟩ := plain
  dsimp only at hstands hle hcases ⊢
  split
  · -- a mark that closes, and then the two that open
    rename_i r
    have hmark : Narrow 2 ('<' :: '/' :: r) := ((Narrow.zero r).succ (by decide)).succ (by decide)
    exact Steady.sound ⟨hstands, ⟨⟨hmark.stands hstands, Nat.le_add_right n 2⟩, by simp [lexeme, Token.isQuoted],
      fun _ _ => ⟨hmark.of_le (by decide), Nat.lt_add_of_pos_right (by decide)⟩⟩, h.rest.isBetween,
      hle, Nat.le_refl n, .inl rfl⟩ rfl
  · rename_i r _
    have hmark : Narrow 1 ('<' :: r) := (Narrow.zero r).succ (by decide)
    exact Steady.sound ⟨hstands, ⟨⟨hmark.stands hstands, Nat.le_add_right n 1⟩, by simp [lexeme, Token.isQuoted],
      fun _ _ => ⟨hmark, Nat.lt_succ_self n⟩⟩, h.rest.isBetween,
      hle, Nat.le_refl n, .inl rfl⟩ rfl
  · rename_i r
    have hmark : Narrow 1 ('{' :: r) := (Narrow.zero r).succ (by decide)
    exact Steady.sound ⟨hstands, ⟨⟨hmark.stands hstands, Nat.le_add_right n 1⟩, by simp [lexeme, Token.isQuoted],
      fun _ _ => ⟨hmark, Nat.lt_succ_self n⟩⟩, h.rest.isBetween,
      hle, Nat.le_refl n, .inl rfl⟩ rfl
  · rename_i hclosing hopening hbrace
    -- what stops plain text without being a mark is the end of it
    obtain rfl : r = [] := by
      rcases hcases with hnil | ⟨r', hr | hr⟩
      · exact hnil
      · exact (hopening r' hr).elim
      · exact (hbrace r' hr).elim
    exact Steady.sound
      ⟨hstands, .plain ⟨hstands, Nat.le_refl n⟩ rfl (by simp [lexeme]), h.rest.isBetween,
      hle, Nat.le_refl n, .inl rfl⟩ rfl

/-- A value of an attribute ends where it says. -/
theorem stands_quotedEnd {quote : Char} (hquote : quote.utf8Size = 1) {n : Nat} {r : List Char}
    (h : Stands text n r) :
    Stands text (quotedEnd quote n r).1 (quotedEnd quote n r).2 ∧ n ≤ (quotedEnd quote n r).1 := by
  induction r generalizing n with
  | nil => exact ⟨h, Nat.le_refl n⟩
  | cons ch r ih =>
    unfold quotedEnd
    split
    · rename_i hc
      exact ⟨Stands.tail_narrow h (utf8Size_of_beq hc hquote), Nat.le_add_right n 1⟩
    · obtain ⟨hstands, hle⟩ := ih h.tail
      exact ⟨hstands, Nat.le_trans (Nat.le_add_right _ _) hle⟩

end Cursor

end LocaleKeys.Script
