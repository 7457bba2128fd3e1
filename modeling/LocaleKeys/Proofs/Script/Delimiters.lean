/-
Where the literals of a script begin and where they end.

A literal begins with a quote, and from that quote on the text says where it
ends (`literalEnd?`): right behind the same quote, or with the line if a text
in quotes is never closed (`closed_of_literalEnd?`). What a token says of its
end is just that (`literalEnd?_lexemeAt`). Where the token begins is another
matter. It begins at its quote, unless an old sign stands in front of it
(`Delimited`).
-/
import LocaleKeys.Proofs.Script.Readers
import LocaleKeys.Script.Tree

set_option autoImplicit false

namespace LocaleKeys.Script

open LocaleKeys.Text

/-- The character is a quote of a text or of a template. -/
def isQuote (q : Char) : Bool := q == '"' || q == '\'' || q.toNat == 0x60

/-- The place behind the literal that the quote `q` opens at the place `b`,
with `r` behind the quote. A template with a substitution is none. -/
def literalEnd? (q : Char) (b : Nat) (r : List Char) : Option Nat :=
  if q == '"' || q == '\'' then
    match quotedUnits q 0 (b + 1) [] r with
    | .ok reading => some reading.stop
    | .error _ => none
  else if q.toNat == 0x60 then
    (templatePiece 0 (b + 1) (.ok []) r).bind fun piece => if piece.value.closed then some piece.stop else none
  else none

/-- The token is a literal that characters spell: a text, or a template without
a substitution. -/
def Token.isSpelled : Token → Bool
  | .text value => value.isSome
  | .template (.ok value) closed => value.isSome && closed
  | _ => false

theorem Token.isQuoted_of_isSpelled {t : Token} (h : t.isSpelled = true) : t.isQuoted = true := by
  cases t with
  | text value => rfl
  | template value closed => rfl
  | _ => exact absurd h (by simp [isSpelled])

/-- Tokens that are not quoted are not spelled. -/
theorem Token.not_isSpelled {t : Token} (h : t.isQuoted = false) : t.isSpelled = false :=
  Bool.eq_false_iff.mpr fun hspelled => absurd (isQuoted_of_isSpelled hspelled) (by simp [h])

section

variable {text : List Char} {n : Nat} {r : List Char}

/-! ## Closing quotes

Both readers of literals are followed up to the character at which they stop.
For a text in quotes that is the quote itself or the end of the line, since the
program takes an unclosed text as if it were closed there and reports it. A
template is closed by its quote or not at all. -/

/-- Right in front of the place `m` stands the quote `q`, not before the place
`n`. -/
def ClosedBy (text : List Char) (q : Char) (n m : Nat) : Prop :=
  ∃ p rest, n ≤ p ∧ m = p + 1 ∧ Stands text p (q :: rest)

/-- A quote that is behind a place is behind all that are in front of it. -/
theorem ClosedBy.widen {q : Char} {m k : Nat} (h : ClosedBy text q m k) (hn : n ≤ m) : ClosedBy text q n k := by
  obtain ⟨p, rest, hle, heq, hstands⟩ := h
  exact ⟨p, rest, Nat.le_trans hn hle, heq, hstands⟩

/-- The line ends in front of what stands there, or the whole text does. -/
def AtLineEnd (rest : List Char) : Prop := ∀ c ∈ rest.head?, c = '\n' ∨ c = '\r'

/-- A text in quotes ends behind a quote, or with its line. -/
theorem closed_of_quotedUnits {q : Char} (k : Nat) (units : List Nat) (h : Stands text n r)
    {x : Reading (List Nat)} (hx : quotedUnits q k n units r = .ok x) :
    ClosedBy text q n x.stop ∨ AtLineEnd x.rest := by
  induction r generalizing k n units with
  | nil =>
    unfold quotedUnits at hx
    obtain rfl := Except.ok.inj hx
    exact .inr (by simp [AtLineEnd])
  | cons c r ih =>
    -- what is read on with does not matter, as long as reading goes on behind
    -- this character
    have hgo (k : Nat) (units : List Nat) {d : Nat} (hd : c.utf8Size = d)
        (hx : quotedUnits q k (n + d) units r = .ok x) : ClosedBy text q n x.stop ∨ AtLineEnd x.rest :=
      (ih k units (hd ▸ h.tail) hx).imp_left fun hclosed => hclosed.widen (Nat.le_add_right n d)
    unfold quotedUnits at hx
    cases k with
    | succ k => exact hgo k units rfl hx
    | zero =>
      dsimp only at hx
      -- a quote closes, a line end stops, a backslash is passed with its
      -- escape, all else is passed
      split at hx
      · rename_i hc
        obtain rfl := Except.ok.inj hx
        exact .inl ⟨n, r, Nat.le_refl n, rfl, eq_of_beq hc ▸ h⟩
      split at hx
      · rename_i hc
        obtain rfl := Except.ok.inj hx
        -- the text ends at a line end without being closed
        refine .inr fun c' hc' => ?_
        obtain rfl : c = c' := by simpa using hc'
        simpa using hc
      split at hx
      · rename_i hc
        split at hx
        · exact hgo _ _ (utf8Size_of_beq hc (by decide)) hx
        · exact absurd hx (by simp)
      · exact hgo 0 _ rfl hx

/-- A template that ends does so behind its quote. -/
theorem closed_of_templatePiece (k : Nat) (units : Except Failure (List Nat)) (h : Stands text n r)
    {x : Reading TemplatePiece} (hx : templatePiece k n units r = some x) (hclosed : x.value.closed = true) :
    ∃ q : Char, q.toNat = 0x60 ∧ ClosedBy text q n x.stop := by
  induction r generalizing k n units with
  | nil =>
    unfold templatePiece at hx
    exact absurd hx (by simp)
  | cons c r ih =>
    -- what is read on with does not matter, as long as reading goes on behind
    -- this character
    have hgo (k : Nat) (units : Except Failure (List Nat)) {d : Nat} (hd : c.utf8Size = d)
        (hx : templatePiece k (n + d) units r = some x) : ∃ q : Char, q.toNat = 0x60 ∧ ClosedBy text q n x.stop := by
      obtain ⟨q, hq, hends⟩ := ih k units (hd ▸ h.tail) hx
      exact ⟨q, hq, hends.widen (Nat.le_add_right n d)⟩
    unfold templatePiece at hx
    cases k with
    | succ k => exact hgo k units rfl hx
    | zero =>
      dsimp only at hx
      -- a quote closes; braces, escapes and line ends are told apart because
      -- they are counted differently
      split at hx
      · rename_i hc
        -- here it is closed; a substitution is met in the next case, and that
        -- closes nothing
        obtain rfl := Option.some.inj hx
        exact ⟨c, eq_of_beq hc, n, r, Nat.le_refl n, rfl, h⟩
      split at hx
      · obtain rfl := Option.some.inj hx
        exact absurd hclosed (by simp)
      split at hx
      · rename_i hc
        have hsize := utf8Size_of_beq hc (by decide)
        split at hx
        · exact hgo _ _ hsize hx
        · exact hgo _ _ hsize hx
      split at hx
      · rename_i hc
        have hsize := utf8Size_of_beq hc (by decide)
        split at hx
        · exact hgo _ _ hsize hx
        · exact hgo _ _ hsize hx
      · exact hgo _ _ rfl hx

/-- **A literal ends right behind the quote that it began with**, or unclosed
with its line. -/
theorem closed_of_literalEnd? {q : Char} {m : Nat} (h : Stands text n (q :: r))
    (hend : literalEnd? q n r = some m) :
    isQuote q = true ∧ n < m ∧ IsBetween text m ∧ (ClosedBy text q (n + 1) m ∨
      q.toNat ≠ 0x60 ∧ ∃ rest, Stands text m rest ∧ AtLineEnd rest) := by
  unfold literalEnd? at hend
  split at hend
  · rename_i hquote
    have hsize : q.utf8Size = 1 :=
      (Bool.or_eq_true_iff.mp hquote).elim (utf8Size_of_beq · (by decide)) (utf8Size_of_beq · (by decide))
    have hbehind := Stands.tail_narrow h hsize
    -- the reader says where it ends, and the lemma on closing says why
    have hstep := inStep_quotedUnits q hsize 0 [] hbehind
    refine ⟨by rw [isQuote, hquote, Bool.true_or], ?_⟩
    split at hend
    · rename_i reading hread
      obtain rfl := Option.some.inj hend
      rw [hread] at hstep
      refine ⟨hstep.2, hstep.1.isBetween, ?_⟩
      refine (closed_of_quotedUnits 0 [] hbehind hread).imp_right fun hline => ⟨?_, _, hstep.1, hline⟩
      rcases Bool.or_eq_true_iff.mp hquote with hq | hq <;> rw [eq_of_beq hq] <;> decide
    · exact absurd hend (by simp)
  · split at hend
    · rename_i hquote
      have hsize := utf8Size_of_toNat hquote (by decide)
      obtain ⟨piece, hread, hpiece⟩ := Option.bind_eq_some_iff.mp hend
      have hstep := inStep_templatePiece 0 (.ok []) (Stands.tail_narrow h hsize)
      refine ⟨by rw [isQuote, hquote, Bool.or_true], ?_⟩
      split at hpiece
      · rename_i hclosed
        obtain rfl := Option.some.inj hpiece
        obtain ⟨hrest, hle⟩ := hstep piece hread
        obtain ⟨q', hq', hends⟩ := closed_of_templatePiece 0 (.ok []) (Stands.tail_narrow h hsize) hread hclosed
        -- the mark that closes is the one that has opened
        have hsame : q' = q := Char.toNat_inj.mp (hq'.trans (eq_of_beq hquote).symm)
        exact ⟨hle, hrest.isBetween, .inl (hsame ▸ hends)⟩
      · exact absurd hpiece (by simp)
    · exact absurd hend (by simp)

/-! ## Tokens

What the lexer says of the end of a token against `literalEnd?`, which only
knows the text from the quote on. The tokens that are no literals drop out by
what they are. -/

/-- **A literal ends where its token ends.** The scanner reads escapes and line
ends as it goes, while `literalEnd?` looks for the quote that closes, and they
stop at the same place. -/
theorem literalEnd?_lexemeAt (strict lineStart : Bool)
    (hspelled : (lexemeAt strict n lineStart r).value.isSpelled = true) :
    ∃ q r', r = q :: r' ∧ literalEnd? q n r' = some (lexemeAt strict n lineStart r).stop := by
  unfold lexemeAt at hspelled ⊢
  cases r with
  | nil => exact absurd hspelled (by simp [Token.isSpelled])
  | cons c r =>
    refine ⟨c, r, rfl, ?_⟩
    dsimp only at hspelled ⊢
    split at hspelled
    · -- a name
      split at hspelled
      · exact absurd hspelled (by simp [Token.not_isSpelled (nameToken_cases strict n c _ _).1])
      · exact absurd hspelled (by simp [Token.isSpelled])
    split at hspelled
    · -- a number
      split at hspelled
      · exact absurd hspelled (by simp [Token.isSpelled])
      · rename_i big _
        split at hspelled
        · exact absurd hspelled (by simp [Token.isSpelled])
        · cases big <;> exact absurd hspelled (by simp [Token.isSpelled])
    -- names and numbers are no literals, so the quote decides
    rename_i hname hnumber
    rw [if_neg hname, if_neg hnumber]
    split at hspelled
    · -- a text
      rename_i hquote
      rw [literalEnd?, if_pos hquote, if_pos hquote]
      split at hspelled
      · rename_i hread
        rw [hread]
      · exact absurd hspelled (by simp [Token.isSpelled])
    split at hspelled
    · -- a template
      rename_i hquote htemplate
      rw [literalEnd?, if_neg hquote, if_neg hquote, if_pos htemplate, if_pos htemplate]
      split at hspelled
      · rename_i piece stop rest hread
        have hclosed : piece.closed = true := by
          revert hspelled
          cases piece.value <;> simp [Token.isSpelled]
        rw [hread, Option.bind_some, if_pos hclosed]
      · exact absurd hspelled (by simp [Token.isSpelled])
    split at hspelled
    · exact absurd hspelled (by simp [Token.isSpelled])
    split at hspelled
    · exact absurd hspelled (by simp [Token.isSpelled])
    · exact absurd hspelled (by simp [Token.isSpelled])

end

/-! ## Stretches of literals

The notion that the claims are stated with. `e.lo` is where the program reports
the literal to begin, `b` is where its quote stands; they differ only behind an
old sign. -/

/-- The stretch is that of a literal. Its quote stands at its beginning, or
behind the gap that an old sign there opens, and it ends where the literal
ends. -/
def Delimited (text : List Char) (e : Extent) : Prop :=
  ∃ b q r, Stands text b (q :: r) ∧ literalEnd? q b r = some e.hi ∧
    e.lo ≤ b ∧ (e.lo = b ∨ OldGap text e.lo b)

end LocaleKeys.Script
