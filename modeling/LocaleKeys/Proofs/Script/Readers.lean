/-
The readers of a script keep count of the bytes.

Every reader is given a place and the text that stands there, and answers with
a place further on and the text behind it. The place and the text go together:
what a reader says to stand at a place does stand there (`Stands`). Most
readers count the bytes of each character that they pass. Where one counts
characters instead, as behind an escape or a number, the characters are narrow:
they take one byte each (`Narrow`).
-/
import LocaleKeys.Proofs.Text.Places
import LocaleKeys.Script.Lexeme

set_option autoImplicit false

namespace LocaleKeys.Script

open LocaleKeys.Text

/-! ## Narrow characters

The program counts bytes in some places and characters in others. Where it
counts characters, they are digits, signs and letters of ASCII. `Narrow k text`
says that the first `k` characters are of this kind, which makes the two counts
one. The lemmas are the ways in which narrow fronts are put together. -/

/-- The first `k` characters of the text take a byte each. -/
def Narrow (k : Nat) (text : List Char) : Prop :=
  k ≤ text.length ∧ ∀ c ∈ text.take k, c.utf8Size = 1

/-- A character of ASCII takes one byte. -/
theorem utf8Size_of_val_le {c : Char} (h : c.val ≤ 127) : c.utf8Size = 1 := Char.utf8Size_eq_one_iff.mpr h

/-- So does whatever was compared with one. -/
theorem utf8Size_of_beq {c d : Char} (h : (c == d) = true) (hd : d.utf8Size = 1) : c.utf8Size = 1 := by
  rw [eq_of_beq h, hd]

theorem utf8Size_of_toNat {c : Char} {n : Nat} (h : (c.toNat == n) = true) (hn : n ≤ 127) : c.utf8Size = 1 := by
  apply utf8Size_of_val_le
  have hc : c.val.toNat = n := eq_of_beq h
  rw [UInt32.le_iff_toNat_le, hc]
  exact hn

/-- Digits are narrow. -/
theorem utf8Size_of_isDigit {c : Char} (h : c.isDigit = true) : c.utf8Size = 1 := by
  unfold Char.isDigit at h
  simp only [Bool.and_eq_true, decide_eq_true_eq, ge_iff_le, UInt32.le_iff_toNat_le] at h
  apply utf8Size_of_val_le
  rw [UInt32.le_iff_toNat_le]
  exact Nat.le_trans h.2 (by decide)

theorem utf8Size_of_le {c d : Char} (h : c ≤ d) (hd : d.val ≤ 127) : c.utf8Size = 1 := by
  apply utf8Size_of_val_le
  rw [Char.le_def, UInt32.le_iff_toNat_le] at h
  rw [UInt32.le_iff_toNat_le] at hd ⊢
  exact Nat.le_trans h hd

/-- Digits of the base sixteen are. -/
theorem utf8Size_of_isHexDigit {c : Char} (h : (hexDigit? c).isSome = true) : c.utf8Size = 1 := by
  unfold hexDigit? at h
  split at h
  · exact utf8Size_of_isDigit ‹_›
  · split at h
    · rename_i hc
      rw [Bool.and_eq_true, decide_eq_true_eq, decide_eq_true_eq] at hc
      exact utf8Size_of_le hc.2 (by decide)
    · split at h
      · rename_i hc
        rw [Bool.and_eq_true, decide_eq_true_eq, decide_eq_true_eq] at hc
        exact utf8Size_of_le hc.2 (by decide)
      · exact absurd h (by decide)

/-- Digits of the base eight are. -/
theorem utf8Size_of_isOctal {c : Char} (h : ('0' ≤ c && c ≤ '7') = true) : c.utf8Size = 1 := by
  rw [Bool.and_eq_true, decide_eq_true_eq, decide_eq_true_eq] at h
  exact utf8Size_of_le h.2 (by decide)

namespace Narrow

variable {text : List Char} {j k n : Nat}

theorem zero (text : List Char) : Narrow 0 text := ⟨Nat.zero_le _, by simp⟩

theorem succ {c : Char} (hc : c.utf8Size = 1) (h : Narrow k text) : Narrow (k + 1) (c :: text) := by
  refine ⟨Nat.succ_le_succ h.1, ?_⟩
  rw [List.take_succ_cons, List.forall_mem_cons]
  exact ⟨hc, h.2⟩

/-- One narrow front behind another. -/
theorem add (hj : Narrow j text) (hk : Narrow k (text.drop j)) : Narrow (j + k) text := by
  have hlength := hk.1
  rw [List.length_drop] at hlength
  refine ⟨by have := hj.1; omega, ?_⟩
  rw [List.take_add]
  intro c hc
  exact (List.mem_append.mp hc).elim (hj.2 c) (hk.2 c)

/-- Characters that are passed over as long as they are narrow. -/
theorem takeWhile {p : Char → Bool} (hp : ∀ c, p c = true → c.utf8Size = 1) (text : List Char) :
    Narrow (text.takeWhile p).length text := by
  induction text with
  | nil => exact zero []
  | cons c text ih =>
    rw [List.takeWhile_cons]
    split
    · rename_i hc
      exact succ (hp c hc) ih
    · exact zero _

/-- A narrow front has as many bytes as characters. -/
theorem byteCount_take (h : Narrow k text) : byteCount (text.take k) = k := by
  induction k generalizing text with
  | zero => rfl
  | succ k ih =>
    cases text with
    | nil => exact absurd h.1 (by simp)
    | cons c text =>
      obtain ⟨hlength, hall⟩ := h
      rw [List.take_succ_cons, List.forall_mem_cons] at hall
      rw [List.take_succ_cons, byteCount_cons, hall.1, ih ⟨Nat.le_of_succ_le_succ hlength, hall.2⟩, Nat.add_comm]

/-- A part of a narrow front is narrow. -/
theorem of_le (h : Narrow k text) (hj : j ≤ k) : Narrow j text := by
  refine ⟨Nat.le_trans hj h.1, fun c hc => h.2 c ?_⟩
  rw [← Nat.min_eq_left hj, ← List.take_take] at hc
  exact List.mem_of_mem_take hc

/-- What is passed over by counting narrow characters may be counted in bytes. -/
theorem stands {whole : List Char} (h : Narrow k text) (hstands : Stands whole n text) :
    Stands whole (n + k) (text.drop k) := by
  have hfurther := @Stands.further whole n (text.drop k) (text.take k)
    ((List.take_append_drop k text).symm ▸ hstands)
  rw [h.byteCount_take] at hfurther
  exact hfurther

end Narrow

/-! ## Escapes

An escape in a text is read from the characters behind the backslash, and
answers with how many of them it took, also where it fails: the fault is
reported at the place that reading had come to. All characters of an escape
that are counted are digits, braces or signs. Other characters behind a
backslash stand for themselves and are counted by the reader of texts, in
bytes. -/

/-- The digits that are taken are narrow. -/
theorem narrow_hexDigits (most : Nat) (text : List Char) : Narrow (hexDigits most text).2 text := by
  induction text generalizing most with
  | nil => exact Narrow.zero []
  | cons c r ih =>
    unfold hexDigits
    split
    · exact Narrow.zero _
    · split
      · rename_i hc
        exact (ih most).succ (utf8Size_of_beq hc (by decide))
      · split
        · rename_i hc
          exact (ih (most - 1)).succ (utf8Size_of_isHexDigit hc)
        · exact Narrow.zero _

/-- The count that an escape answers with, be it of what was read or of what
was read in vain. -/
def countOf {α : Type} : Except (Cause × Nat) (α × Nat) → Nat
  | .ok (_, k) => k
  | .error (_, k) => k

theorem Narrow.one {c : Char} {text : List Char} (hc : c.utf8Size = 1) (h : text.head? = some c) :
    Narrow 1 text := by
  cases text with
  | nil => exact absurd h (by simp)
  | cons c' text =>
    rw [List.head?_cons, Option.some.injEq] at h
    exact succ (h ▸ hc) (zero text)

/-- Four digits, or as many as there are. -/
theorem narrow_fourDigits (text : List Char) : Narrow (countOf (fourDigits text)) text := by
  unfold fourDigits
  dsimp only
  split
  · exact narrow_hexDigits 4 text
  · exact narrow_hexDigits 4 text

/-- Digits in braces, or four digits. -/
theorem narrow_unicodeEscape (text : List Char) : Narrow (countOf (unicodeEscape text)) text := by
  unfold unicodeEscape
  split
  · rename_i r
    have hopened : Narrow ((hexDigits r.length r).2 + 1) ('{' :: r) :=
      (narrow_hexDigits r.length r).succ (by decide)
    dsimp only
    split
    · exact hopened
    split
    · exact hopened
    split
    · rename_i hclosed
      exact hopened.add (Narrow.one (by decide) (eq_of_beq hclosed))
    · exact hopened
  · exact narrow_fourDigits text

/-- One escape, or two that stand for one character. -/
theorem narrow_unicodeUnits (text : List Char) : Narrow (countOf (unicodeUnits text)) text := by
  have hfirst := narrow_unicodeEscape text
  unfold unicodeUnits
  -- the first escape counts, and a second one behind it if they make a pair
  cases hescape : unicodeEscape text with
  | error e =>
    rw [hescape] at hfirst
    exact hfirst
  | ok first =>
    obtain ⟨u, taken⟩ := first
    rw [hescape] at hfirst
    have hfirst : Narrow taken text := hfirst
    dsimp only [bind, Except.bind]
    split
    · rename_i r _ hrest
      -- a pair is two escapes, one behind the other
      have hmore : Narrow (countOf (fourDigits r) + 2) (text.drop taken) := by
        rw [hrest]
        exact ((narrow_fourDigits r).succ (by decide)).succ (by decide)
      have hall := hfirst.add hmore
      rw [← Nat.add_assoc] at hall
      cases hfour : fourDigits r with
      | error e =>
        rw [hfour] at hall
        exact hall
      | ok second =>
        rw [hfour] at hall
        exact hall
    · exact hfirst

/-- A single octal digit. -/
theorem narrow_octalEscape {c : Char} (r : List Char) (hc : ('0' ≤ c && c ≤ '7') = true) :
    Narrow 1 (c :: r) := (Narrow.zero r).succ (utf8Size_of_isOctal hc)

/-- Where an escape fails, what was read of it is narrow. -/
theorem narrow_of_escape {inTemplate : Bool} {text : List Char} {cause : Cause} {taken : Nat}
    (h : escape inTemplate text = .error (cause, taken)) : Narrow taken text := by
  unfold escape at h
  split at h
  case h_1 =>
    obtain ⟨-, rfl⟩ := Prod.mk.inj (Except.error.inj h)
    exact Narrow.zero _
  -- only escapes with digits can fail, and their digits are narrow
  case h_9 r =>
    dsimp only at h
    split at h
    · exact absurd h (by simp)
    · obtain ⟨-, rfl⟩ := Prod.mk.inj (Except.error.inj h)
      exact (narrow_hexDigits 2 r).succ (by decide)
  case h_10 r =>
    have hunits := narrow_unicodeUnits r
    split at h
    · exact absurd h (by simp)
    · rename_i hfail
      rw [hfail] at hunits
      obtain ⟨-, rfl⟩ := Prod.mk.inj (Except.error.inj h)
      exact hunits.succ (by decide)
  case h_11 c r _ _ _ _ _ _ _ _ _ =>
    split at h
    · exact absurd h (by simp)
    split at h
    · rename_i hoctal
      dsimp only at h
      split at h
      · exact absurd h (by simp)
      split at h
      · obtain ⟨-, rfl⟩ := Prod.mk.inj (Except.error.inj h)
        exact narrow_octalEscape r hoctal
      · exact absurd h (by simp)
    · exact absurd h (by simp)
  all_goals exact absurd h (by simp)

/-! ## Numbers

A number is read in one go and answers with its length in characters. It is
made of digits, separators, points and signs. The exponent is the only part
that is cut off from the rest by a choice, so `narrow_decimal` generalizes the
part in front of it before it splits. -/

/-- Digits and separators are narrow. -/
theorem utf8Size_of_digitOrSeparator {c : Char} (h : isDigitOrSeparator c = true) : c.utf8Size = 1 := by
  unfold isDigitOrSeparator at h
  exact (Bool.or_eq_true_iff.mp h).elim utf8Size_of_isDigit fun h => utf8Size_of_beq h (by decide)

/-- The count of a number, or of what was read of it in vain. -/
def numberCount : Except Failure (Nat × Bool) → Nat
  | .ok (k, _) => k
  | .error failure => failure.place

/-- The point and the digits behind it, if there is a point. -/
theorem narrow_fraction (text : List Char) :
    Narrow (if text.head? == some '.' then 1 + ((text.drop 1).takeWhile isDigitOrSeparator).length else 0)
      text := by
  split
  · rename_i hpoint
    exact (Narrow.one (by decide) (eq_of_beq hpoint)).add
      (Narrow.takeWhile (fun _ => utf8Size_of_digitOrSeparator) _)
  · exact Narrow.zero _

/-- The sign of an exponent, if there is one. -/
theorem narrow_sign (text : List Char) :
    Narrow (if text.head? == some '+' || text.head? == some '-' then 1 else 0) text := by
  split
  · rename_i hsign
    rw [Bool.or_eq_true] at hsign
    rcases hsign with hsign | hsign
    · exact Narrow.one (by decide) (eq_of_beq hsign)
    · exact Narrow.one (by decide) (eq_of_beq hsign)
  · exact Narrow.zero _

/-- A number without a base, with its fraction and its exponent. -/
theorem narrow_decimal (text : List Char) : Narrow (numberCount (numberLength.decimal text)) text := by
  have hwhole := Narrow.takeWhile (fun _ => utf8Size_of_digitOrSeparator) text
  have hfraction := narrow_fraction (text.drop (text.takeWhile isDigitOrSeparator).length)
  unfold numberLength.decimal
  dsimp only
  split
  · rename_i h
    rw [Bool.and_eq_true, Bool.and_eq_true] at h
    exact hwhole.add (Narrow.one (by decide) (eq_of_beq h.1.1))
  split
  · exact hwhole
  -- whole part and fraction are counted from here on, however they came about
  generalize (if (text.drop (text.takeWhile isDigitOrSeparator).length).head? == some '.' then
    1 + (((text.drop (text.takeWhile isDigitOrSeparator).length).drop 1).takeWhile isDigitOrSeparator).length
    else 0) = fraction at hfraction ⊢
  replace hfraction := hwhole.add hfraction
  generalize (text.takeWhile isDigitOrSeparator).length = whole at hfraction ⊢
  -- an exponent has a letter, perhaps a sign, and digits; each may be where
  -- reading fails
  split
  · rename_i e r hrest
    split
    · rename_i he
      have hexponent : e.utf8Size = 1 :=
        (Bool.or_eq_true_iff.mp he).elim (utf8Size_of_beq · (by decide)) (utf8Size_of_beq · (by decide))
      have hbehind {k : Nat} (hk : Narrow k r) : Narrow (whole + fraction + 1 + k) text := by
        rw [Nat.add_assoc _ 1, Nat.add_comm 1]
        apply hfraction.add
        rw [← List.drop_drop, hrest]
        exact hk.succ hexponent
      have hsign := narrow_sign r
      generalize (if r.head? == some '+' || r.head? == some '-' then 1 else 0) = sign at hsign ⊢
      split
      · exact hbehind (Narrow.zero r)
      split
      · exact hbehind hsign
      · have hdigits := Narrow.takeWhile (fun _ => utf8Size_of_digitOrSeparator) (r.drop sign)
        exact Nat.add_assoc (whole + fraction + 1) sign _ ▸ hbehind (hsign.add hdigits)
    · exact hfraction
  · exact hfraction

/-- A number with a base, be it read in full or in vain. -/
theorem narrow_based {c : Char} (hc : c.utf8Size = 1) (r : List Char) (base : String) {isDigit : Char → Bool}
    (hdigit : ∀ c, isDigit c = true → c.utf8Size = 1) :
    let digits := r.takeWhile fun c => isDigit c || c == '_'
    Narrow (numberCount (if digits.isEmpty then .error ⟨.digitExpected base, 2⟩
      else if (r.drop digits.length).head? == some 'n' then
        if digits.head? == some '_' then .error ⟨.misplacedSeparator, 2⟩
        else .ok (digits.length + 3, true)
      else .ok (digits.length + 2, false))) ('0' :: c :: r) := by
  intro digits
  have hdigits : Narrow digits.length r := Narrow.takeWhile (fun c hc =>
    (Bool.or_eq_true_iff.mp hc).elim (hdigit c) (utf8Size_of_beq · (by decide))) r
  have hbase {k : Nat} (hk : Narrow k r) : Narrow (k + 2) ('0' :: c :: r) := (hk.succ hc).succ (by decide)
  split
  · exact hbase (Narrow.zero r)
  split
  · rename_i hbig
    split
    · exact hbase (Narrow.zero r)
    · exact hbase (hdigits.add (Narrow.one (by decide) (eq_of_beq hbig)))
  · exact hbase hdigits

/-- **The length of a number is its length in bytes.** The reader counts
characters, and all of them are narrow. -/
theorem narrow_numberLength (text : List Char) : Narrow (numberCount (numberLength text)) text := by
  unfold numberLength
  -- behind a zero a letter may name the base, and the digits of each base are
  -- narrow
  split
  · rename_i c r
    dsimp only [List.drop_succ_cons, List.drop_zero]
    split
    · rename_i hbase
      refine narrow_based ?_ r _ fun c hc => utf8Size_of_isHexDigit hc
      exact (Bool.or_eq_true_iff.mp hbase).elim (utf8Size_of_beq · (by decide)) (utf8Size_of_beq · (by decide))
    split
    · rename_i hbase
      refine narrow_based ?_ r _ fun c hc => utf8Size_of_isOctal hc
      exact (Bool.or_eq_true_iff.mp hbase).elim (utf8Size_of_beq · (by decide)) (utf8Size_of_beq · (by decide))
    split
    · rename_i hbase
      refine narrow_based ?_ r _ fun c hc => ?_
      · exact (Bool.or_eq_true_iff.mp hbase).elim (utf8Size_of_beq · (by decide)) (utf8Size_of_beq · (by decide))
      · exact (Bool.or_eq_true_iff.mp hc).elim (utf8Size_of_beq · (by decide)) (utf8Size_of_beq · (by decide))
    · exact narrow_decimal _
  · exact narrow_decimal _

/-! ## Blanks, names and texts

These readers go over the text character by character, with a count of
characters that are to be passed without being looked at. Each proof has the
shape of the reader: by induction on the text, with one local lemma (`hgo`)
that carries the statement over a character of any width, and then the reader's
own cases, of which all but the ends go on.

Old forms of comments are the exception. The token behind one counts as
beginning at the sign, so that it is kept which sign that was (`OldGap`). -/

section

variable {text : List Char} {n : Nat} {r : List Char}

theorem Stands.tail_narrow {c : Char} (h : Stands text n (c :: r)) (hc : c.utf8Size = 1) :
    Stands text (n + 1) r := hc ▸ h.tail

/-- With what the old forms of a comment begin, and the line between the sides
of a merge. -/
def oldSigns : List String := ["<!--", "-->", "======="]

/-- One of the old signs stands at the place. The token behind what it opens
counts as beginning there. -/
def OldSign (text : List Char) (n : Nat) : Prop :=
  ∃ sign ∈ oldSigns, ∃ behind, Stands text n (sign.toList ++ behind)

/-- A sign stands between characters. -/
theorem OldSign.isBetween (h : OldSign text n) : IsBetween text n := by
  obtain ⟨_, -, _, hstands⟩ := h
  exact hstands.isBetween

/-- A sign is recognised by its first character and what follows it. -/
theorem OldSign.intro {c d : Char} {sign : String} (h : Stands text n (c :: r)) (hc : (c == d) = true)
    (hr : sign.toList.isPrefixOf r = true) (hsign : String.ofList (d :: sign.toList) ∈ oldSigns) : OldSign text n := by
  obtain ⟨behind, rfl⟩ := List.isPrefixOf_iff_prefix.mp hr
  refine ⟨_, hsign, behind, ?_⟩
  rw [String.toList_ofList, List.cons_append, ← eq_of_beq hc]
  exact h

/-- An old sign stands at the place, and what is skipped from there on ends at
the place `b`. -/
def OldGap (text : List Char) (n b : Nat) : Prop :=
  OldSign text n ∧ ∃ inType s r, Stands text n r ∧ (skipGap inType 0 .blank n s r).stop = b

/-- A gap ends where it says, and the opening of the token behind it is an old
sign in the gap. -/
theorem stands_skipGap (inType : Bool) (k : Nat) (gap : Gap) (s : Skipped) {m : Nat} (hm : m ≤ n)
    (h : Stands text n r) {g : Reading Skipped} (hg : skipGap inType k gap n s r = g)
    (hs : ∀ p ∈ s.opening, m ≤ p ∧ p ≤ n ∧ OldGap text p g.stop) :
    Stands text g.stop g.rest ∧ n ≤ g.stop ∧
      ∀ p ∈ g.value.opening, m ≤ p ∧ p ≤ g.stop ∧ OldGap text p g.stop := by
  induction r generalizing k gap n s with
  -- the end of the text ends any gap
  | nil =>
    cases k <;> cases gap <;> (subst hg; exact ⟨h, Nat.le_refl _, hs⟩)
  | cons c r ih =>
    have hpos := c.utf8Size_pos
    -- what a step goes on with is said by the induction from the place behind
    -- the character
    have hgo (k : Nat) (gap : Gap) (s : Skipped) (hs : ∀ p ∈ s.opening, m ≤ p ∧ p ≤ n ∧ OldGap text p g.stop)
        {d : Nat} (hd : c.utf8Size = d) (hg : skipGap inType k gap (n + d) s r = g) :
        Stands text g.stop g.rest ∧ n ≤ g.stop ∧
          ∀ p ∈ g.value.opening, m ≤ p ∧ p ≤ g.stop ∧ OldGap text p g.stop := by
      obtain ⟨hstands, hle, hopening⟩ := ih k gap s (Nat.le_trans hm (Nat.le_add_right n d)) (hd ▸ h.tail) hg
        fun p hp => ⟨(hs p hp).1, Nat.le_trans (hs p hp).2.1 (Nat.le_add_right n d), (hs p hp).2.2⟩
      exact ⟨hstands, Nat.le_trans (Nat.le_add_right n d) hle, hopening⟩
    have hopens (hold : OldGap text n g.stop) :
        ∀ p ∈ (s.opensAt n).opening, m ≤ p ∧ p ≤ n ∧ OldGap text p g.stop := by
      intro p hp
      cases hopening : s.opening with
      | none =>
        rw [Skipped.opensAt, hopening] at hp
        obtain rfl := Option.some.inj hp
        exact ⟨hm, Nat.le_refl _, hold⟩
      | some q =>
        rw [Skipped.opensAt, hopening] at hp
        exact hs p (hopening ▸ hp)
    have hwhole := hg
    unfold skipGap at hg
    cases k with
    | succ k => exact hgo k gap s hs rfl hg
    | zero =>
      cases gap with
      | blank =>
        -- at an old sign, what is skipped from there on is what is skipped
        -- from here on
        have hgap : ∃ inType s r, Stands text n r ∧ (skipGap inType 0 .blank n s r).stop = g.stop :=
          ⟨inType, s, c :: r, h, hwhole ▸ rfl⟩
        dsimp only at hg
        split at hg
        · exact hgo 0 .blank { s with broke := true } hs rfl hg
        split at hg
        · exact hgo 0 .blank s hs rfl hg
        split at hg
        · rename_i hc
          exact hgo 1 .lineComment _ hs (utf8Size_of_beq (Bool.and_eq_true_iff.mp hc).1 (by decide)) hg
        split at hg
        · rename_i hc
          exact hgo 1 .blockComment _ hs (utf8Size_of_beq (Bool.and_eq_true_iff.mp hc).1 (by decide)) hg
        split at hg
        · rename_i hc
          rw [Bool.and_eq_true, Bool.and_eq_true] at hc
          have hold : OldSign text n := .intro h hc.1.1 hc.2 (by decide)
          exact hgo 3 .lineComment _ (hopens ⟨hold, hgap⟩) (utf8Size_of_beq hc.1.1 (by decide)) hg
        split at hg
        · rename_i hc
          rw [Bool.and_eq_true, Bool.and_eq_true] at hc
          have hold : OldSign text n := .intro h hc.1.1 hc.2 (by decide)
          exact hgo 2 .lineComment _ (hopens ⟨hold, hgap⟩) (utf8Size_of_beq hc.1.1 (by decide)) hg
        split at hg
        · rename_i hc
          rw [Bool.and_eq_true, Bool.and_eq_true] at hc
          have hold : OldSign text n := .intro h hc.1.1 hc.2 (by decide)
          exact hgo 6 .lineComment _ (hopens ⟨hold, hgap⟩) (utf8Size_of_beq hc.1.1 (by decide)) hg
        · subst hg
          exact ⟨h, Nat.le_refl _, hs⟩
      | lineComment =>
        dsimp only at hg
        split at hg
        · exact hgo 0 .blank { s with broke := true } hs rfl hg
        · exact hgo 0 .lineComment s hs rfl hg
      | blockComment =>
        dsimp only at hg
        split at hg
        · rename_i hc
          exact hgo 1 .blank _ hs (utf8Size_of_beq (Bool.and_eq_true_iff.mp hc).1 (by decide)) hg
        · exact hgo 0 .blockComment { s with broke := s.broke || isLineBreak c } hs rfl hg

/-- A reader that starts at the place `n` has come to a place further on. -/
def Reading.InStep {α : Type} (text : List Char) (n : Nat) (x : Reading α) : Prop :=
  Stands text x.stop x.rest ∧ n ≤ x.stop

/-- The same, of a reader that may have failed there. -/
def InStepEither {α β : Type} (text : List Char) (n : Nat) : Except (Reading α) (Reading β) → Prop
  | .ok x => x.InStep text n
  | .error x => x.InStep text n

theorem inStep_readName (k : Nat) (name : List Char) (escaped : Bool) (h : Stands text n r) :
    InStepEither text n (readName k n name escaped r) := by
  induction r generalizing k n name escaped with
  | nil =>
    unfold readName
    exact ⟨h, Nat.le_refl n⟩
  | cons c r ih =>
    -- whatever the name is by now, reading on keeps in step
    have hgo (k : Nat) (name : List Char) (escaped : Bool) {d : Nat} (hd : c.utf8Size = d) :
        InStepEither text n (readName k (n + d) name escaped r) := by
      have hstep := ih k name escaped (hd ▸ h.tail)
      cases hread : readName k (n + d) name escaped r with
      | ok x =>
        rw [hread] at hstep
        exact ⟨hstep.1, Nat.le_trans (Nat.le_add_right n d) hstep.2⟩
      | error x =>
        rw [hread] at hstep
        exact ⟨hstep.1, Nat.le_trans (Nat.le_add_right n d) hstep.2⟩
    unfold readName
    cases k with
    | succ k => exact hgo k name escaped rfl
    | zero =>
      dsimp only
      split
      · exact hgo 0 _ _ rfl
      split
      · rename_i hc
        have hsize := utf8Size_of_beq hc (by decide)
        have htail := Stands.tail_narrow h hsize
        split
        · rename_i r'
          split
          · exact hgo _ _ _ hsize
          · rename_i cause taken hfail
            have hnarrow := narrow_unicodeEscape r'
            rw [hfail] at hnarrow
            refine ⟨?_, ?_⟩
            · exact hnarrow.stands (Stands.tail_narrow htail (by decide))
            · show n ≤ n + 2 + taken
              omega
        · exact ⟨htail, Nat.le_add_right n 1⟩
      · exact ⟨h, Nat.le_refl n⟩

/-- A text in quotes ends where it says, be it closed or not. -/
theorem inStep_quotedUnits (quote : Char) (hquote : quote.utf8Size = 1) (k : Nat) (units : List Nat)
    (h : Stands text n r) : InStepEither text n (quotedUnits quote k n units r) := by
  induction r generalizing k n units with
  | nil =>
    unfold quotedUnits
    exact ⟨h, Nat.le_refl n⟩
  | cons c r ih =>
    -- what is said of the rest holds of the whole, one character earlier
    have hgo (k : Nat) (units : List Nat) {d : Nat} (hd : c.utf8Size = d) :
        InStepEither text n (quotedUnits quote k (n + d) units r) := by
      have hstep := ih k units (hd ▸ h.tail)
      cases hread : quotedUnits quote k (n + d) units r with
      | ok x =>
        rw [hread] at hstep
        exact ⟨hstep.1, Nat.le_trans (Nat.le_add_right n d) hstep.2⟩
      | error x =>
        rw [hread] at hstep
        exact ⟨hstep.1, Nat.le_trans (Nat.le_add_right n d) hstep.2⟩
    unfold quotedUnits
    cases k with
    | succ k => exact hgo k units rfl
    | zero =>
      dsimp only
      split
      · rename_i hc
        exact ⟨Stands.tail_narrow h (utf8Size_of_beq hc hquote), Nat.le_add_right n 1⟩
      split
      · exact ⟨h, Nat.le_refl n⟩
      split
      · rename_i hc
        have hsize := utf8Size_of_beq hc (by decide)
        split
        · exact hgo _ _ hsize
        · rename_i hfail
          exact ⟨(narrow_of_escape hfail).stands (Stands.tail_narrow h hsize), by
            show n ≤ n + 1 + _
            omega⟩
      · exact hgo 0 _ rfl

/-- So does a piece of a template. -/
theorem inStep_templatePiece (k : Nat) (units : Except Failure (List Nat)) (h : Stands text n r) :
    ∀ x ∈ templatePiece k n units r, x.InStep text n := by
  induction r generalizing k n units with
  | nil =>
    unfold templatePiece
    simp
  | cons c r ih =>
    -- what is said of the rest holds of the whole, one character earlier
    have hgo (k : Nat) (units : Except Failure (List Nat)) {d : Nat} (hd : c.utf8Size = d) :
        ∀ x ∈ templatePiece k (n + d) units r, x.InStep text n := fun x hx =>
      let hstep := ih k units (hd ▸ h.tail) x hx
      ⟨hstep.1, Nat.le_trans (Nat.le_add_right n d) hstep.2⟩
    unfold templatePiece
    cases k with
    | succ k => exact hgo k units rfl
    | zero =>
      dsimp only
      split
      · rename_i hc
        intro x hx
        obtain rfl := Option.some.inj hx
        exact ⟨Stands.tail_narrow h (utf8Size_of_toNat hc (by decide)), Nat.le_add_right n 1⟩
      split
      · rename_i hc
        intro x hx
        obtain rfl := Option.some.inj hx
        obtain ⟨hdollar, hbrace⟩ := Bool.and_eq_true_iff.mp hc
        have htail := Stands.tail_narrow h (utf8Size_of_beq hdollar (by decide))
        exact ⟨(Narrow.one (by decide) (eq_of_beq hbrace)).stands htail, Nat.le_add_right n 2⟩
      split
      · rename_i hc
        have hsize := utf8Size_of_beq hc (by decide)
        split
        · exact hgo _ _ hsize
        · exact hgo _ _ hsize
      split
      · rename_i hc
        have hsize := utf8Size_of_beq hc (by decide)
        split
        · exact hgo _ _ hsize
        · exact hgo _ _ hsize
      · exact hgo _ _ rfl

/-- And a regular expression, if it ends at all. -/
theorem inStep_regexpEnd (escaped inClass : Bool) (h : Stands text n r) :
    ∀ x ∈ regexpEnd escaped inClass n r, Stands text x.1 x.2 ∧ n ≤ x.1 := by
  induction r generalizing escaped inClass n with
  | nil =>
    unfold regexpEnd
    simp
  | cons c r ih =>
    -- what is said of the rest holds of the whole, one character earlier
    have hgo (escaped inClass : Bool) {d : Nat} (hd : c.utf8Size = d) :
        ∀ x ∈ regexpEnd escaped inClass (n + d) r, Stands text x.1 x.2 ∧ n ≤ x.1 := fun x hx =>
      let hstep := ih escaped inClass (hd ▸ h.tail) x hx
      ⟨hstep.1, Nat.le_trans (Nat.le_add_right n d) hstep.2⟩
    unfold regexpEnd
    split
    · simp
    split
    · exact hgo _ _ rfl
    split
    · exact hgo _ _ (utf8Size_of_beq ‹_› (by decide))
    split
    · exact hgo _ _ (utf8Size_of_beq ‹_› (by decide))
    split
    · exact hgo _ _ (utf8Size_of_beq ‹_› (by decide))
    split
    · rename_i hc
      intro x hx
      obtain rfl := Option.some.inj hx
      exact ⟨Stands.tail_narrow h (utf8Size_of_beq (Bool.and_eq_true_iff.mp hc).1 (by decide)),
        Nat.le_add_right n 1⟩
    · exact hgo _ _ rfl

/-! ## Tokens

All readers of one token, chosen by its first character. Besides the place
where it ends, two things are kept for the rules. A token in quotes and a mark
are not empty, so that there is room between two literals. And a mark begins
with a narrow character, so that it may be split in two. -/

/-- Marks are spelled by narrow characters. -/
theorem all_spelling (m : Mark) : (m.spelling.toList.all fun c => c.utf8Size == 1) = true := by
  cases m <;> decide +kernel

theorem length_spelling_pos (m : Mark) : 0 < m.spelling.length := by
  cases m <;> decide +kernel

/-- A mark that stands in the text is narrow. -/
theorem narrow_mark {m : Mark} (h : Mark.ofText? r = some m) : Narrow m.spelling.length r := by
  have hfound := List.find?_some h
  obtain ⟨rest, rfl⟩ := List.isPrefixOf_iff_prefix.mp hfound
  rw [← String.length_toList]
  refine ⟨by simp, ?_⟩
  rw [List.take_left]
  intro c hc
  exact eq_of_beq (List.all_eq_true.mp (all_spelling m) c hc)

/-- The token is a text or a part of a template. -/
def Token.isQuoted : Token → Bool
  | .text _ | .template _ _ => true
  | _ => false

/-- What is passed over as long as it is of a kind may be counted in bytes. -/
theorem stands_dropWhile (p : Char → Bool) (h : Stands text n r) :
    Stands text (n + byteCount (r.takeWhile p)) (r.drop (r.takeWhile p).length) := by
  have hsplit : r.takeWhile p ++ r.dropWhile p = r := List.takeWhile_append_dropWhile
  generalize r.takeWhile p = front at hsplit ⊢
  rw [← hsplit] at h ⊢
  rw [List.drop_left]
  exact h.further

/-- The token was read at the place `n`, where `r` stands. Texts, templates and
marks are not empty, and a mark begins with a narrow character. -/
structure Lexeme.Fits (text : List Char) (n : Nat) (r : List Char) (x : Lexeme) : Prop where
  inStep : x.InStep text n
  quoted : x.value.isQuoted = true → n < x.stop
  marked : ∀ m, x.value = .mark m → Narrow 1 r ∧ n < x.stop

/-- Most tokens are neither quoted nor marks. -/
theorem Lexeme.Fits.plain {x : Lexeme} (h : x.InStep text n) (hquoted : x.value.isQuoted = false)
    (hmarked : ∀ m, x.value ≠ .mark m) : Lexeme.Fits text n r x :=
  ⟨h, fun hq => absurd hq (by simp [hquoted]), fun m hm => absurd hm (hmarked m)⟩

/-- Names and words are neither quoted nor marks. -/
theorem nameToken_cases (strict : Bool) (place : Nat) (first : Char) (name : String) (escaped : Bool) :
    (nameToken strict place first name escaped).isQuoted = false ∧
      ∀ m, nameToken strict place first name escaped ≠ .mark m := by
  unfold nameToken
  split
  · exact ⟨rfl, by simp⟩
  split
  · exact ⟨rfl, by simp⟩
  · exact ⟨rfl, by simp⟩

/-- **A token ends where it says.** Its end is between characters, and behind
it stands the rest that the next token is read from. -/
theorem fits_lexemeAt (strict lineStart : Bool) (h : Stands text n r) :
    (lexemeAt strict n lineStart r).Fits text n r := by
  unfold lexemeAt
  cases r with
  | nil => exact .plain ⟨h, Nat.le_refl n⟩ rfl (by simp)
  | cons c r =>
    dsimp only
    split
    · -- a name
      have hname := inStep_readName 0 [] false h
      split
      · rename_i hread
        rw [hread] at hname
        obtain ⟨hquoted, hmarked⟩ := nameToken_cases strict n c _ _
        exact .plain hname hquoted hmarked
      · rename_i hread
        rw [hread] at hname
        exact .plain hname rfl (by simp)
    split
    · -- a number
      have hnumber := narrow_numberLength (c :: r)
      split
      · rename_i hread
        rw [hread] at hnumber
        exact .plain ⟨hnumber.stands h, Nat.le_add_right _ _⟩ rfl (by simp)
      · rename_i k big hread
        rw [hread] at hnumber
        split
        · exact .plain ⟨hnumber.stands h, Nat.le_add_right _ _⟩ rfl (by simp)
        · cases big with
          | true => exact .plain ⟨hnumber.stands h, Nat.le_add_right _ _⟩ rfl (by simp)
          | false => exact .plain ⟨hnumber.stands h, Nat.le_add_right _ _⟩ rfl (by simp)
    split
    · -- a text
      rename_i hquote
      have hsize : c.utf8Size = 1 :=
        (Bool.or_eq_true_iff.mp hquote).elim (utf8Size_of_beq · (by decide)) (utf8Size_of_beq · (by decide))
      have htext := inStep_quotedUnits c hsize 0 [] (Stands.tail_narrow h hsize)
      split
      · rename_i hread
        rw [hread] at htext
        exact ⟨⟨htext.1, Nat.le_of_succ_le htext.2⟩, fun _ => htext.2, by simp⟩
      · rename_i hread
        rw [hread] at htext
        exact .plain ⟨htext.1, Nat.le_of_succ_le htext.2⟩ rfl (by simp)
    split
    · -- a template
      rename_i hquote
      have htail := Stands.tail_narrow h (utf8Size_of_toNat hquote (by decide))
      have hpiece := inStep_templatePiece 0 (.ok []) htail
      split
      · rename_i hread
        obtain ⟨hstands, hle⟩ := hpiece _ hread
        exact ⟨⟨hstands, Nat.le_of_succ_le hle⟩, fun _ => hle, by simp⟩
      · refine .plain ⟨?_, ?_⟩ rfl (by simp)
        · exact @Stands.further text (n + 1) [] r (by rw [List.append_nil]; exact htail)
        · show n ≤ n + 1 + byteCount r
          omega
    split
    · -- the side of a merge
      exact .plain ⟨stands_dropWhile _ h, Nat.le_add_right _ _⟩ rfl (by simp)
    split
    · rename_i m hmark
      have hnarrow := narrow_mark hmark
      exact ⟨⟨hnarrow.stands h, Nat.le_add_right _ _⟩, by simp [Token.isQuoted],
        fun _ _ => ⟨hnarrow.of_le (length_spelling_pos m), Nat.lt_add_of_pos_right (length_spelling_pos m)⟩⟩
    · exact .plain ⟨h.tail, Nat.le_add_right _ _⟩ rfl (by simp)

end

end LocaleKeys.Script
