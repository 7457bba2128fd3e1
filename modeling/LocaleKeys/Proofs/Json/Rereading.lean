/-
Reading what was written.

A text that was written for a value is read as that value, in either layout and
whatever stands behind it, as long as no number could go on there
(`reads_written`). Only values that a text can hold come back: their numbers
are whole and have 64 bits, no object has two members of one name, and they are
not nested too deeply (`Plain`).

The readers count the bytes that they pass, for the sake of their faults. Where
nothing goes wrong the count does not matter, so what a reader does with a text
is said without it (`Reads`). Lists and objects are taken in item by item, and
what is said about them holds for every reader of items (`reads_elements`) and
for every way of taking in members (`reads_members`).
-/
import LocaleKeys.Json.Writer
import LocaleKeys.Proofs.Json.Children

set_option autoImplicit false

namespace LocaleKeys.Json

/-! ## What a reader does with a text

`Reads reader text a` quantifies over what is behind the text and over where it
stands. The only thing asked of what is behind is that a number does not go on
there, and both commas and brackets see to that, with or without blanks in
front (`delimited_blanks`). A text that is read in this way may be put in front
of another one, which is what all the steps below do. -/

/-- No number goes on with this text. -/
def Delimited (rest : List Char) : Prop :=
  ∀ c ∈ rest.head?, c.isDigit = false ∧ c ≠ '.' ∧ c ≠ 'e' ∧ c ≠ 'E'

/-- The reader takes in the text, wherever it stands and whatever is behind it,
and what comes out is `a`. -/
def Reads {α : Type} (reader : Stand → Except Fault (α × Stand)) (text : List Char) (a : α) : Prop :=
  ∀ (rest : List Char) (i : Nat), Delimited rest →
    ∃ j, reader ⟨text ++ rest, i⟩ = .ok (a, ⟨rest, j⟩)

/-- The text begins as a value does that may stand in a list. -/
def Opens (text : List Char) : Prop := ∃ c r, text = c :: r ∧ isBlank c = false ∧ c ≠ ']'

theorem delimited_nil : Delimited [] := by simp [Delimited]

/-- No number goes on where a comma or a closing bracket follows, perhaps
behind blanks. -/
theorem delimited_blanks {blanks : List Char} (hblanks : ∀ c ∈ blanks, isBlank c = true) {c : Char}
    {r : List Char} (hc : c = ',' ∨ c = ']' ∨ c = '}') : Delimited (blanks ++ c :: r) := by
  intro c' hc'
  -- what comes first is the comma or bracket, or the first of the blanks
  cases blanks with
  | nil =>
    obtain rfl : c = c' := by simpa using hc'
    rcases hc with rfl | rfl | rfl <;> decide
  | cons b bs =>
    obtain rfl : b = c' := by simpa using hc'
    have hb := hblanks b List.mem_cons_self
    simp only [isBlank, Bool.or_eq_true, beq_iff_eq] at hb
    rcases hb with ((rfl | rfl) | rfl) | rfl <;> decide

/-- Whatever is made of a result afterwards, the text is read all the same. -/
theorem Reads.map {α β : Type} {reader : Stand → Except Fault (α × Stand)} {text : List Char} {a : α}
    (h : Reads reader text a) (f : α → β) :
    Reads (fun s => (reader s).map fun (a, s) => (f a, s)) text (f a) := by
  intro rest i hrest
  obtain ⟨j, hj⟩ := h rest i hrest
  refine ⟨j, ?_⟩
  show (reader ⟨text ++ rest, i⟩).map _ = _
  rw [hj]
  rfl

/-- Blanks in front of what is neither a blank nor the end are passed over. -/
theorem skipBlanks_append {blanks : List Char} (hblanks : ∀ c ∈ blanks, isBlank c = true) {c : Char}
    (hc : isBlank c = false) (r : List Char) (i : Nat) :
    (Stand.mk (blanks ++ c :: r) i).skipBlanks = ⟨c :: r, i + blanks.length⟩ := by
  have htake : (blanks ++ c :: r).takeWhile isBlank = blanks := by
    rw [List.takeWhile_append_of_pos hblanks, List.takeWhile_cons_of_neg (by simp [hc]),
      List.append_nil]
  rw [Stand.skipBlanks, htake, Stand.drop, List.drop_left]

theorem skipBlanks_cons {c : Char} (hc : isBlank c = false) (r : List Char) (i : Nat) :
    (Stand.mk (c :: r) i).skipBlanks = ⟨c :: r, i⟩ :=
  @skipBlanks_append [] (fun _ h => absurd h List.not_mem_nil) c hc r i

/-! ## Strings

The reader of strings goes over the characters with a count of those to be left
out, because an escape is read where its backslash stands and takes up several
characters. So the induction over a string needs what one character does: it is
written as itself, or as an escape that `escaped` reads as it (`escape_cases`),
and in both cases reading goes on behind what was written
(`stringFrom_escape`). -/

/-- Characters that belong to an escape are left out. -/
theorem stringFrom_skip (l r : List Char) (done : List Char) (i : Nat) :
    stringFrom l.length done i (l ++ r) = stringFrom 0 done (i + l.length) r := by
  induction l generalizing i with
  | nil => rfl
  | cons c l ih =>
    rw [List.cons_append, List.length_cons, stringFrom, ih]
    congr 1
    omega

/-- A hexadecimal digit is read as what it was written for. -/
theorem hexDigit?_hexDigit {n : Nat} (h : n < 16) : hexDigit? (hexDigit n) = some n := by
  have hall : ∀ n < 16, hexDigit? (hexDigit n) = some n := by decide
  exact hall n h

/-- A control character is spelled with four hexadecimal digits, and they are
read as it. -/
theorem escaped_control {c : Char} (hc : c.toNat < 0x20) (r : List Char) (i : Nat) :
    escaped ⟨'u' :: '0' :: '0' :: hexDigit (c.toNat / 16) :: hexDigit (c.toNat % 16) :: r, i⟩
      = .ok (c, 5) := by
  -- two zeros and the two digits are the number of the character, as it is
  -- below 32
  have hfour : fourHexDigits
      ⟨'0' :: '0' :: hexDigit (c.toNat / 16) :: hexDigit (c.toNat % 16) :: r, i + 1⟩ = .ok c.toNat := by
    have hzero : hexDigit? '0' = some 0 := by decide
    simp only [fourHexDigits, List.take_succ_cons, List.take_zero, List.filterMap_cons, hzero,
      hexDigit?_hexDigit (show c.toNat / 16 < 16 by omega),
      hexDigit?_hexDigit (show c.toNat % 16 < 16 by omega), List.filterMap_nil]
    congr 1
    omega
  -- such a number is no half of a surrogate pair, so that four digits are
  -- enough
  have hunicode : unicodeEscape
      ⟨'0' :: '0' :: hexDigit (c.toNat / 16) :: hexDigit (c.toNat % 16) :: r, i + 1⟩ = .ok (c, 4) := by
    rw [unicodeEscape, hfour]
    simp only [bind, Except.bind]
    rw [if_neg (by simp; omega), if_neg (by simp; omega), Char.ofNat_toNat]
    rfl
  show (unicodeEscape _).map _ = _
  rw [Stand.drop]
  show (unicodeEscape ⟨'0' :: '0' :: hexDigit (c.toNat / 16) :: hexDigit (c.toNat % 16) :: r, i + 1⟩).map _
    = _
  rw [hunicode]
  rfl

/-- A character is written as itself, or behind a backslash as what is read as
it. -/
theorem escape_cases (c : Char) :
    (escape c = [c] ∧ c ≠ '"' ∧ c ≠ '\\' ∧ 0x20 ≤ c.toNat) ∨
    ∃ l, escape c = '\\' :: l ∧ ∀ r i, escaped ⟨l ++ r, i⟩ = .ok (c, l.length) := by
  rw [escape]
  -- the quote, the backslash, and the five characters with a letter of their
  -- own
  split
  · rename_i h
    obtain rfl := eq_of_beq h
    exact .inr ⟨_, rfl, fun _ _ => rfl⟩
  split
  · rename_i h
    obtain rfl := eq_of_beq h
    exact .inr ⟨_, rfl, fun _ _ => rfl⟩
  split
  · rename_i h
    obtain rfl := eq_of_beq h
    exact .inr ⟨_, rfl, fun _ _ => rfl⟩
  split
  · rename_i h
    obtain rfl := eq_of_beq h
    exact .inr ⟨_, rfl, fun _ _ => rfl⟩
  split
  · rename_i h
    obtain rfl := eq_of_beq h
    exact .inr ⟨_, rfl, fun _ _ => rfl⟩
  split
  · rename_i h
    obtain rfl : c = '\x08' := Char.toNat_inj.mp (eq_of_beq h)
    exact .inr ⟨_, rfl, fun _ _ => rfl⟩
  split
  · rename_i h
    obtain rfl : c = '\x0c' := Char.toNat_inj.mp (eq_of_beq h)
    exact .inr ⟨_, rfl, fun _ _ => rfl⟩
  split
  · rename_i h
    exact .inr ⟨_, rfl, fun r i => escaped_control h r i⟩
  · rename_i hquote hback _ _ _ _ _ hcontrol
    exact .inl ⟨rfl, by simpa using hquote, by simpa using hback, by omega⟩

/-- What is written for a character is read as it, and reading goes on behind. -/
theorem stringFrom_escape (c : Char) (done : List Char) (i : Nat) (r : List Char) :
    ∃ j, stringFrom 0 done i (escape c ++ r) = stringFrom 0 (c :: done) j r := by
  rcases escape_cases c with ⟨hself, hquote, hback, hcontrol⟩ | ⟨l, hl, hescaped⟩
  · refine ⟨i + c.utf8Size, ?_⟩
    rw [hself, List.singleton_append, stringFrom, if_neg (by simpa using hquote),
      if_neg (by simpa using hback), if_neg (by omega)]
  · refine ⟨i + 1 + l.length, ?_⟩
    rw [hl, List.cons_append, stringFrom, if_neg (by decide), if_pos (by decide), hescaped]
    exact stringFrom_skip l r (c :: done) (i + 1)

/-- All characters of a string are read, one after the other, up to the closing
quote. The induction is on the string, with what was read so far kept in
reverse. -/
theorem stringFrom_flatMap_escape (cs : List Char) (done : List Char) (i : Nat) (rest : List Char) :
    ∃ j, stringFrom 0 done i (cs.flatMap escape ++ '"' :: rest)
      = .ok (String.ofList (done.reverse ++ cs), ⟨rest, j⟩) := by
  induction cs generalizing done i with
  | nil => exact ⟨i + 1, by rw [List.append_nil]; rfl⟩
  | cons c cs ih =>
    obtain ⟨i', hi'⟩ := stringFrom_escape c done i (cs.flatMap escape ++ '"' :: rest)
    obtain ⟨j, hj⟩ := ih (c :: done) i'
    refine ⟨j, ?_⟩
    rw [List.flatMap_cons, List.append_assoc, hi', hj, List.reverse_cons, List.append_assoc,
      List.singleton_append]

/-- **The text of a string is read as the string**, whatever its characters
are. Each character is escaped by itself and read back by itself, and the quote
that closes is not escaped. -/
theorem stringFrom_quoted (s : String) (i : Nat) (rest : List Char) :
    ∃ j, stringFrom 0 [] i (s.toList.flatMap escape ++ '"' :: rest) = .ok (s, ⟨rest, j⟩) := by
  obtain ⟨j, hj⟩ := stringFrom_flatMap_escape s.toList [] i rest
  exact ⟨j, by rw [hj, List.reverse_nil, List.nil_append, String.ofList_toList]⟩

/-- A quoted text is an opening quote, its characters, and a closing quote. -/
theorem quoted_append (s : String) (rest : List Char) :
    quoted s ++ rest = '"' :: (s.toList.flatMap escape ++ '"' :: rest) := by
  simp [quoted]

/-! ## Numbers

Digits are written from the last one by division, and read from the first one
by multiplication, with a check that the number still fits. `addDigits_concat`
takes the step of reading at the other end, so that the induction can follow
the writing (`addDigits_toDigits`).

A whole number that is written does not begin with a zero, unless it is zero,
and no point or exponent follows it. These two facts rule out the other
branches of the reader. -/

/-- All digits are taken in where the number still fits with them. -/
theorem addDigits_concat {n m : Nat} {l : List Char} {c : Char} (h : addDigits n l = (m, l.length))
    (hfits : m * 10 + (c.toNat - '0'.toNat) ≤ greatestInteger) :
    addDigits n (l ++ [c]) = (m * 10 + (c.toNat - '0'.toNat), (l ++ [c]).length) := by
  induction l generalizing n with
  | nil =>
    obtain ⟨rfl, -⟩ := Prod.mk.inj h
    rw [List.nil_append, addDigits, if_neg (by omega)]
    rfl
  | cons d l ih =>
    rw [addDigits] at h
    split at h
    · exact absurd (Prod.mk.inj h).2 (by simp)
    · rename_i hd
      obtain ⟨hm, hk⟩ := Prod.mk.inj h
      have hrest : addDigits (n * 10 + (d.toNat - '0'.toNat)) l = (m, l.length) :=
        Prod.ext hm (by simpa using hk)
      rw [List.cons_append, addDigits, if_neg hd, ih hrest]
      rfl

/-- The value of a digit is what it was written for. -/
theorem digitChar_value {d : Nat} (h : d < 10) : d.digitChar.toNat - '0'.toNat = d := by
  rw [Nat.toNat_digitChar_of_lt_ten h]
  show 48 + d - 48 = d
  omega

/-- The digits of a number are read as the number. The induction takes off the
last digit. -/
theorem addDigits_toDigits {n : Nat} (h : n ≤ greatestInteger) :
    addDigits 0 (Nat.toDigits 10 n) = (n, (Nat.toDigits 10 n).length) := by
  induction n using Nat.strongRecOn with
  | ind n ih =>
    -- a single digit, or the digits of the tenth part with one more behind
    by_cases hsmall : n < 10
    · have hone := @addDigits_concat 0 0 [] n.digitChar rfl (by rw [digitChar_value hsmall]; omega)
      rw [digitChar_value hsmall, Nat.zero_mul, Nat.zero_add] at hone
      rw [Nat.toDigits_of_lt_base hsmall]
      exact hone
    · have hdigit := digitChar_value (Nat.mod_lt n (show 10 > 0 by omega))
      have hfront := ih (n / 10) (by omega) (by omega)
      have hall := addDigits_concat (c := (n % 10).digitChar) hfront (by rw [hdigit]; omega)
      rw [hdigit, Nat.div_add_mod'] at hall
      rw [Nat.toDigits_of_base_le (by omega) (by omega)]
      exact hall

/-- Only zero begins with a zero, and nothing follows there. -/
theorem toDigits_ne_zero_cons (n : Nat) (c : Char) (r : List Char) :
    Nat.toDigits 10 n ≠ '0' :: c :: r := by
  -- the first digit of a positive number is that of its tenth part, down to a
  -- single digit
  have hhead : ∀ n, 0 < n → (Nat.toDigits 10 n).head? ≠ some '0' := by
    intro n
    induction n using Nat.strongRecOn with
    | ind n ih =>
      intro hpos
      by_cases hsmall : n < 10
      · rw [Nat.toDigits_of_lt_base hsmall]
        have hdigits : ∀ n < 10, 0 < n → [n.digitChar].head? ≠ some '0' := by decide
        exact hdigits n hsmall hpos
      · rw [Nat.toDigits_of_base_le (by omega) (by omega),
          List.head?_append_of_ne_nil _ Nat.toDigits_ne_nil]
        exact ih (n / 10) (by omega) (by omega)
  intro h
  rcases Nat.eq_zero_or_pos n with rfl | hpos
  · rw [Nat.toDigits_zero] at h
    exact absurd h (by simp)
  · exact hhead n hpos (by rw [h]; rfl)

/-- Where no number goes on, its whole part is all of it. -/
theorem numberBehindWhole_delimited {rest : List Char} (hrest : Delimited rest) (negative : Bool)
    (n i : Nat) : numberBehindWhole negative n 0 ⟨rest, i⟩ =
      if !negative then .ok (.integer n, ⟨rest, i⟩)
      else if n == 0 || n > Nat.pow 2 63 then fraction true n 0 ⟨rest, i⟩
      else .ok (.integer (-(n : Int)), ⟨rest, i⟩) := by
  cases rest with
  | nil => rfl
  | cons c r =>
    obtain ⟨-, hdot, he, hE⟩ := hrest c rfl
    rw [numberBehindWhole]
    -- neither a point nor an exponent can follow here
    split
    · rename_i h
      exact absurd (List.cons.inj h).1 hdot
    · rename_i h
      exact absurd (List.cons.inj h).1 he
    · rename_i h
      exact absurd (List.cons.inj h).1 hE
    · rfl

/-- The reader takes all the digits there are, which are those that were
written. -/
theorem numberFrom_toDigits {n : Nat} (h : n ≤ greatestInteger) {rest : List Char}
    (hrest : Delimited rest) (negative : Bool) (i : Nat) :
    numberFrom negative ⟨Nat.toDigits 10 n ++ rest, i⟩
      = numberBehindWhole negative n 0 ⟨rest, i + (Nat.toDigits 10 n).length⟩ := by
  -- digits go on up to what follows, which is none
  have htake : (Nat.toDigits 10 n ++ rest).takeWhile Char.isDigit = Nat.toDigits 10 n := by
    rw [List.takeWhile_append_of_pos fun c hc => Nat.isDigit_of_mem_toDigits (by omega) (by omega) hc]
    cases rest with
    | nil => exact List.append_nil _
    | cons c r =>
      rw [List.takeWhile_cons_of_neg (by simp [(hrest c rfl).1]), List.append_nil]
  rw [numberFrom, htake]
  split
  · rename_i hnil
    exact absurd hnil Nat.toDigits_ne_nil
  · rename_i hzero
    exact absurd hzero (toDigits_ne_zero_cons n _ _)
  · rw [addDigits_toDigits h, Stand.drop]
    simp only [Nat.sub_self, List.drop_left]

/-- **The digits of a number are read as the number**, if it has at most 64
bits. A greater one is not read as an integer any more. -/
theorem reads_toDigits {n : Nat} (h : n ≤ greatestInteger) :
    Reads (numberFrom false) (Nat.toDigits 10 n) (.integer n) := by
  intro rest i hrest
  refine ⟨i + (Nat.toDigits 10 n).length, ?_⟩
  rw [numberFrom_toDigits h hrest, numberBehindWhole_delimited hrest]
  rfl

/-- Behind a sign, the digits are read as the number below zero. -/
theorem reads_toDigits_negative {n : Nat} (hpos : 0 < n) (h : n ≤ Nat.pow 2 63) :
    Reads (numberFrom true) (Nat.toDigits 10 n) (.integer (-n)) := by
  have hgreatest : Nat.pow 2 63 ≤ greatestInteger := by decide
  intro rest i hrest
  refine ⟨i + (Nat.toDigits 10 n).length, ?_⟩
  rw [numberFrom_toDigits (Nat.le_trans h hgreatest) hrest, numberBehindWhole_delimited hrest, if_neg (by decide),
    if_neg (by simp only [Bool.or_eq_true, beq_iff_eq, decide_eq_true_eq]; omega)]

/-! ## Lists

In front of every item there is a line break of the style, and behind each but
the last a comma. The reader passes over blanks and does not care how many
there are. So what is proved here is about any blanks before and after the
items, and the two layouts are instances.

The reader of items is fuelled by the length of the text. There are no more
items than characters, which is enough. -/

/-- What stands in front of a line, or nothing. -/
theorem isBlank_of_mem_lineBreak {style : Style} {level : Nat} {c : Char}
    (h : c ∈ style.lineBreak level) : isBlank c = true := by
  cases style with
  | compact => exact absurd h List.not_mem_nil
  | lines =>
    rcases List.mem_cons.mp h with rfl | h
    · rfl
    · rw [List.eq_of_mem_replicate h]
      rfl

section Elements

variable {α : Type} {element : Stand → Except Fault (α × Stand)} {before after : List Char}

/-- The text of items that follow on others. -/
def further (before : List Char) (texts : List (List Char)) : List Char :=
  texts.flatMap fun text => ',' :: (before ++ text)

/-- Where items and then a bracket follow, no number goes on. -/
theorem delimited_further (hafter : ∀ c ∈ after, isBlank c = true) (before : List Char)
    (texts : List (List Char)) {close : Char} (hclose : close = ']' ∨ close = '}') (rest : List Char) :
    Delimited (further before texts ++ (after ++ close :: rest)) := by
  cases texts with
  | nil => exact delimited_blanks hafter (.inr hclose)
  | cons text texts =>
    exact @delimited_blanks [] (fun _ h => absurd h List.not_mem_nil) ',' _ (.inl rfl)

/-- An item that follows on others is taken in. -/
theorem elementsFrom_comma (hbefore : ∀ c ∈ before, isBlank c = true) {text : List Char} {a : α}
    (hopens : Opens text) (hread : Reads element text a) (bound : Nat) (done : List α)
    {rest : List Char} (hrest : Delimited rest) (i : Nat) :
    ∃ j, elementsFrom element (bound + 1) false done ⟨',' :: (before ++ text) ++ rest, i⟩
      = elementsFrom element bound false (a :: done) ⟨rest, j⟩ := by
  obtain ⟨j, hj⟩ := hread rest (i + 1 + before.length) hrest
  obtain ⟨c, r, rfl, hblank, hend⟩ := hopens
  refine ⟨j, ?_⟩
  rw [List.cons_append, elementsFrom, skipBlanks_cons (by decide)]
  simp only [Stand.drop, List.drop_succ_cons, List.drop_zero, List.append_assoc]
  rw [List.cons_append, skipBlanks_append hbefore hblank]
  -- behind a comma there is an item, so the cases of an end and of a bracket
  -- do not occur
  split
  · rename_i h
    exact absurd h (List.cons_ne_nil ',' _)
  · rename_i h
    exact absurd (List.cons.inj h).1 (by decide)
  · rename_i h
    obtain ⟨rfl, -⟩ := List.cons.inj h
    rw [if_neg (by decide), if_pos (by decide)]
    split
    · rename_i h
      exact absurd h (List.cons_ne_nil c _)
    · rename_i h
      exact absurd (List.cons.inj h).1 hend
    · rw [← List.cons_append, hj]
      rfl

/-- The items that follow on others are taken in, one after the other, up to
the bracket. -/
theorem elementsFrom_further (hbefore : ∀ c ∈ before, isBlank c = true)
    (hafter : ∀ c ∈ after, isBlank c = true) {texts : List (List Char)} {items : List α}
    (h : List.Forall₂ (fun text a => Opens text ∧ Reads element text a) texts items) (done : List α)
    (rest : List Char) (i : Nat) (bound : Nat) (hbound : texts.length < bound) :
    ∃ j, elementsFrom element bound false done ⟨further before texts ++ (after ++ ']' :: rest), i⟩
      = .ok (done.reverse ++ items, ⟨rest, j⟩) := by
  obtain ⟨bound, rfl⟩ : ∃ n, bound = n + 1 := ⟨bound - 1, by omega⟩
  induction h generalizing done i bound with
  | nil =>
    refine ⟨i + after.length + 1, ?_⟩
    rw [further, List.flatMap_nil, List.nil_append, elementsFrom, skipBlanks_append hafter (by decide),
      List.append_nil]
    rfl
  | @cons text a texts items ha hitems ih =>
    rw [List.length_cons] at hbound
    obtain ⟨bound, rfl⟩ : ∃ n, bound = n + 1 := ⟨bound - 1, by omega⟩
    -- the next item, and then by induction the others
    obtain ⟨i', hi'⟩ := elementsFrom_comma hbefore ha.1 ha.2 (bound + 1) done
      (delimited_further hafter before texts (.inl rfl) rest) i
    obtain ⟨j, hj⟩ := ih (a :: done) i' bound (by omega)
    refine ⟨j, ?_⟩
    rw [further, List.flatMap_cons, List.append_assoc, ← further, hi', hj, List.reverse_cons,
      List.append_assoc, List.singleton_append]

/-- There are no more items than there are characters for them. -/
theorem length_le_length_further (before : List Char) (texts : List (List Char)) :
    texts.length ≤ (further before texts).length := by
  induction texts with
  | nil => exact Nat.zero_le _
  | cons text texts ih =>
    rw [further, List.flatMap_cons, ← further]
    simp only [List.length_cons, List.length_append]
    omega

/-- The text of a list behind its bracket. -/
def listText (style : Style) (level : Nat) : List (List Char) → List Char
  | [] => [']']
  | text :: texts =>
    style.lineBreak level ++ text ++ further (style.lineBreak level) texts
      ++ style.lineBreak (level - 1) ++ [']']

/-- A list has no more items than its text has characters. -/
theorem length_le_length_listText (style : Style) (level : Nat) (texts : List (List Char)) :
    texts.length ≤ (listText style level texts).length := by
  cases texts with
  | nil => exact Nat.zero_le _
  | cons text texts =>
    have hfurther := length_le_length_further (style.lineBreak level) texts
    simp only [listText, List.length_cons, List.length_append, List.length_nil]
    omega

/-- **A list is read item by item**, if each of its items is read. Its text is
long enough to bound the number of its items. -/
theorem reads_elements (style : Style) (level : Nat) {texts : List (List Char)} {items : List α}
    (h : List.Forall₂ (fun text a => Opens text ∧ Reads element text a) texts items)
    (rest : List Char) (i : Nat) :
    ∃ j, elementsFrom element ((listText style level texts ++ rest).length + 1) true []
        ⟨listText style level texts ++ rest, i⟩
      = .ok (items, ⟨rest, j⟩) := by
  have hbound : texts.length ≤ (listText style level texts ++ rest).length := by
    have hlength := length_le_length_listText style level texts
    rw [List.length_append]
    omega
  generalize (listText style level texts ++ rest).length = bound at hbound
  cases h with
  | nil => exact ⟨i + 1, rfl⟩
  | @cons text a texts items ha hitems =>
    obtain ⟨hopens, hread⟩ := ha
    have hbefore : ∀ c ∈ style.lineBreak level, isBlank c = true :=
      fun _ hc => isBlank_of_mem_lineBreak hc
    have hafter : ∀ c ∈ style.lineBreak (level - 1), isBlank c = true :=
      fun _ hc => isBlank_of_mem_lineBreak hc
    have hdelimited := delimited_further hafter (style.lineBreak level) texts (.inl rfl) rest
    obtain ⟨i', hi'⟩ := hread _ (i + (style.lineBreak level).length) hdelimited
    obtain ⟨j, hj⟩ := elementsFrom_further hbefore hafter hitems [a] rest i' bound hbound
    refine ⟨j, ?_⟩
    obtain ⟨c, r, rfl, hblank, hend⟩ := hopens
    simp only [listText, List.append_assoc, List.nil_append, List.cons_append] at hi' ⊢
    rw [elementsFrom, skipBlanks_append hbefore hblank]
    split
    · rename_i h
      exact absurd h (List.cons_ne_nil c _)
    · rename_i h
      exact absurd (List.cons.inj h).1 hend
    · rw [if_pos rfl, hi']
      exact hj

end Elements

/-! ## Objects

An object is read like a list, but what is made of its members is up to the
reader: a value keeps them all, and a configuration takes some of them apart
where they stand. `Taken` is the chain of what is made, member by member, and
each link of it says that the text of a member is read. The loop over members
is then proved once, for every such chain. -/

section Members

variable {σ : Type} {member : σ → String → Stand → Except Fault (σ × Stand)}
  {before after : List Char}

/-- The members are taken in one after the other, each by its name and the text
behind it. What was made before becomes what is made at the end. -/
inductive Taken (member : σ → String → Stand → Except Fault (σ × Stand)) :
    σ → List (String × List Char) → σ → Prop
  | none (made : σ) : Taken member made [] made
  | more {made next last : σ} {name : String} {text : List Char} {entries : List (String × List Char)}
      (first : Reads (member made name) text next) (others : Taken member next entries last) :
      Taken member made ((name, text) :: entries) last

/-- The text of a member. -/
def entryText (entry : String × List Char) : List Char := quoted entry.1 ++ entry.2

/-- The text of a member is its name in quotes and what stands behind it. -/
theorem entryText_append (name : String) (text rest : List Char) :
    entryText (name, text) ++ rest = '"' :: (name.toList.flatMap escape ++ '"' :: (text ++ rest)) := by
  rw [entryText, List.append_assoc, quoted_append]

/-- Members of two chains, one behind the other, are taken in one chain. -/
theorem Taken.append {made next last : σ} {entries entries' : List (String × List Char)}
    (h : Taken member made entries next) (h' : Taken member next entries' last) :
    Taken member made (entries ++ entries') last := by
  induction h with
  | none => exact h'
  | more hfirst _ ih => exact .more hfirst (ih h')

/-- The name of a member is read before its value. -/
theorem named_entryText {made next : σ} {name : String} {text : List Char}
    (h : Reads (member made name) text next) {rest : List Char} (hrest : Delimited rest) (i : Nat) :
    ∃ j k, stringFrom 0 [] i (name.toList.flatMap escape ++ '"' :: (text ++ rest))
        = .ok (name, ⟨text ++ rest, j⟩) ∧
      member made name ⟨text ++ rest, j⟩ = .ok (next, ⟨rest, k⟩) := by
  obtain ⟨j, hj⟩ := stringFrom_quoted name i (text ++ rest)
  obtain ⟨k, hk⟩ := h rest j hrest
  exact ⟨j, k, hj, hk⟩

/-- A member that follows on others is taken in. -/
theorem membersFrom_comma (hbefore : ∀ c ∈ before, isBlank c = true) {made next : σ} {name : String}
    {text : List Char} (h : Reads (member made name) text next) (bound : Nat) {rest : List Char}
    (hrest : Delimited rest) (i : Nat) :
    ∃ j, membersFrom member (bound + 1) false made
        ⟨',' :: (before ++ entryText (name, text)) ++ rest, i⟩
      = membersFrom member bound false next ⟨rest, j⟩ := by
  obtain ⟨j, k, hname, hmember⟩ := named_entryText h hrest (i + 1 + before.length + 1)
  refine ⟨k, ?_⟩
  rw [List.cons_append, List.append_assoc, entryText_append, membersFrom, skipBlanks_cons (by decide)]
  -- behind a comma there is a name, so the cases of an end and of a brace do
  -- not occur
  split
  · rename_i h
    exact absurd h (List.cons_ne_nil ',' _)
  · rename_i h
    exact absurd (List.cons.inj h).1 (by decide)
  · rename_i h
    obtain ⟨rfl, -⟩ := List.cons.inj h
    rw [if_neg (by decide), if_pos (by decide)]
    simp only [Stand.drop, List.drop_succ_cons, List.drop_zero, skipBlanks_append hbefore
      (show isBlank '"' = false by decide), hname, bind, Except.bind, hmember]

/-- The members that follow on others are taken in, one after the other, up to
the brace. -/
theorem membersFrom_further (hbefore : ∀ c ∈ before, isBlank c = true)
    (hafter : ∀ c ∈ after, isBlank c = true) {made last : σ} {entries : List (String × List Char)}
    (h : Taken member made entries last) (rest : List Char) (i : Nat) (bound : Nat)
    (hbound : entries.length < bound) :
    ∃ j, membersFrom member bound false made
        ⟨further before (entries.map entryText) ++ (after ++ '}' :: rest), i⟩
      = .ok (last, ⟨rest, j⟩) := by
  obtain ⟨bound, rfl⟩ : ∃ n, bound = n + 1 := ⟨bound - 1, by omega⟩
  induction h generalizing i bound with
  | none =>
    refine ⟨i + after.length + 1, ?_⟩
    rw [List.map_nil, further, List.flatMap_nil, List.nil_append, membersFrom,
      skipBlanks_append hafter (by decide)]
    rfl
  | @more made next last name text entries hfirst hothers ih =>
    rw [List.length_cons] at hbound
    obtain ⟨bound, rfl⟩ : ∃ n, bound = n + 1 := ⟨bound - 1, by omega⟩
    obtain ⟨i', hi'⟩ := membersFrom_comma hbefore hfirst (bound + 1)
      (delimited_further hafter before (entries.map entryText) (.inr rfl) rest) i
    obtain ⟨j, hj⟩ := ih i' bound (by omega)
    refine ⟨j, ?_⟩
    rw [List.map_cons, further, List.flatMap_cons, List.append_assoc, ← further, hi', hj]

/-- The text of an object behind its brace. -/
def objectText (style : Style) (level : Nat) : List (String × List Char) → List Char
  | [] => ['}']
  | entry :: entries =>
    style.lineBreak level ++ entryText entry ++ further (style.lineBreak level) (entries.map entryText)
      ++ style.lineBreak (level - 1) ++ ['}']

/-- An object has no more members than its text has characters. -/
theorem length_le_length_objectText (style : Style) (level : Nat)
    (entries : List (String × List Char)) :
    entries.length ≤ (objectText style level entries).length := by
  cases entries with
  | nil => exact Nat.zero_le _
  | cons entry entries =>
    have hfurther := length_le_length_further (style.lineBreak level) (entries.map entryText)
    simp only [objectText, List.length_cons, List.length_append, List.length_map, List.length_nil]
      at hfurther ⊢
    omega

/-- **An object is read member by member**, if each of its members is taken in.
Its text is long enough to bound the number of its members. -/
theorem reads_members (style : Style) (level : Nat) {made last : σ}
    {entries : List (String × List Char)} (h : Taken member made entries last) (rest : List Char)
    (i : Nat) :
    ∃ j, membersFrom member ((objectText style level entries ++ rest).length + 1) true made
        ⟨objectText style level entries ++ rest, i⟩
      = .ok (last, ⟨rest, j⟩) := by
  have hbound : entries.length ≤ (objectText style level entries ++ rest).length := by
    have hlength := length_le_length_objectText style level entries
    rw [List.length_append]
    omega
  -- only that the bound is great enough matters from here on
  generalize (objectText style level entries ++ rest).length = bound at hbound
  cases h with
  | none => exact ⟨i + 1, rfl⟩
  | @more _ next _ name text entries hfirst hothers =>
    have hbefore : ∀ c ∈ style.lineBreak level, isBlank c = true :=
      fun _ hc => isBlank_of_mem_lineBreak hc
    have hafter : ∀ c ∈ style.lineBreak (level - 1), isBlank c = true :=
      fun _ hc => isBlank_of_mem_lineBreak hc
    have hdelimited :=
      delimited_further hafter (style.lineBreak level) (entries.map entryText) (.inr rfl) rest
    obtain ⟨i', k, hname, hmember⟩ :=
      named_entryText hfirst hdelimited (i + (style.lineBreak level).length + 1)
    obtain ⟨j, hj⟩ := membersFrom_further hbefore hafter hothers rest k bound hbound
    refine ⟨j, ?_⟩
    rw [objectText, List.append_assoc, List.append_assoc, List.append_assoc, List.append_assoc,
      entryText_append, membersFrom, skipBlanks_append hbefore (by decide)]
    split
    · rename_i h
      exact absurd h (List.cons_ne_nil '"' _)
    · rename_i h
      exact absurd (List.cons.inj h).1 (by decide)
    · rename_i h
      obtain ⟨rfl, rfl⟩ := List.cons.inj h
      rw [if_pos rfl, if_pos (by decide)]
      simp only [List.singleton_append, hname, bind, Except.bind, hmember]
      exact hj

end Members

/-! ## Values

What a value is read as depends on its first character, and each kind of value
begins with another one. Where a value stands behind a colon or a comma there
may be blanks in front of it, which the reader passes over first; hence
`ReadsValue`, which is what the induction in `reads_written` is about.

`Plain` is how much of a value survives. Written numbers that are not whole, or
too great, are read as decimals, members of one name are merged, and what is
nested too deeply is refused; no claim needs more than what is left. -/

/-- The reader takes in the text, and blanks in front of it as well. -/
def ReadsValue {α : Type} (reader : Stand → Except Fault (α × Stand)) (text : List Char) (a : α) :
    Prop :=
  ∀ blanks : List Char, (∀ c ∈ blanks, isBlank c = true) → Reads reader (blanks ++ text) a

/-- Without blanks, the text itself is taken in. -/
theorem ReadsValue.reads {α : Type} {reader : Stand → Except Fault (α × Stand)} {text : List Char}
    {a : α} (h : ReadsValue reader text a) : Reads reader text a :=
  h [] fun _ hc => absurd hc List.not_mem_nil

/-- A reader that passes over blanks first takes them in where they stand in
front of a value. -/
theorem Reads.readsValue {α : Type} {reader : Stand → Except Fault (α × Stand)} {text : List Char}
    {a : α} (h : Reads reader text a) (hopens : Opens text)
    (hskip : ∀ s s' : Stand, s.skipBlanks = s'.skipBlanks → reader s = reader s') :
    ReadsValue reader text a := by
  intro blanks hblanks rest i hrest
  obtain ⟨j, hj⟩ := h rest (i + blanks.length) hrest
  obtain ⟨c, r, rfl, hc, -⟩ := hopens
  refine ⟨j, ?_⟩
  rw [← hj, List.append_assoc, List.cons_append]
  refine hskip _ _ ?_
  rw [skipBlanks_append hblanks hc, skipBlanks_cons hc]

/-- Between the name of a member and its value there is a colon, and perhaps a
blank. -/
theorem ReadsValue.behind_colon {α : Type} {reader : Stand → Except Fault (α × Stand)}
    {text : List Char} {a : α} (h : ReadsValue reader text a) (style : Style) :
    Reads (fun s => colon s >>= reader) (style.colon ++ text) a := by
  intro rest i hrest
  cases style with
  | compact => exact h.reads rest (i + 1) hrest
  | lines =>
    have hblank : ∀ c ∈ [' '], isBlank c = true := by
      intro c hc
      rw [List.mem_singleton.mp hc]
      rfl
    exact h [' '] hblank rest (i + 1) hrest

/-- A value that comes back when its text is read: its numbers are whole and
have 64 bits, no object has two members of one name, and lists and objects are
nested less deep than the first argument says. -/
inductive Plain : (depth : Nat) → Value → Prop
  | null {depth : Nat} : Plain (depth + 1) .null
  | bool {depth : Nat} (b : Bool) : Plain (depth + 1) (.bool b)
  | integer {depth : Nat} {n : Int} (least : -(Nat.pow 2 63 : Nat) ≤ n) (greatest : n ≤ greatestInteger) :
      Plain (depth + 1) (.number (.integer n))
  | string {depth : Nat} (s : String) : Plain (depth + 1) (.string s)
  | array {depth : Nat} {items : List Value} (within : ∀ v ∈ items, Plain (depth + 1) v) :
      Plain (depth + 2) (.array items)
  | object {depth : Nat} {members : List (String × Value)} (distinct : (members.map (·.1)).Nodup)
      (within : ∀ m ∈ members, Plain (depth + 1) m.2) : Plain (depth + 2) (.object members)

/-- The items behind the first one are written as those that follow on others. -/
theorem writtenItems_eq (style : Style) (level : Nat) (vs : List Value) :
    writtenItems style level vs
      = further (style.lineBreak level) (vs.map (written style (level + 1))) := by
  induction vs with
  | nil => rfl
  | cons v vs ih =>
    rw [writtenItems, ih, List.map_cons, further, further, List.flatMap_cons]
    simp only [List.cons_append]

/-- The text of a list, with the texts of its items. -/
theorem written_array (style : Style) (level : Nat) (vs : List Value) :
    written style level (.array vs)
      = '[' :: listText style level (vs.map (written style (level + 1))) := by
  cases vs with
  | nil => rfl
  | cons v vs =>
    rw [written, writtenItems_eq, List.map_cons, listText]
    simp only [List.cons_append]

/-- The name of a member, and what is written behind it. -/
def Style.entry (style : Style) (level : Nat) (m : String × Value) : String × List Char :=
  (m.1, style.colon ++ written style level m.2)

/-- The members behind the first one are written in the same way. -/
theorem writtenMembers_eq (style : Style) (level : Nat) (ms : List (String × Value)) :
    writtenMembers style level ms
      = further (style.lineBreak level) ((ms.map (style.entry (level + 1))).map entryText) := by
  induction ms with
  | nil => rfl
  | cons m ms ih =>
    obtain ⟨k, v⟩ := m
    rw [writtenMembers, ih, List.map_cons, List.map_cons, further, further, List.flatMap_cons]
    simp only [List.cons_append, List.append_assoc, entryText, Style.entry]

/-- The text of an object, with the names of its members and what is behind
them. -/
theorem written_object (style : Style) (level : Nat) (ms : List (String × Value)) :
    written style level (.object ms)
      = '{' :: objectText style level (ms.map (style.entry (level + 1))) := by
  cases ms with
  | nil => rfl
  | cons m ms =>
    obtain ⟨k, v⟩ := m
    rw [written, writtenMembers_eq, List.map_cons, objectText]
    simp only [List.cons_append, List.append_assoc, entryText, Style.entry]

/-- A digit begins no other value than a number. -/
theorem digit_spec {c : Char} (h : c.isDigit = true) :
    isBlank c = false ∧ c ≠ ']' ∧ c ≠ 'n' ∧ c ≠ 't' ∧ c ≠ 'f' ∧ c ≠ '-' ∧ c ≠ '"' ∧ c ≠ '[' ∧ c ≠ '{' := by
  refine ⟨?_, ?_, ?_, ?_, ?_, ?_, ?_, ?_, ?_⟩
  · cases hblank : isBlank c with
    | false => rfl
    | true =>
      simp only [isBlank, Bool.or_eq_true, beq_iff_eq] at hblank
      rcases hblank with ((rfl | rfl) | rfl) | rfl <;> exact absurd h (by decide)
  all_goals
    rintro rfl
    exact absurd h (by decide)

/-- A number has a first digit. -/
theorem toDigits_eq_cons (n : Nat) :
    ∃ c r, Nat.toDigits 10 n = c :: r ∧ c.isDigit = true := by
  cases h : Nat.toDigits 10 n with
  | nil => exact absurd h Nat.toDigits_ne_nil
  | cons c r =>
    exact ⟨c, r, rfl, Nat.isDigit_of_mem_toDigits (b := 10) (n := n) (by omega) (by omega)
      (h ▸ List.mem_cons_self)⟩

/-- The text of an integer is its digits, with a sign in front of them below
zero. -/
theorem render_integer_cases (n : Int) :
    (∃ k : Nat, n = k ∧ (Number.integer n).render.toList = Nat.toDigits 10 k) ∨
    ∃ k : Nat, 0 < k ∧ n = -(k : Int) ∧ (Number.integer n).render.toList = '-' :: Nat.toDigits 10 k := by
  cases n with
  | ofNat k => exact .inl ⟨k, rfl, Nat.toList_repr⟩
  | negSucc k =>
    refine .inr ⟨k + 1, by omega, by omega, ?_⟩
    show ("-" ++ Nat.repr (k + 1)).toList = _
    rw [String.toList_append, Nat.toList_repr]
    rfl

/-- Behind a digit the reader goes on with a number. -/
theorem valueFrom_digit {c : Char} (hc : c.isDigit = true) (depth : Nat) (r : List Char) (i : Nat) :
    valueFrom (depth + 1) ⟨c :: r, i⟩
      = (numberFrom false ⟨c :: r, i⟩).map fun (n, s) => (.number n, s) := by
  obtain ⟨hblank, -, hn, ht, hf, hminus, hquote, hlist, hobject⟩ := digit_spec hc
  rw [valueFrom, skipBlanks_cons hblank]
  split
  · rename_i h
    exact absurd h (List.cons_ne_nil c r)
  all_goals
    rename_i h
    obtain ⟨rfl, -⟩ := List.cons.inj h
  · exact absurd rfl hn
  · exact absurd rfl ht
  · exact absurd rfl hf
  · exact absurd rfl hminus
  · exact absurd rfl hquote
  · exact absurd rfl hlist
  · exact absurd rfl hobject
  · rw [if_pos hc]

/-- An integer of 64 bits is read as itself. -/
theorem reads_integer {n : Int} (least : -(Nat.pow 2 63 : Nat) ≤ n) (greatest : n ≤ greatestInteger)
    (depth : Nat) :
    Reads (valueFrom (depth + 1)) (Number.integer n).render.toList (.number (.integer n)) := by
  rcases render_integer_cases n with ⟨k, rfl, htext⟩ | ⟨k, hpos, rfl, htext⟩
  -- without a sign the first digit decides, and behind a sign the reader is
  -- the one for negative numbers
  · rw [htext]
    obtain ⟨c, r, hcons, hc⟩ := toDigits_eq_cons k
    have hread := (reads_toDigits (n := k) (by omega)).map Value.number
    rw [hcons] at hread ⊢
    intro rest i hrest
    rw [List.cons_append, valueFrom_digit hc]
    exact hread rest i hrest
  · rw [htext]
    have hread := (reads_toDigits_negative hpos (by omega)).map Value.number
    intro rest i hrest
    exact hread rest (i + 1) hrest

/-- A string is read as itself. -/
theorem reads_string (s : String) (depth : Nat) :
    Reads (valueFrom (depth + 1)) (quoted s) (.string s) := by
  intro rest i _
  obtain ⟨j, hj⟩ := stringFrom_quoted s (i + 1) rest
  refine ⟨j, ?_⟩
  rw [quoted_append]
  show (stringFrom 0 [] (i + 1) _).map _ = _
  rw [hj]
  rfl

/-- A list is read as itself if its items are. -/
theorem reads_array {style : Style} {level depth : Nat} {items : List Value}
    (h : ∀ v ∈ items, Opens (written style (level + 1) v) ∧
      Reads (valueFrom (depth + 1)) (written style (level + 1) v) v) :
    Reads (valueFrom (depth + 2)) (written style level (.array items)) (.array items) := by
  intro rest i _
  have hitems : List.Forall₂ (fun text v => Opens text ∧ Reads (valueFrom (depth + 1)) text v)
      (items.map (written style (level + 1))) items := by
    rw [List.forall₂_map_left_iff, List.forall₂_same]
    exact h
  obtain ⟨j, hj⟩ := reads_elements style level hitems rest (i + 1)
  refine ⟨j, ?_⟩
  rw [written_array]
  show (elementsFrom (valueFrom (depth + 1)) _ true [] _).map _ = _
  rw [Stand.drop]
  exact congrArg (Except.map _) hj

/-- How a member of an object is taken in. -/
theorem taken_written {style : Style} {level depth : Nat} {members : List (String × Value)}
    (h : ∀ m ∈ members, ReadsValue (valueFrom depth) (written style level m.2) m.2)
    (made : List (String × Value)) :
    Taken (fun made key s => do
        let s ← colon s
        let (v, s) ← valueFrom depth s
        return (made ++ [(key, v)], s)) made (members.map (style.entry level)) (made ++ members) := by
  induction members generalizing made with
  | nil =>
    rw [List.append_nil]
    exact .none made
  | cons m members ih =>
    rw [List.forall_mem_cons] at h
    have hfirst : Reads (fun s => do
        let s ← colon s
        let (v, s) ← valueFrom depth s
        return (made ++ [(m.1, v)], s)) (style.colon ++ written style level m.2) (made ++ [m]) := by
      intro rest i hrest
      obtain ⟨j, hj⟩ := h.1.behind_colon style rest i hrest
      obtain ⟨s, hs, hv⟩ := bind_eq_ok_iff.mp hj
      exact ⟨j, bind_eq_ok_iff.mpr ⟨s, hs, bind_eq_ok_iff.mpr ⟨_, hv, rfl⟩⟩⟩
    have hothers := ih h.2 (made ++ [m])
    rw [List.append_assoc, List.singleton_append] at hothers
    exact .more hfirst hothers

/-- Members that differ in their names are all kept. -/
theorem distinctMembers_of_nodup {members : List (String × Value)}
    (h : (members.map (·.1)).Nodup) : distinctMembers members = members := by
  suffices hput : ∀ done : List (String × Value), ((done ++ members).map (·.1)).Nodup →
      members.foldl (fun ms m => put ms m.1 m.2) done = done ++ members from hput [] h
  clear h
  induction members with
  | nil => simp
  | cons m members ih =>
    intro done hnodup
    -- a name that differs from all others is not there yet, and so its member
    -- is added at the end
    have hnew : m.1 ∉ done.map (·.1) := by
      rw [List.map_append, List.nodup_append] at hnodup
      exact fun hmem => hnodup.2.2 _ hmem _ (List.mem_map_of_mem List.mem_cons_self) rfl
    have hput : put done m.1 m.2 = done ++ [m] := by
      rw [put, if_neg fun hany => hnew ?_]
      obtain ⟨m', hm', hname⟩ := List.any_eq_true.mp hany
      exact List.mem_map.mpr ⟨m', hm', eq_of_beq hname⟩
    rw [List.foldl_cons, hput, ih (done ++ [m]) (by simpa using hnodup), List.append_assoc,
      List.singleton_append]

/-- An object is read as itself if its members are, and no two of them have one
name. -/
theorem reads_object {style : Style} {level depth : Nat} {members : List (String × Value)}
    (hdistinct : (members.map (·.1)).Nodup)
    (h : ∀ m ∈ members, ReadsValue (valueFrom (depth + 1)) (written style (level + 1) m.2) m.2) :
    Reads (valueFrom (depth + 2)) (written style level (.object members)) (.object members) := by
  intro rest i _
  obtain ⟨j, hj⟩ := reads_members style level (taken_written h []) rest (i + 1)
  refine ⟨j, ?_⟩
  rw [written_object]
  show (membersFrom _ _ true [] _).map _ = _
  rw [Stand.drop]
  refine (congrArg (Except.map _) hj).trans ?_
  show Except.ok (Value.object (distinctMembers ([] ++ members)), _) = _
  rw [List.nil_append, distinctMembers_of_nodup hdistinct]

/-- The text of a value begins with a character that is neither a blank nor the
end of a list. -/
theorem opens_written (style : Style) (level : Nat) {depth : Nat} {v : Value} (h : Plain depth v) :
    Opens (written style level v) := by
  cases h with
  | null => exact ⟨'n', _, rfl, by decide, by decide⟩
  | bool b => cases b <;> exact ⟨_, _, rfl, by decide, by decide⟩
  | @integer depth n least greatest =>
    rcases render_integer_cases n with ⟨k, -, htext⟩ | ⟨k, -, -, htext⟩
    · obtain ⟨c, r, hcons, hc⟩ := toDigits_eq_cons k
      exact ⟨c, r, htext.trans hcons, (digit_spec hc).1, (digit_spec hc).2.1⟩
    · exact ⟨'-', _, htext, by decide, by decide⟩
  | string s => exact ⟨'"', _, rfl, by decide, by decide⟩
  | array _ => exact ⟨'[', _, written_array .., by decide, by decide⟩
  | object _ _ => exact ⟨'\x7b', _, written_object .., by decide, by decide⟩

/-- Blanks in front of a value make no difference to its reading. -/
theorem Plain.readsValue {depth : Nat} {v : Value} (h : Plain (depth + 1) v) {style : Style}
    {level : Nat} (hreads : Reads (valueFrom (depth + 1)) (written style level v) v) :
    ReadsValue (valueFrom (depth + 1)) (written style level v) v := by
  refine hreads.readsValue (opens_written style level h) ?_
  intro s s' hs
  rw [valueFrom, valueFrom, hs]

/-- **What is written for a value is read as the value**, in either layout, at
every level, behind blanks, and whatever follows. The induction is on how the
value is built. -/
theorem reads_written {depth : Nat} {v : Value} (h : Plain depth v) (style : Style) (level : Nat) :
    ReadsValue (valueFrom depth) (written style level v) v := by
  induction h generalizing level with
  | null => exact Plain.null.readsValue fun rest i _ => ⟨i + 4, rfl⟩
  | bool b =>
    cases b with
    | false => exact (Plain.bool false).readsValue fun rest i _ => ⟨i + 5, rfl⟩
    | true => exact (Plain.bool true).readsValue fun rest i _ => ⟨i + 4, rfl⟩
  | integer least greatest =>
    exact (Plain.integer least greatest).readsValue (reads_integer least greatest _)
  | string s => exact (Plain.string s).readsValue (reads_string s _)
  | array within ih =>
    refine (Plain.array within).readsValue (reads_array fun v hv => ?_)
    exact ⟨opens_written style (level + 1) (within v hv), (ih v hv (level + 1)).reads⟩
  | object distinct within ih =>
    refine (Plain.object distinct within).readsValue (reads_object distinct fun m hm => ?_)
    exact ih m hm (level + 1)

/-- **A text that was written is read as the value it was written for.** There
is a bound on how deep values may go, since the reader gives up behind it. -/
theorem read_render {v : Value} (h : Plain greatestDepth v) (style : Style) :
    read (v.render style).toList = .ok v := by
  obtain ⟨j, hj⟩ := (reads_written h style 1).reads [] 0 delimited_nil
  rw [List.append_nil] at hj
  rw [Value.render, String.toList_ofList, read, Stand.start, hj]
  rfl

end LocaleKeys.Json
