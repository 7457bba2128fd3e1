/-
Patterns, step by step.

A pattern is read in two ways: as a whole where settings are checked, and step
by step where files are searched for. The two differ because brackets may hold
a slash: `a[/]b` is a pattern as a whole, but neither `a[` nor `]b` is what its
author meant, and the first is no pattern at all. The other way round nothing
goes wrong. A text whose steps can be read can be read as a whole
(`Readable.of_steps`), since what a token looks at ends where its step ends.

So a search fails if and only if a step cannot be read (`exists_find_iff`).
What is put in front of a pattern to say where it starts is spelled so that it
stands for itself, and adds nothing to that (`stepsReadable_below`).
-/
import LocaleKeys.Glob.Search
import LocaleKeys.LocaleFiles
import LocaleKeys.Proofs.Outcomes
import LocaleKeys.Proofs.Text.Pieces

set_option autoImplicit false

namespace LocaleKeys

namespace Glob

/-! ## Reading a token

The reader of patterns goes over the characters one by one and skips those that
a token has taken already, so a statement about reading has three things
besides the text: how much is to be skipped, which character stood in front,
and where in the pattern this is. The last of them only shows up in the texts
of faults. `ReadableFrom` leaves it out, and the lemmas here are the equations
of the reader for it. -/

/-- The rest of a pattern can be read, from behind so many characters of a
token on. -/
def ReadableFrom (skip : Nat) (before : Option Char) (text : List Char) : Prop :=
  ∃ position ts, tokensFrom skip position before text = .ok ts

/-- Where a token stands shows in faults alone. -/
theorem tokenAt_position {position : Nat} {before : Option Char} {c : Char} {r : List Char}
    {token : Token × Nat} (h : tokenAt position before c r = .ok token) (position' : Nat) :
    tokenAt position' before c r = .ok token := by
  unfold tokenAt at h ⊢
  grind

/-- So does the place of all that is read. -/
theorem tokensFrom_position {skip position : Nat} {before : Option Char} {text : List Char}
    {ts : List Token} (h : tokensFrom skip position before text = .ok ts) (position' : Nat) :
    tokensFrom skip position' before text = .ok ts := by
  induction text generalizing skip position before position' ts with
  | nil => cases skip <;> exact h
  | cons c r ih =>
    cases skip with
    | succ k =>
      rw [tokensFrom] at h ⊢
      exact ih h (position' + 1)
    | zero =>
      rw [tokensFrom] at h ⊢
      cases htoken : tokenAt position before c r with
      | error fault =>
        rw [htoken] at h
        exact absurd h (by simp)
      | ok token =>
        rw [htoken] at h
        rw [tokenAt_position htoken position']
        obtain ⟨ts', hts', hmap⟩ := map_eq_ok_iff.mp h
        exact map_eq_ok_iff.mpr ⟨ts', ih hts' (position' + 1), hmap⟩

/-- A text that can be read begins with a token. -/
theorem tokensFrom_cons_eq_ok {position : Nat} {before : Option Char} {c : Char} {r : List Char}
    {ts : List Token} (h : tokensFrom 0 position before (c :: r) = .ok ts) :
    ∃ token k ts', tokenAt position before c r = .ok (token, k) ∧
      tokensFrom k (position + 1) (some c) r = .ok ts' ∧ ts = token :: ts' := by
  rw [tokensFrom] at h
  cases htoken : tokenAt position before c r with
  | error fault =>
    rw [htoken] at h
    exact absurd h (by simp)
  | ok read =>
    rw [htoken] at h
    obtain ⟨ts', hts', rfl⟩ := map_eq_ok_iff.mp h
    exact ⟨read.1, read.2, ts', rfl, hts', rfl⟩

/-- The end of a pattern can be read, even where characters should have been
skipped. -/
theorem readableFrom_nil (skip : Nat) (before : Option Char) : ReadableFrom skip before [] :=
  ⟨0, [], by cases skip <;> rfl⟩

/-- A character that a token has taken is passed over. -/
theorem readableFrom_succ {k : Nat} {before : Option Char} {c : Char} {r : List Char} :
    ReadableFrom (k + 1) before (c :: r) ↔ ReadableFrom k (some c) r := by
  constructor
  · rintro ⟨position, ts, h⟩
    exact ⟨position + 1, ts, h⟩
  · rintro ⟨position, ts, h⟩
    refine ⟨position, ts, ?_⟩
    rw [tokensFrom]
    exact tokensFrom_position h (position + 1)

/-- Any other character begins a token, and reading goes on behind it. -/
theorem readableFrom_zero {before : Option Char} {c : Char} {r : List Char} :
    ReadableFrom 0 before (c :: r)
      ↔ ∃ token k, tokenAt 0 before c r = .ok (token, k) ∧ ReadableFrom k (some c) r := by
  constructor
  · rintro ⟨position, ts, h⟩
    obtain ⟨token, k, ts', htoken, hts', -⟩ := tokensFrom_cons_eq_ok h
    exact ⟨token, k, tokenAt_position htoken 0, position + 1, ts', hts'⟩
  · rintro ⟨token, k, htoken, position, ts, h⟩
    refine ⟨0, token :: ts, ?_⟩
    rw [tokensFrom, htoken]
    exact map_eq_ok_iff.mpr ⟨ts, tokensFrom_position h 1, rfl⟩

/-- A token that takes the rest of a step and the slash behind it. -/
theorem readableFrom_step {before : Option Char} {r rest : List Char} :
    ReadableFrom (r.length + 1) before (r ++ '/' :: rest) ↔ ReadableFrom 0 (some '/') rest := by
  induction r generalizing before with
  | nil => exact readableFrom_succ
  | cons c r ih => exact readableFrom_succ.trans ih

theorem takeWhile_star_append (r rest : List Char) :
    (r ++ '/' :: rest).takeWhile (· == '*') = r.takeWhile (· == '*') := by
  induction r with
  | nil => rfl
  | cons c r ih => rw [List.cons_append, List.takeWhile_cons, List.takeWhile_cons, ih]

/-- Stars: two of them may take a slash behind them, if they are all that is
left of the step. -/
theorem tokenAt_append_star {before : Option Char} {r : List Char} {token : Token} {k : Nat}
    (hslash : '/' ∉ r) (h : tokenAt 0 before '*' r = .ok (token, k)) (rest : List Char) :
    ∃ k', tokenAt 0 before '*' (r ++ '/' :: rest) = .ok (token, k') ∧
      (k' = k ∧ k ≤ r.length ∨ k' = r.length + 1 ∧ k = r.length) := by
  rw [tokenAt, if_neg (by decide), if_pos (by decide)] at h ⊢
  rw [takeWhile_star_append]
  generalize hn : (r.takeWhile (· == '*')).length = n at h ⊢
  -- one star is a token by itself, two may be any number of steps, and three
  -- are never read
  obtain - | - | n := n
  · obtain ⟨rfl, rfl⟩ := Prod.mk.inj (Except.ok.inj h)
    exact ⟨0, rfl, .inl ⟨rfl, Nat.zero_le _⟩⟩
  · by_cases hbefore : before.all (· == '/') = true
    · rw [if_pos hbefore] at h ⊢
      -- what follows the second star decides
      obtain - | ⟨c, - | ⟨c', r'⟩⟩ := r
      · exact absurd hn (by simp)
      · obtain ⟨rfl, rfl⟩ := Prod.mk.inj (Except.ok.inj h)
        exact ⟨2, rfl, .inr ⟨rfl, rfl⟩⟩
      · have hc' : c' ≠ '/' := by
          rintro rfl
          exact hslash (by simp)
        simp [hc'] at h
    · rw [if_neg hbefore] at h
      exact absurd h (by simp)
  · exact absurd h (by simp)

/-- A closing bracket that is found stays where it is, whatever follows. -/
theorem findIdx?_closing_append {r : List Char} {n : Nat}
    (h : (r.drop 1).findIdx? (· == ']') = some n) (rest : List Char) :
    ((r ++ rest).drop 1).findIdx? (· == ']') = some n ∧
      (r ++ rest).take (n + 1) = r.take (n + 1) ∧ n + 2 ≤ r.length := by
  have hlength : n < (r.drop 1).length := by
    obtain ⟨hlt, -⟩ := List.findIdx?_eq_some_iff_getElem.mp h
    exact hlt
  rw [List.length_drop] at hlength
  refine ⟨?_, List.take_append_of_le_length (by omega), by omega⟩
  rw [List.drop_append_of_le_length (by omega), List.findIdx?_append, h]
  rfl

/-- Brackets: the closing one is looked for from the front, and is found in the
step. -/
theorem tokenAt_append_bracket {before : Option Char} {r : List Char} {token : Token} {k : Nat}
    (h : tokenAt 0 before '[' r = .ok (token, k)) (rest : List Char) :
    tokenAt 0 before '[' (r ++ rest) = .ok (token, k) ∧ k ≤ r.length := by
  rw [tokenAt, if_neg (by decide), if_neg (by decide), if_pos (by decide)] at h ⊢
  -- there is something behind the bracket, since the closing one is found
  -- behind it
  obtain - | ⟨c, r⟩ := r
  · exact absurd h (by simp)
  rw [List.cons_append, List.head?_cons]
  rw [List.head?_cons] at h
  by_cases hnegated : (some c == some '!') = true
  · simp only [hnegated, if_true, List.drop_succ_cons, List.drop_zero] at h ⊢
    cases hfind : (r.drop 1).findIdx? (· == ']') with
    | none => rw [hfind] at h; exact absurd h (by simp)
    | some n =>
      obtain ⟨hfind', htake, hlength⟩ := findIdx?_closing_append hfind rest
      simp only [hfind] at h
      simp only [hfind', htake]
      obtain ⟨rfl, rfl⟩ := Prod.mk.inj (Except.ok.inj h)
      exact ⟨rfl, by rw [List.length_cons]; omega⟩
  · simp only [hnegated, if_false, Bool.false_eq_true] at h ⊢
    rw [← List.cons_append]
    cases hfind : ((c :: r).drop 1).findIdx? (· == ']') with
    | none => rw [hfind] at h; exact absurd h (by simp)
    | some n =>
      obtain ⟨hfind', htake, hlength⟩ := findIdx?_closing_append hfind rest
      simp only [hfind] at h
      simp only [hfind', htake]
      obtain ⟨rfl, rfl⟩ := Prod.mk.inj (Except.ok.inj h)
      exact ⟨rfl, hlength⟩

/-- **A token ends where its step ends**, but for the slash that two stars may
take. -/
theorem tokenAt_append {before : Option Char} {c : Char} {r : List Char} {token : Token} {k : Nat}
    (hslash : '/' ∉ r) (h : tokenAt 0 before c r = .ok (token, k)) (rest : List Char) :
    ∃ k', tokenAt 0 before c (r ++ '/' :: rest) = .ok (token, k') ∧
      (k' = k ∧ k ≤ r.length ∨ k' = r.length + 1 ∧ k = r.length) := by
  by_cases hstar : c = '*'
  · subst hstar
    exact tokenAt_append_star hslash h rest
  by_cases hbracket : c = '['
  · subst hbracket
    obtain ⟨h', hk⟩ := tokenAt_append_bracket h ('/' :: rest)
    exact ⟨k, h', .inl ⟨rfl, hk⟩⟩
  -- all other characters are tokens of their own
  have hown : ∀ r, tokenAt 0 before c r = .ok (if c == '?' then .one else .char c, 0) := by
    intro r
    rw [tokenAt, beq_false_of_ne hstar, beq_false_of_ne hbracket]
    split <;> rfl
  rw [hown] at h
  obtain ⟨rfl, rfl⟩ := Prod.mk.inj (Except.ok.inj h)
  exact ⟨0, hown _, .inl ⟨rfl, Nat.zero_le _⟩⟩

/-! ## Reading a pattern

If a step can be read, it is read in the same way when a slash and more text
follow (`tokenAt_append`). The slash is an ordinary character then, or the two
stars in front of it have taken it. Either way what follows is read as if it
stood at the beginning of a pattern, because a slash in front counts as the
beginning does. That gives the whole pattern from its steps; the other
direction is false, by the brackets in the header. -/

/-- A step that can be read stays so when another one follows, and what follows
is read as if it began there. -/
theorem ReadableFrom.append {skip : Nat} {before : Option Char} {step rest : List Char}
    (h : ReadableFrom skip before step) (hskip : skip ≤ step.length) (hslash : '/' ∉ step)
    (hrest : ReadableFrom 0 (some '/') rest) : ReadableFrom skip before (step ++ '/' :: rest) := by
  induction step generalizing skip before with
  | nil =>
    obtain rfl : skip = 0 := Nat.le_zero.mp hskip
    exact readableFrom_zero.mpr ⟨.char '/', 0, rfl, hrest⟩
  | cons c r ih =>
    have hr : '/' ∉ r := fun hmem => hslash (List.mem_cons_of_mem c hmem)
    cases skip with
    | succ k => exact readableFrom_succ.mpr (ih (readableFrom_succ.mp h) (Nat.le_of_succ_le_succ hskip) hr)
    | zero =>
      obtain ⟨token, k, htoken, hread⟩ := readableFrom_zero.mp h
      obtain ⟨k', htoken', ⟨rfl, hk⟩ | ⟨rfl, rfl⟩⟩ := tokenAt_append hr htoken rest
      · exact readableFrom_zero.mpr ⟨token, k', htoken', ih hread hk hr⟩
      · exact readableFrom_zero.mpr ⟨token, _, htoken', readableFrom_step.mpr hrest⟩

/-- At the beginning of a pattern and behind a slash, the same can be read. -/
theorem readableFrom_slash {text : List Char} :
    ReadableFrom 0 (some '/') text ↔ ReadableFrom 0 none text := by
  cases text with
  | nil => exact iff_of_true (readableFrom_nil _ _) (readableFrom_nil _ _)
  | cons c r =>
    rw [readableFrom_zero, readableFrom_zero]
    exact Iff.rfl

/-- The text is a pattern. -/
def Readable (text : List Char) : Prop := ReadableFrom 0 none text

instance (text : List Char) : Decidable (Readable text) :=
  decidable_of_iff ((tokensFrom 0 0 none text).toOption.isSome = true) <| by
    rw [Option.isSome_iff_exists]
    simp only [toOption_eq_some_iff]
    exact ⟨fun ⟨ts, h⟩ => ⟨0, ts, h⟩, fun ⟨_, ts, h⟩ => ⟨ts, tokensFrom_position h 0⟩⟩

/-- **A text whose steps can be read can be read as a whole.** A bracket that
is closed in its step is closed in the whole text, too, and stars stand next to
slashes or to an end in both. -/
theorem Readable.of_steps {text : List Char} (h : ∀ step ∈ Text.pieces '/' text, Readable step) :
    Readable text := by
  -- the induction is on how long the text is, since its steps are taken off at
  -- its front
  induction hn : text.length using Nat.strongRecOn generalizing text with
  | ind n ih =>
    by_cases hslash : '/' ∈ text
    · obtain ⟨step, rest, rfl, hstep⟩ := List.eq_append_cons_of_mem hslash
      rw [Text.pieces_append, Text.pieces_of_notMem hstep] at h
      have hfirst : Readable step := h step (by simp)
      have hrest : Readable rest := by
        refine ih rest.length ?_ (fun p hp => h p (List.mem_append_right _ hp)) rfl
        rw [← hn, List.length_append, List.length_cons]
        omega
      exact ReadableFrom.append hfirst (Nat.zero_le _) hstep (readableFrom_slash.mpr hrest)
    · rw [Text.pieces_of_notMem hslash] at h
      exact h text List.mem_cons_self

/-! ## Texts that stand for themselves

Names of locales and directories are put into patterns, and what would be a
wildcard in them is put between brackets first. Such a text can always be read,
and it has its slashes where the text had them, since a slash is never put
between brackets. -/

/-- How a character is spelled that stands for itself. -/
def spelled (c : Char) : List Char :=
  if c == '?' || c == '*' || c == '[' || c == ']' then ['[', c, ']'] else [c]

theorem escape_eq (text : String) :
    escape text = String.ofList (text.toList.flatMap spelled) := rfl

/-- A text that is spelled to stand for itself is a pattern. -/
theorem readableFrom_spelled (text : List Char) (before : Option Char) :
    ReadableFrom 0 before (text.flatMap spelled) := by
  induction text generalizing before with
  | nil => exact readableFrom_nil 0 before
  | cons c r ih =>
    rw [List.flatMap_cons, spelled]
    by_cases hspecial : (c == '?' || c == '*' || c == '[' || c == ']') = true
    · -- the brackets hold the character alone, which is no exclamation mark
      have hc : (some c == some '!') = false := by
        simp only [Bool.or_eq_true, beq_iff_eq] at hspecial
        rcases hspecial with ((rfl | rfl) | rfl) | rfl <;> rfl
      rw [if_pos hspecial]
      refine readableFrom_zero.mpr ⟨.within (ranges [c]), 2, ?_, ?_⟩
      · simp [tokenAt, hc, List.findIdx?_cons]
      · exact readableFrom_succ.mpr (readableFrom_succ.mpr (ih _))
    · rw [if_neg hspecial]
      simp only [Bool.or_eq_true, not_or, Bool.not_eq_true] at hspecial
      obtain ⟨⟨⟨hone, hmany⟩, hopen⟩, -⟩ := hspecial
      refine readableFrom_zero.mpr ⟨.char c, 0, ?_, ih _⟩
      rw [tokenAt, hone, hmany, hopen]
      rfl

theorem slash_mem_spelled {c : Char} : '/' ∈ spelled c ↔ c = '/' := by
  rw [spelled]
  split
  · simp [eq_comm]
  · simp [eq_comm]

/-- Spelling leaves slashes where they are. -/
theorem pieces_spelled (text : List Char) :
    Text.pieces '/' (text.flatMap spelled) = (Text.pieces '/' text).map (·.flatMap spelled) := by
  have hnone : ∀ step : List Char, '/' ∉ step → '/' ∉ step.flatMap spelled := by
    intro step hstep hmem
    obtain ⟨c, hc, hslash⟩ := List.mem_flatMap.mp hmem
    exact hstep (slash_mem_spelled.mp hslash ▸ hc)
  induction hn : text.length using Nat.strongRecOn generalizing text with
  | ind n ih =>
    by_cases hslash : '/' ∈ text
    · obtain ⟨step, rest, rfl, hstep⟩ := List.eq_append_cons_of_mem hslash
      have hrest : rest.length < n := by
        rw [← hn, List.length_append, List.length_cons]
        omega
      rw [List.flatMap_append, List.flatMap_cons, show spelled '/' = ['/'] from rfl,
        List.singleton_append, Text.pieces_append, Text.pieces_append, List.map_append,
        ih rest.length hrest rest rfl, Text.pieces_of_notMem hstep,
        Text.pieces_of_notMem (hnone step hstep)]
      rfl
    · rw [Text.pieces_of_notMem hslash, Text.pieces_of_notMem (hnone text hslash)]
      rfl

/-! ## Patterns whose steps can be read

The condition under which a search works at all, as a property of the text of
the pattern. It distributes over slashes, so that what is asked of a template
does not depend on the directory below which it is searched for. -/

/-- Every step of the pattern is a pattern. -/
def StepsReadable (pattern : String) : Prop :=
  ∀ step ∈ Text.pieces '/' pattern.toList, Readable step

instance (pattern : String) : Decidable (StepsReadable pattern) :=
  inferInstanceAs (Decidable (∀ step ∈ Text.pieces '/' pattern.toList, Readable step))

theorem stepsReadable_append {front rest : String} :
    StepsReadable (front ++ "/" ++ rest) ↔ StepsReadable front ∧ StepsReadable rest := by
  have hchars : (front ++ "/" ++ rest).toList = front.toList ++ '/' :: rest.toList := by simp
  rw [StepsReadable, hchars, Text.pieces_append]
  exact List.forall_mem_append

theorem stepsReadable_escape (text : String) : StepsReadable (escape text) := by
  intro step hstep
  rw [escape_eq, String.toList_ofList, pieces_spelled] at hstep
  obtain ⟨piece, -, rfl⟩ := List.mem_map.mp hstep
  exact readableFrom_spelled piece none

/-- Slashes at the end are no steps that matter. -/
theorem StepsReadable.withoutSlashes {pattern : String} (h : StepsReadable pattern) :
    StepsReadable (expandTemplate.withoutSlashes pattern) := by
  let kept := (pattern.toList.reverse.dropWhile (· == '/')).reverse
  let slashes := (pattern.toList.reverse.takeWhile (· == '/')).reverse
  have hsplit : pattern.toList = kept ++ slashes := by
    rw [← List.reverse_append, List.takeWhile_append_dropWhile, List.reverse_reverse]
  have hslashes : ∀ c ∈ slashes, c = '/' := by
    intro c hc
    exact beq_iff_eq.mp (List.all_eq_true.mp List.all_takeWhile c (List.mem_reverse.mp hc))
  intro step hstep
  apply h step
  rw [expandTemplate.withoutSlashes, String.toList_ofList] at hstep
  rw [hsplit]
  cases hs : slashes with
  | nil => rwa [List.append_nil]
  | cons c rest =>
    obtain rfl : c = '/' := hslashes c (by rw [hs]; exact List.mem_cons_self)
    rw [Text.pieces_append]
    exact List.mem_append_left _ hstep

/-- **The directory in front of a pattern adds nothing** to what has to be
read. Its text is escaped, and an escaped text can always be read. -/
theorem stepsReadable_below {directory pattern : String} :
    StepsReadable (expandTemplate.withoutSlashes (escape directory) ++ "/" ++ pattern)
      ↔ StepsReadable pattern := by
  rw [stepsReadable_append]
  exact and_iff_right (stepsReadable_escape directory).withoutSlashes

/-! ## Searching

`find` reads the pattern twice, once as a whole and once piece by piece, and
fails where either reading does. By `Readable.of_steps` only the second
matters. Empty pieces, as slashes at the ends leave them, can always be read,
so that it does not matter which of them the program drops. -/

/-- A text is a pattern if and only if it is read as one. -/
theorem exists_tokens_iff {pattern : String} :
    (∃ ts, tokens pattern = .ok ts) ↔ Readable pattern.toList := by
  constructor
  · rintro ⟨ts, h⟩
    exact ⟨0, ts, h⟩
  · rintro ⟨position, ts, h⟩
    exact ⟨ts, tokensFrom_position h 0⟩

/-- The pieces that are searched for are those of the pattern, but for empty
ones at its ends. -/
theorem forall_piecesOf_iff {pattern : String} :
    (∀ piece ∈ piecesOf pattern, Readable piece.toList) ↔ StepsReadable pattern := by
  have hempty : ∀ piece : String, piece = "" → Readable piece.toList := by
    rintro piece rfl
    exact readableFrom_nil 0 none
  -- without its first piece an absolute pattern says as much
  let inner := if (Path.mk pattern).isAbsolute then (Text.piecesOf '/' pattern).drop 1
    else Text.piecesOf '/' pattern
  have hinner : (∀ piece ∈ inner, Readable piece.toList) ↔ StepsReadable pattern := by
    have hall : StepsReadable pattern ↔
        ∀ piece ∈ Text.piecesOf '/' pattern, Readable piece.toList := by
      simp [StepsReadable, Text.piecesOf]
    rw [hall]
    by_cases habsolute : (Path.mk pattern).isAbsolute = true
    · obtain ⟨r, hr⟩ : ∃ r, pattern.toList = '/' :: r :=
        List.head?_eq_some_iff.mp (beq_iff_eq.mp habsolute)
      have hpieces : Text.piecesOf '/' pattern = "" :: (Text.pieces '/' r).map String.ofList := by
        rw [Text.piecesOf, hr]
        rfl
      rw [show inner = (Text.piecesOf '/' pattern).drop 1 from if_pos habsolute, hpieces,
        List.forall_mem_cons, List.drop_one, List.tail_cons]
      exact (and_iff_right (hempty "" rfl)).symm
    · rw [show inner = Text.piecesOf '/' pattern from if_neg habsolute]
  rw [← hinner]
  show (∀ piece ∈ if inner.length > 1 && inner.getLast? == some "" then inner.dropLast else inner,
    Readable piece.toList) ↔ _
  split
  · rename_i hlast
    obtain ⟨-, hlast⟩ := Bool.and_eq_true_iff.mp hlast
    obtain ⟨front, hfront⟩ := List.getLast?_eq_some_iff.mp (beq_iff_eq.mp hlast)
    rw [hfront, List.dropLast_concat, List.forall_mem_append]
    exact (and_iff_left fun piece hpiece => hempty piece (List.mem_singleton.mp hpiece)).symm
  · exact Iff.rfl

/-- **A pattern can be searched for if and only if its steps can be read.** The
search reads the pattern step by step and never as a whole, so nothing but the
steps can fail. -/
theorem exists_find_iff {d : Disk} {pattern : String} :
    (∃ found, find d pattern = .ok found) ↔ StepsReadable pattern := by
  have hsteps : (∃ steps, (piecesOf pattern).mapM
      (fun piece => (tokens piece).map (Segment.ofTokens piece)) = .ok steps)
        ↔ StepsReadable pattern := by
    rw [exists_mapM_eq_ok_iff, ← forall_piecesOf_iff]
    simp only [map_eq_ok_iff, ← exists_tokens_iff, exists_comm (α := Segment), exists_and_left,
      exists_eq', and_true]
  rw [← hsteps]
  constructor
  · rintro ⟨found, h⟩
    obtain ⟨merged, h, -⟩ := bind_eq_ok_iff.mp h
    obtain ⟨_, -, h⟩ := bind_eq_ok_iff.mp h
    obtain ⟨steps, hsteps, -⟩ := bind_eq_ok_iff.mp h
    exact ⟨steps, hsteps⟩
  -- nothing but the two readings can fail, and the whole can be read since its
  -- steps can
  · rintro ⟨steps, h⟩
    have hwhole : Readable pattern.toList := .of_steps (hsteps.mp ⟨steps, h⟩)
    obtain ⟨ts, hts⟩ := exists_tokens_iff.mpr hwhole
    have hsegments : segments pattern = .ok (merged steps) :=
      bind_eq_ok_iff.mpr ⟨ts, hts, bind_eq_ok_iff.mpr ⟨steps, h, rfl⟩⟩
    exact ⟨_, bind_eq_ok_iff.mpr ⟨merged steps, hsegments, rfl⟩⟩

end Glob
end LocaleKeys
