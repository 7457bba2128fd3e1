/-
Patterns of which a part stands for itself.

In the place of its placeholder a template gets the name of a locale, and
whatever characters this name has, they are to stand for themselves. So a
template for a locale is a text of two kinds of letters (`Letter`): those of
the template, which are read as a pattern, and those of the locale, which are
not. What a step of such a text stands for is said without spelling anything:
each run of the template's letters is a pattern by itself, and each letter of
the locale stands for one character (`Letter.Fits`).

The program spells the letters of the locale, puts all letters into one text,
and reads that as a pattern. This comes to the same
(`Letter.admits_iff_runsFit`), provided that no placeholder stands between
brackets, where its letters would become a choice of characters. Two stars that
make up a step are another matter, since they stand for no name
(`Glob.eq_of_mem_anyDepth`).
-/
import LocaleKeys.Proofs.Glob.Steps
import Mathlib.Data.List.SplitBy

set_option autoImplicit false

namespace LocaleKeys

namespace Glob

/-! ## What tokens stand for

Matching tries, for a star, every rest of the text. Said as a relation, a star
stands for some front of the text, and a list of tokens for a text that can be
cut where the list is (`admits_append`). This is what lets a pattern be taken
apart into the runs of a template and the letters of a locale. Tokens for any
number of steps do not belong here: a step is matched against one name. -/

/-- The rests that are tried are all there are. -/
theorem mem_suffixes {s text : List Char} : s ∈ suffixes text ↔ s <:+ text := by
  induction text with
  | nil => rw [suffixes, List.mem_singleton, List.suffix_nil]
  | cons c r ih => rw [suffixes, List.mem_cons, ih, List.suffix_cons_iff]

/-- A token that stands for one character. -/
def Token.IsSingle (t : Token) : Prop := t ≠ .many ∧ t ≠ .anyDepth

/-- A token for one character stands for the first one, and the rest for the
rest. -/
theorem admits_single {t : Token} (ht : t.IsSingle) (ts : List Token) (text : List Char) :
    admits (t :: ts) text = true ↔ ∃ c r, text = c :: r ∧ t.admits c = true ∧ admits ts r = true := by
  have hnil : admits (t :: ts) [] = false := by
    cases t with
    | many => exact absurd rfl ht.1
    | anyDepth => exact absurd rfl ht.2
    | char | one | within | outside => rw [admits] <;> simp
  have hcons : ∀ c r, admits (t :: ts) (c :: r) = (t.admits c && admits ts r) := by
    intro c r
    cases t with
    | many => exact absurd rfl ht.1
    | anyDepth => exact absurd rfl ht.2
    | char | one | within | outside => rw [admits] <;> simp
  cases text with
  | nil => simp [hnil]
  | cons c r =>
    rw [hcons, Bool.and_eq_true]
    constructor
    · intro h
      exact ⟨c, r, rfl, h⟩
    · rintro ⟨c', r', heq, h⟩
      obtain ⟨rfl, rfl⟩ := List.cons.inj heq
      exact h

/-- A star stands for any front. -/
theorem admits_many (ts : List Token) (text : List Char) :
    admits (.many :: ts) text = true ↔ ∃ front back, text = front ++ back ∧ admits ts back = true := by
  rw [admits, List.any_eq_true]
  constructor
  · rintro ⟨back, hback, h⟩
    obtain ⟨front, rfl⟩ := mem_suffixes.mp hback
    exact ⟨front, back, rfl, h⟩
  · rintro ⟨front, back, rfl, h⟩
    exact ⟨back, mem_suffixes.mpr ⟨front, rfl⟩, h⟩

/-- **Tokens that follow others** stand for what follows. Any depth is left
out, since what it stands for ends with a slash or with the text and so depends
on what is behind. -/
theorem admits_append {ts : List Token} (hts : .anyDepth ∉ ts) (more : List Token) (text : List Char) :
    admits (ts ++ more) text = true ↔
      ∃ front back, text = front ++ back ∧ admits ts front = true ∧ admits more back = true := by
  induction ts generalizing text with
  | nil =>
    constructor
    · intro h
      exact ⟨[], text, rfl, rfl, h⟩
    · rintro ⟨front, back, rfl, hfront, hback⟩
      rw [admits, List.isEmpty_iff] at hfront
      rw [hfront]
      exact hback
  | cons t ts ih =>
    obtain ⟨ht, hbelow⟩ := not_or.mp (mt List.mem_cons.mpr hts)
    rw [List.cons_append]
    -- a star may stand for more or less, so that the cut is found by the
    -- hypothesis and the star grows into it
    by_cases hmany : t = .many
    · subst hmany
      rw [admits_many]
      constructor
      · rintro ⟨passed, rest, rfl, h⟩
        obtain ⟨front, back, rfl, hfront, hback⟩ := (ih hbelow rest).mp h
        exact ⟨passed ++ front, back, by simp, (admits_many _ _).mpr ⟨passed, front, rfl, hfront⟩, hback⟩
      · rintro ⟨front, back, rfl, hfront, hback⟩
        obtain ⟨passed, front', rfl, hfront'⟩ := (admits_many _ _).mp hfront
        exact ⟨passed, front' ++ back, by simp,
          (ih hbelow _).mpr ⟨front', back, rfl, hfront', hback⟩⟩
    · have hsingle : t.IsSingle := ⟨hmany, fun h => ht h.symm⟩
      rw [admits_single hsingle]
      constructor
      · rintro ⟨c, r, rfl, hc, h⟩
        obtain ⟨front, back, rfl, hfront, hback⟩ := (ih hbelow r).mp h
        exact ⟨c :: front, back, rfl, (admits_single hsingle _ _).mpr ⟨c, front, rfl, hc, hfront⟩, hback⟩
      · rintro ⟨front, back, rfl, hfront, hback⟩
        obtain ⟨c, front', rfl, hc, hfront'⟩ := (admits_single hsingle _ _).mp hfront
        exact ⟨c, front' ++ back, rfl, hc,
          (ih hbelow _).mpr ⟨front', back, rfl, hfront', hback⟩⟩

/-! ## Reading in two parts

A step of a template is cut where a placeholder begins or ends. The first part
is known to be readable by itself; the whole was read by the program. What has
to be shown is that the second reading starts with the first. Two things could
prevent it. A token could reach over the cut: brackets cannot, since they are
closed within the part. And stars are counted as far as they go, so that a star
behind the cut would be counted in; this is what `hrest` excludes. A letter of
a locale that is a star is spelled in brackets and is none. -/

/-- What stands for one character only. -/
def only (c : Char) : Token :=
  if c == '?' || c == '*' || c == '[' || c == ']' then .within [(c, c)] else .char c

/-- It stands for this character and for no other. -/
theorem admits_only (c d : Char) : (only c).admits d = true ↔ d = c := by
  rw [only]
  split
  · simp only [Token.admits, inRange, List.any_cons, List.any_nil, Bool.or_false, Bool.and_eq_true,
      decide_eq_true_eq]
    constructor
    · rintro ⟨hle, hge⟩
      exact Char.le_antisymm hge hle
    · rintro rfl
      exact ⟨Char.le_refl d, Char.le_refl d⟩
  · rw [Token.admits, beq_iff_eq]

/-- It is a token for one character. -/
theorem isSingle_only (c : Char) : (only c).IsSingle := by
  rw [only]
  split <;> exact ⟨by simp, by simp⟩

/-- A character that is spelled to stand for itself is read as such. -/
theorem tokensFrom_spelled {position : Nat} {before : Option Char} {c : Char} {rest : List Char}
    {ts : List Token} (h : tokensFrom 0 position before (spelled c ++ rest) = .ok ts) :
    ∃ position' before' ts', tokensFrom 0 position' before' rest = .ok ts' ∧ ts = only c :: ts' := by
  rw [spelled] at h
  rw [only]
  by_cases hspecial : (c == '?' || c == '*' || c == '[' || c == ']') = true
  · -- the brackets hold the character alone, which is no exclamation mark
    have hc : (some c == some '!') = false := by
      simp only [Bool.or_eq_true, beq_iff_eq] at hspecial
      rcases hspecial with ((rfl | rfl) | rfl) | rfl <;> rfl
    have htoken : tokenAt position before '[' (c :: ']' :: rest)
        = .ok (.within (ranges [c]), 2) := by
      simp [tokenAt, hc, List.findIdx?_cons]
    rw [if_pos hspecial, List.cons_append, List.cons_append, List.cons_append, List.nil_append,
      tokensFrom, htoken] at h
    obtain ⟨ts', hts', rfl⟩ := map_eq_ok_iff.mp h
    rw [if_pos hspecial]
    exact ⟨_, _, ts', hts', rfl⟩
  · rw [if_neg hspecial, List.singleton_append, tokensFrom] at h
    rw [if_neg hspecial]
    simp only [Bool.or_eq_true, not_or, Bool.not_eq_true] at hspecial
    obtain ⟨⟨⟨hone, hmany⟩, hopen⟩, -⟩ := hspecial
    have htoken : tokenAt position before c rest = .ok (.char c, 0) := by
      rw [tokenAt, hone, hmany, hopen]
      rfl
    rw [htoken] at h
    obtain ⟨ts', hts', rfl⟩ := map_eq_ok_iff.mp h
    exact ⟨_, _, ts', hts', rfl⟩

/-- Stars are counted as far as there are stars. -/
theorem takeWhile_star_append_of_head {rest : List Char} (hrest : rest.head? ≠ some '*')
    (r : List Char) : (r ++ rest).takeWhile (· == '*') = r.takeWhile (· == '*') := by
  induction r with
  | nil =>
    cases rest with
    | nil => rfl
    | cons c rest =>
      have hc : ¬ (c == '*') = true := fun heq => hrest (by rw [eq_of_beq heq]; rfl)
      exact List.takeWhile_cons_of_neg hc
  | cons c r ih => rw [List.cons_append, List.takeWhile_cons, List.takeWhile_cons, ih]

/-- **A token that can be read in a part of a text** is the one that is read in
the whole text, unless it stands for any number of steps. Where the part ends,
no star may follow. -/
theorem tokenAt_agree {position position' : Nat} {before before' : Option Char} {c : Char}
    {r rest : List Char} {token token' : Token} {k k' : Nat} (hrest : rest.head? ≠ some '*')
    (h : tokenAt position before c r = .ok (token, k))
    (h' : tokenAt position' before' c (r ++ rest) = .ok (token', k')) (hnames : token' ≠ .anyDepth) :
    token' = token ∧ k' = k ∧ k ≤ r.length := by
  -- stars, brackets and all other characters are read in three different ways
  by_cases hstar : c = '*'
  · subst hstar
    rw [tokenAt, if_neg (by decide), if_pos (by decide)] at h h'
    rw [takeWhile_star_append_of_head hrest] at h'
    generalize (r.takeWhile (· == '*')).length = n at h h'
    obtain - | - | n := n
    · obtain ⟨rfl, rfl⟩ := Prod.mk.inj (Except.ok.inj h)
      obtain ⟨rfl, rfl⟩ := Prod.mk.inj (Except.ok.inj h')
      exact ⟨rfl, rfl, Nat.zero_le _⟩
    · -- two stars are either no pattern or stand for any number of steps
      exfalso
      simp only [Nat.zero_add] at h'
      by_cases hbefore : before'.all (· == '/') = true
      · rw [if_pos hbefore] at h'
        split at h'
        · exact hnames (Prod.mk.inj (Except.ok.inj h')).1.symm
        · exact hnames (Prod.mk.inj (Except.ok.inj h')).1.symm
        · exact absurd h' (by simp)
      · rw [if_neg hbefore] at h'
        exact absurd h' (by simp)
    · exact absurd h (by simp)
  by_cases hbracket : c = '['
  · subst hbracket
    -- what is in front of a bracket does not matter, nor does where it is
    have hsame : tokenAt position none '[' r = .ok (token, k) := h
    have hsame' : tokenAt position' none '[' (r ++ rest) = .ok (token', k') := h'
    obtain ⟨hwhole, hk⟩ := tokenAt_append_bracket (tokenAt_position hsame 0) rest
    obtain ⟨rfl, rfl⟩ := Prod.mk.inj (Except.ok.inj (hwhole.symm.trans (tokenAt_position hsame' 0)))
    exact ⟨rfl, rfl, hk⟩
  · -- all other characters are tokens of their own
    have hown : ∀ position before r,
        tokenAt position before c r = .ok (if c == '?' then .one else .char c, 0) := by
      intro position before r
      rw [tokenAt, beq_false_of_ne hstar, beq_false_of_ne hbracket]
      split <;> rfl
    rw [hown] at h h'
    obtain ⟨rfl, rfl⟩ := Prod.mk.inj (Except.ok.inj h)
    obtain ⟨rfl, rfl⟩ := Prod.mk.inj (Except.ok.inj h')
    exact ⟨rfl, rfl, Nat.zero_le _⟩

/-- **A text is read in two parts**, if the first of them can be read by
itself. A star behind it could be the second of two, and so is excluded. -/
theorem tokensFrom_append {run rest : List Char} (hrest : rest.head? ≠ some '*') {skip : Nat}
    (hskip : skip ≤ run.length) {position position' : Nat} {before before' : Option Char}
    {ts ts' : List Token} (h : tokensFrom skip position before run = .ok ts)
    (h' : tokensFrom skip position' before' (run ++ rest) = .ok ts') (hnames : .anyDepth ∉ ts') :
    ∃ position'' before'' more, tokensFrom 0 position'' before'' rest = .ok more ∧ ts' = ts ++ more := by
  induction run generalizing skip position position' before before' ts ts' with
  | nil =>
    obtain rfl : skip = 0 := Nat.le_zero.mp hskip
    obtain rfl : ts = [] := (Except.ok.inj h).symm
    exact ⟨position', before', ts', h', rfl⟩
  | cons c r ih =>
    cases skip with
    | succ k => exact ih (Nat.le_of_succ_le_succ hskip) h h' hnames
    | zero =>
      obtain ⟨token, k, us, htoken, hus, rfl⟩ := tokensFrom_cons_eq_ok h
      obtain ⟨token', k', us', htoken', hus', rfl⟩ := tokensFrom_cons_eq_ok h'
      obtain ⟨hhead, htail⟩ := not_or.mp (mt List.mem_cons.mpr hnames)
      obtain ⟨rfl, rfl, hle⟩ := tokenAt_agree hrest htoken htoken' fun h => hhead h.symm
      obtain ⟨position'', before'', more, hmore, rfl⟩ := ih hle hus hus' htail
      exact ⟨position'', before'', more, hmore, rfl⟩

/-! ## Any number of steps

Two stars stand for any number of steps only if they are a step by themselves:
a slash or nothing in front, and a slash or nothing behind. Within a step,
where there is no slash, that leaves the text of two stars alone. Hence the
letters of such a step are known, and every other step is matched against
single names. -/

/-- A token for any number of steps stands at the beginning of a step. -/
theorem before_of_tokenAt {position : Nat} {before : Option Char} {c : Char} {r : List Char} {k : Nat}
    (hslash : '/' ∉ r) (h : tokenAt position before c r = .ok (.anyDepth, k)) :
    before.all (· == '/') = true ∧ c = '*' ∧ r = ['*'] ∧ k = 1 := by
  have hstar : c = '*' := by
    by_contra hstar
    rw [tokenAt, beq_false_of_ne hstar] at h
    grind
  subst hstar
  rw [tokenAt, if_neg (by decide), if_pos (by decide)] at h
  generalize hn : (r.takeWhile (· == '*')).length = n at h
  obtain - | - | n := n
  · exact absurd (Prod.mk.inj (Except.ok.inj h)).1 (by simp)
  · simp only [Nat.zero_add] at h hn
    by_cases hbefore : before.all (· == '/') = true
    · rw [if_pos hbefore] at h
      obtain - | ⟨c, r⟩ := r
      · exact absurd hn (by simp)
      rw [List.drop_succ_cons, List.drop_zero] at h
      have hc : c = '*' := by
        by_contra hc
        rw [List.takeWhile_cons_of_neg (by simpa using hc)] at hn
        exact absurd hn (by simp)
      split at h
      · exact ⟨hbefore, rfl, by rw [hc], (Prod.mk.inj (Except.ok.inj h)).2.symm⟩
      · exact absurd (by simp) hslash
      · exact absurd h (by simp)
    · rw [if_neg hbefore] at h
      exact absurd h (by simp)
  · exact absurd h (by simp)

/-- Behind a character of the step there is no token for any number of steps. -/
theorem anyDepth_notMem {skip position : Nat} {before : Option Char} {text : List Char}
    {ts : List Token} (hslash : '/' ∉ text) (hbefore : 0 < skip ∨ ¬ before.all (· == '/') = true)
    (h : tokensFrom skip position before text = .ok ts) : .anyDepth ∉ ts := by
  induction text generalizing skip position before ts with
  | nil =>
    have hnil : ts = [] := by
      cases skip <;> exact (Except.ok.inj h).symm
    rw [hnil]
    exact List.not_mem_nil
  | cons c r ih =>
    obtain ⟨hc, hr⟩ := not_or.mp (mt List.mem_cons.mpr hslash)
    have hnext : ¬ (some c).all (· == '/') = true := by simpa using fun h => hc h.symm
    -- every character that was read stands in front of the next one, and none
    -- of them is a slash
    cases skip with
    | succ k => exact ih hr (.inr hnext) h
    | zero =>
      obtain ⟨token, k, ts', htoken, hts', rfl⟩ := tokensFrom_cons_eq_ok h
      intro hmem
      rcases List.mem_cons.mp hmem with rfl | hmem
      · exact hbefore.resolve_left (Nat.lt_irrefl 0) (before_of_tokenAt hr htoken).1
      · exact ih hr (.inr hnext) hts' hmem

/-- **Only two stars stand for any number of steps**, where they are all of a
step. -/
theorem eq_of_mem_anyDepth {position : Nat} {text : List Char} {ts : List Token} (hslash : '/' ∉ text)
    (h : tokensFrom 0 position none text = .ok ts) (hmem : .anyDepth ∈ ts) :
    text = ['*', '*'] := by
  cases text with
  | nil =>
    obtain rfl : ts = [] := (Except.ok.inj h).symm
    exact absurd hmem List.not_mem_nil
  | cons c r =>
    obtain ⟨hc, hr⟩ := not_or.mp (mt List.mem_cons.mpr hslash)
    have hnext : ¬ (some c).all (· == '/') = true := by simpa using fun h => hc h.symm
    obtain ⟨token, k, ts', htoken, hts', rfl⟩ := tokensFrom_cons_eq_ok h
    rcases List.mem_cons.mp hmem with rfl | hmem
    · obtain ⟨-, rfl, rfl, -⟩ := before_of_tokenAt hr htoken
      rfl
    · exact absurd hmem (anyDepth_notMem hr (.inr hnext) hts')

end Glob

/-! ## Letters

A template in which the name of a locale has been put is more than a text,
since `[en]` from the locale and `[en]` from the template do not mean the same.
`Letter` keeps the origin of each character. What the letters of a step fit is
defined run by run, without brackets: `isMatch` on the template's runs,
equality on the locale's. This definition is what the claims about templates
are stated with, and it is decidable, so that it can be evaluated on
examples. -/

/-- A character of a template for a locale. -/
structure Letter where
  char : Char
  /-- The character is one of the locale, and stands for itself. -/
  literal : Bool
deriving Repr, DecidableEq, Inhabited

namespace Letter

open Glob

/-- How a letter is spelled in a pattern. -/
def spelled (x : Letter) : List Char := if x.literal then Glob.spelled x.char else [x.char]

/-- The pattern that spells the letters. -/
def pattern (letters : List Letter) : List Char := letters.flatMap spelled

/-- The letters without a difference. -/
def text (letters : List Letter) : List Char := letters.map (·.char)

/-- The runs of letters of one kind, as long as they can be. -/
def runs (letters : List Letter) : List (List Letter) :=
  letters.splitBy fun x y => x.literal == y.literal

/-- What a run stands for: letters of the locale for themselves, and letters of
the template for what they stand for as a pattern. -/
def RunFits (run : List Letter) (name : List Char) : Prop :=
  if run.all (·.literal) then name = text run
  else isMatch (String.ofList (text run)) (String.ofList name) = true

/-- What runs stand for, one after the other. -/
def RunsFit : List (List Letter) → List Char → Prop
  | [], name => name = []
  | run :: rest, name => ∃ front back, name = front ++ back ∧ RunFits run front ∧ RunsFit rest back

instance (run : List Letter) (name : List Char) : Decidable (RunFits run name) :=
  inferInstanceAs (Decidable (if run.all (·.literal) then name = text run
    else isMatch (String.ofList (text run)) (String.ofList name) = true))

instance decidableRunsFit : (runs : List (List Letter)) → (name : List Char) →
    Decidable (RunsFit runs name)
  | [], name => inferInstanceAs (Decidable (name = []))
  | run :: rest, name =>
    have (back : List Char) : Decidable (RunsFit rest back) := decidableRunsFit rest back
    -- the front is as long as the name at most
    decidable_of_iff ((List.range (name.length + 1)).any fun i =>
        decide (RunFits run (name.take i)) && decide (RunsFit rest (name.drop i))) <| by
      simp only [List.any_eq_true, List.mem_range, Bool.and_eq_true, decide_eq_true_eq]
      constructor
      · rintro ⟨i, -, hfront, hback⟩
        exact ⟨name.take i, name.drop i, (List.take_append_drop i name).symm, hfront, hback⟩
      · rintro ⟨front, back, rfl, hfront, hback⟩
        refine ⟨front.length, by rw [List.length_append]; omega, ?_⟩
        rw [List.take_left, List.drop_left]
        exact ⟨hfront, hback⟩

/-- **A step stands for a name.** It is cut into runs of letters, and the name
has to be cut into texts that these stand for. -/
def Fits (step : List Letter) (name : String) : Prop := RunsFit (runs step) name.toList

instance (step : List Letter) (name : String) : Decidable (Fits step name) :=
  inferInstanceAs (Decidable (RunsFit (runs step) name.toList))

/-- No placeholder stands between brackets: the letters of the template can be
read by themselves, run by run. -/
def Separable (step : List Letter) : Prop :=
  ∀ run ∈ runs step, run.all (·.literal) = false → Readable (text run)

instance (step : List Letter) : Decidable (Separable step) :=
  inferInstanceAs (Decidable (∀ run ∈ runs step, run.all (·.literal) = false → Readable (text run)))

/-- Letters begin with a run of one kind, which a letter of the other kind
ends. -/
theorem runs_cases {letters : List Letter} (h : letters ≠ []) :
    ∃ literal run rest, letters = run ++ rest ∧ run ≠ [] ∧ (∀ x ∈ run, x.literal = literal) ∧
      (∀ x ∈ rest.head?, x.literal = !literal) ∧ runs letters = run :: runs rest := by
  obtain ⟨x, r, rfl⟩ := List.exists_cons_of_ne_nil h
  let same : Letter → Bool := fun y => y.literal == x.literal
  have hsplit : x :: r = (x :: r.takeWhile same) ++ r.dropWhile same := by
    rw [List.cons_append, List.takeWhile_append_dropWhile]
  have hrun : ∀ y ∈ x :: r.takeWhile same, y.literal = x.literal := by
    intro y hy
    rcases List.mem_cons.mp hy with rfl | hy
    · rfl
    · exact eq_of_beq (List.all_eq_true.mp List.all_takeWhile y hy)
  have hrest : ∀ y ∈ (r.dropWhile same).head?, y.literal = !x.literal := by
    intro y hy
    have hy' := List.head?_dropWhile_not same r
    rw [Option.mem_def.mp hy] at hy'
    exact Bool.eq_not_of_ne (by simpa [same] using hy')
  refine ⟨x.literal, x :: r.takeWhile same, r.dropWhile same, hsplit, by simp, hrun, hrest, ?_⟩
  -- within the run all letters are of one kind, and what follows it begins
  -- with the other one
  have hchain : (x :: r.takeWhile same).IsChain fun y z => (y.literal == z.literal) = true := by
    refine List.Pairwise.isChain (List.pairwise_of_forall_mem_list fun y hy z hz => ?_)
    rw [hrun y hy, hrun z hz]
    exact beq_self_eq_true _
  have hends : ∀ y ∈ (x :: r.takeWhile same).getLast?, ∀ z ∈ (r.dropWhile same).head?,
      (y.literal == z.literal) = false := by
    intro y hy z hz
    rw [hrun y (List.mem_of_getLast? hy), hrest z hz]
    exact beq_false_of_ne (by simp)
  rw [hsplit, runs, List.splitBy_append hends, List.splitBy_of_isChain (by simp) hchain]
  rfl

/-! ## What the spelled letters stand for

The program puts the letters together into one text, with the locale's letters
in brackets where needed, and reads that as a pattern. `admits_iff_runsFit`
says that it gets the same. A run of the template is read as by itself, by the
lemmas on reading in two parts; a run of the locale is read letter by letter,
and each token stands for its letter only. -/

theorem pattern_append (letters more : List Letter) :
    pattern (letters ++ more) = pattern letters ++ pattern more := List.flatMap_append

/-- Letters of the template are spelled as they are. -/
theorem pattern_of_own {run : List Letter} (h : ∀ x ∈ run, x.literal = false) :
    pattern run = text run := by
  induction run with
  | nil => rfl
  | cons x run ih =>
    obtain ⟨hx, hrun⟩ := List.forall_mem_cons.mp h
    have hone : x.spelled = [x.char] := by
      rw [spelled, hx]
      rfl
    rw [pattern, List.flatMap_cons, ← pattern, ih hrun, hone]
    rfl

/-- No star stands in front of what is spelled. -/
theorem head?_pattern_of_literal {letters : List Letter} (h : ∀ x ∈ letters.head?, x.literal = true) :
    (pattern letters).head? ≠ some '*' := by
  cases letters with
  | nil => simp [pattern]
  | cons x r =>
    have hx : x.literal = true := h x rfl
    rw [pattern, List.flatMap_cons, spelled, hx, if_pos rfl, Glob.spelled]
    split
    next => simp
    next hspecial =>
      intro hstar
      refine hspecial ?_
      have hchar : x.char = '*' := Option.some.inj hstar
      rw [hchar]
      rfl

/-- Letters of the locale are read one by one. -/
theorem tokensFrom_literals {run : List Letter} (hrun : ∀ x ∈ run, x.literal = true)
    {rest : List Char} {position : Nat} {before : Option Char} {ts : List Token}
    (h : tokensFrom 0 position before (pattern run ++ rest) = .ok ts) :
    ∃ position' before' ts', tokensFrom 0 position' before' rest = .ok ts' ∧
      ts = (text run).map only ++ ts' := by
  induction run generalizing position before ts with
  | nil => exact ⟨position, before, ts, h, rfl⟩
  | cons x run ih =>
    obtain ⟨hx, hrun⟩ := List.forall_mem_cons.mp hrun
    rw [pattern, List.flatMap_cons, ← pattern, List.append_assoc, spelled, hx, if_pos rfl] at h
    obtain ⟨position', before', us, hus, rfl⟩ := tokensFrom_spelled h
    obtain ⟨position'', before'', ts', hts', rfl⟩ := ih hrun hus
    exact ⟨position'', before'', ts', hts', rfl⟩

/-- Characters that stand for themselves. -/
theorem admits_map_only (chars name : List Char) :
    admits (chars.map only) name = true ↔ name = chars := by
  induction chars generalizing name with
  | nil => rw [List.map_nil, admits, List.isEmpty_iff]
  | cons c chars ih =>
    rw [List.map_cons, admits_single (isSingle_only c)]
    constructor
    · rintro ⟨d, r, rfl, hd, hr⟩
      rw [(admits_only c d).mp hd, (ih r).mp hr]
    · rintro rfl
      exact ⟨c, chars, rfl, (admits_only c c).mpr rfl, (ih chars).mpr rfl⟩

/-- **The spelled letters stand for what the letters stand for**, if they are
not any number of steps. Each run can be read by itself, and the tokens of the
step are those of its runs, one run behind the other. -/
theorem admits_iff_runsFit {step : List Letter} (hseparable : Separable step) {position : Nat}
    {before : Option Char} {ts : List Token} (h : tokensFrom 0 position before (pattern step) = .ok ts)
    (hnames : .anyDepth ∉ ts) (name : List Char) :
    admits ts name = true ↔ RunsFit (runs step) name := by
  -- the induction is on how long the step is, since runs are taken off at its
  -- front
  induction hn : step.length using Nat.strongRecOn generalizing step position before ts name with
  | ind n ih =>
    by_cases hstep : step = []
    · subst hstep
      obtain rfl : ts = [] := (Except.ok.inj h).symm
      rw [admits, List.isEmpty_iff]
      exact Iff.rfl
    obtain ⟨literal, run, rest, rfl, hne, hrun, hrest, hruns⟩ := runs_cases hstep
    have hshorter : rest.length < n := by
      have hpositive : 0 < run.length := List.length_pos_of_ne_nil hne
      rw [← hn, List.length_append]
      omega
    have hseparable' : Separable rest := fun run' hrun' =>
      hseparable run' (by rw [hruns]; exact List.mem_cons_of_mem run hrun')
    rw [pattern_append] at h
    rw [hruns, RunsFit]
    -- what is read of the run stands for what the run stands for, and the rest
    -- is read by itself
    suffices hsplit : ∃ us position' before' more,
        tokensFrom 0 position' before' (pattern rest) = .ok more ∧ ts = us ++ more ∧
          ∀ front, admits us front = true ↔ RunFits run front by
      obtain ⟨us, position', before', more, hmore, rfl, hfront⟩ := hsplit
      obtain ⟨hus, hmore'⟩ := not_or.mp (mt List.mem_append.mpr hnames)
      rw [admits_append hus]
      simp only [hfront, ih rest.length hshorter hseparable' hmore hmore' _ rfl]
    cases literal with
    | true =>
      obtain ⟨position', before', more, hmore, rfl⟩ := tokensFrom_literals hrun h
      refine ⟨_, position', before', more, hmore, rfl, fun front => ?_⟩
      rw [admits_map_only, RunFits, if_pos (List.all_eq_true.mpr hrun)]
    | false =>
      obtain ⟨x, hx⟩ := List.exists_mem_of_ne_nil run hne
      have hown : run.all (·.literal) = false := by
        rw [List.all_eq_false]
        exact ⟨x, hx, by simp [hrun x hx]⟩
      have hreadable : Readable (text run) :=
        hseparable run (by rw [hruns]; exact List.mem_cons_self) hown
      obtain ⟨us, hus⟩ := exists_tokens_iff.mpr
        (by rwa [String.toList_ofList] : Readable (String.ofList (text run)).toList)
      have hus' : tokensFrom 0 0 none (text run) = .ok us := by
        rwa [tokens, String.toList_ofList] at hus
      rw [pattern_of_own hrun] at h
      obtain ⟨position', before', more, hmore, rfl⟩ :=
        tokensFrom_append (head?_pattern_of_literal hrest) (Nat.zero_le _) hus' h hnames
      refine ⟨us, position', before', more, hmore, rfl, fun front => ?_⟩
      rw [RunFits, hown, if_neg (by simp), isMatch, hus, String.toList_ofList]

/-! ## Steps

Slashes divide a template into steps, and it does not matter whether they were
written in the template or came with the locale: `zh/TW` makes two steps out of
one. Spelling keeps slashes, so the steps of the letters are spelled into the
steps of the pattern. -/

/-- What stands between the slashes, of whichever kind these are. -/
def steps (letters : List Letter) : List (List Letter) := letters.splitOnP (·.char == '/')

theorem slash_mem_spelled {x : Letter} : '/' ∈ x.spelled ↔ x.char = '/' := by
  rw [spelled]
  split
  · exact Glob.slash_mem_spelled
  · simp [eq_comm]

/-- A slash is spelled as it is. -/
theorem spelled_of_slash {x : Letter} (h : x.char = '/') : x.spelled = ['/'] := by
  rw [spelled, h]
  split <;> rfl

/-- **Spelling leaves the steps as they are.** Only a slash is spelled with a
slash, since an escaped letter is put in brackets and no slash is escaped. -/
theorem pieces_pattern (letters : List Letter) :
    Text.pieces '/' (pattern letters) = (steps letters).map pattern := by
  induction letters with
  | nil => rfl
  | cons x letters ih =>
    rw [pattern, List.flatMap_cons, ← pattern, steps, List.splitOnP_cons_eq_if_modifyHead, ← steps]
    by_cases hx : x.char = '/'
    · rw [if_pos (beq_iff_eq.mpr hx), spelled_of_slash hx, List.singleton_append, Text.pieces,
        if_pos (beq_self_eq_true _), ih]
      rfl
    · rw [if_neg (by simpa using hx), Text.pieces_append_of_notMem (mt slash_mem_spelled.mp hx), ih]
      cases steps letters with
      | nil => rfl
      | cons step more => rfl

/-- There is no slash in a step. -/
theorem ne_slash_of_mem_steps {letters step : List Letter} (h : step ∈ steps letters) :
    ∀ x ∈ step, x.char ≠ '/' := by
  induction letters generalizing step with
  | nil =>
    obtain rfl : step = [] := List.mem_singleton.mp h
    simp
  | cons x letters ih =>
    rw [steps, List.splitOnP_cons_eq_if_modifyHead, ← steps] at h
    by_cases hx : x.char = '/'
    · rw [if_pos (beq_iff_eq.mpr hx)] at h
      rcases List.mem_cons.mp h with rfl | h
      · simp
      · exact ih h
    · rw [if_neg (by simpa using hx)] at h
      cases hsteps : steps letters with
      | nil => exact absurd hsteps (List.splitOnP_ne_nil _ _)
      | cons first more =>
        rw [hsteps] at h ih
        rcases List.mem_cons.mp h with rfl | h
        · exact List.forall_mem_cons.mpr ⟨hx, ih List.mem_cons_self⟩
        · exact ih (List.mem_cons_of_mem _ h)

/-- Nor is there one in what is spelled for it. -/
theorem slash_notMem_pattern {step : List Letter} (h : ∀ x ∈ step, x.char ≠ '/') :
    '/' ∉ pattern step := by
  intro hmem
  obtain ⟨x, hx, hslash⟩ := List.mem_flatMap.mp hmem
  exact h x hx (slash_mem_spelled.mp hslash)

/-! ## Templates

Where the letters come from. A template is gone over once, as `Text.replaced`
goes over it, and each placeholder gives way to the letters of the locale. The
two recursions are the same, up to what is put in, and so is the proof that the
program's text is the spelling of these letters. -/

/-- The letters of a template, where the locale is in the place of the
placeholder. The first argument counts characters of a placeholder that is
being passed over. -/
def ofTemplateFrom (locale : List Char) : (skip : Nat) → List Char → List Letter
  | _, [] => []
  | k + 1, _ :: r => ofTemplateFrom locale k r
  | 0, c :: r =>
    if localePlaceholder.toList.isPrefixOf (c :: r) then
      locale.map (⟨·, true⟩) ++ ofTemplateFrom locale (localePlaceholder.toList.length - 1) r
    else ⟨c, false⟩ :: ofTemplateFrom locale 0 r

/-- The letters of a template for a locale. -/
def ofTemplate (template locale : String) : List Letter :=
  ofTemplateFrom locale.toList 0 template.toList

/-- The spelling of the letters is what the replacement in the text makes. -/
theorem pattern_ofTemplateFrom (locale : List Char) (skip : Nat) (template : List Char) :
    pattern (ofTemplateFrom locale skip template)
      = Text.replacedFrom localePlaceholder.toList (locale.flatMap Glob.spelled) skip template := by
  induction template generalizing skip with
  | nil => cases skip <;> rfl
  | cons c r ih =>
    cases skip with
    | succ k => exact ih k
    | zero =>
      rw [ofTemplateFrom, Text.replacedFrom]
      split
      · rw [pattern_append, ih, pattern, List.flatMap_map]
        rfl
      · rw [pattern, List.flatMap_cons, ← pattern, ih]
        rfl

/-- **The pattern of a template for a locale** spells its letters. The letters
of the locale are escaped and those of the template are not, and that is all in
which they differ. -/
theorem replaced_eq (template locale : String) :
    Text.replaced template localePlaceholder (escape locale)
      = String.ofList (pattern (ofTemplate template locale)) := by
  rw [Text.replaced, escape_eq, String.toList_ofList, ofTemplate, pattern_ofTemplateFrom]

end Letter

end LocaleKeys
