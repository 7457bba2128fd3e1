/-
The steps that letters spell.

A template for a locale is searched for by the steps of the pattern that spells
its letters. What these stand for is said of the letters alone
(`Letter.StandFor`): each step for one piece of a path, and two stars for any
number of names on the way to another one. A piece that is no name, such as two
dots, is stood for only by a step that begins as it does, so that no wildcard
leads up unless a dot is put in front of it.

The steps that are searched for stand for the same
(`Letter.stand_iff_standFor`).
-/
import LocaleKeys.Proofs.Glob.Letters
import LocaleKeys.Proofs.Glob.Searching

set_option autoImplicit false

namespace LocaleKeys

namespace Glob

/-! ## Tokens that stand for themselves

A step without wildcards is not searched for but gone to, so that it may be a
dot or two dots, or empty. Whether a step is of that kind is told from its
tokens, and here these are led back to the characters they were read from. -/

/-- A token of a character was read from that character alone. -/
theorem tokenAt_char {position : Nat} {before : Option Char} {c x : Char} {r : List Char} {k : Nat}
    (h : tokenAt position before c r = .ok (.char x, k)) : x = c ∧ k = 0 := by
  -- wildcards and brackets never give such a token
  by_cases hstar : c = '*'
  · subst hstar
    rw [tokenAt, if_neg (by decide), if_pos (by decide)] at h
    split at h
    · exact absurd (Prod.mk.inj (Except.ok.inj h)).1 (by simp)
    · split at h
      · split at h
        · exact absurd (Prod.mk.inj (Except.ok.inj h)).1 (by simp)
        · exact absurd (Prod.mk.inj (Except.ok.inj h)).1 (by simp)
        · exact absurd h (by simp)
      · exact absurd h (by simp)
    · exact absurd h (by simp)
  by_cases hbracket : c = '['
  · subst hbracket
    rw [tokenAt, if_neg (by decide), if_neg (by decide), if_pos (by decide)] at h
    dsimp only at h
    split at h
    · exact absurd h (by simp)
    · have htoken := Except.ok.inj h
      split at htoken
      · exact absurd (Prod.mk.inj htoken).1 (by simp)
      · exact absurd (Prod.mk.inj htoken).1 (by simp)
  · rw [tokenAt, beq_false_of_ne hstar, beq_false_of_ne hbracket] at h
    by_cases hone : c = '?'
    · rw [hone] at h
      exact absurd (Prod.mk.inj (Except.ok.inj h)).1 (by simp)
    · rw [beq_false_of_ne hone] at h
      obtain ⟨hx, hk⟩ := Prod.mk.inj (Except.ok.inj h)
      exact ⟨(Token.char.inj hx).symm, hk.symm⟩

/-- A token of a dot begins a text that begins with a dot. -/
theorem head?_tokens_iff {position : Nat} {before : Option Char} {text : List Char} {ts : List Token}
    (h : tokensFrom 0 position before text = .ok ts) :
    ts.head? = some (.char '.') ↔ text.head? = some '.' := by
  cases text with
  | nil =>
    obtain rfl : ts = [] := (Except.ok.inj h).symm
    simp
  | cons c r =>
    obtain ⟨token, k, ts', htoken, -, rfl⟩ := tokensFrom_cons_eq_ok h
    rw [List.head?_cons, List.head?_cons, Option.some_inj, Option.some_inj]
    constructor
    · rintro rfl
      exact (tokenAt_char htoken).1.symm
    · rintro rfl
      have hown : tokenAt position before '.' r = .ok (.char '.', 0) := rfl
      exact (Prod.mk.inj (Except.ok.inj (htoken.symm.trans hown))).1

/-- A step is any number of steps if one of its tokens is. -/
theorem ofTokens_eq_anyDepth_iff {ts : List Token} {text : String} :
    Segment.ofTokens text ts = .anyDepth ↔ .anyDepth ∈ ts := by
  rw [Segment.ofTokens, ← List.contains_iff_mem]
  split
  next hnames => exact iff_of_true rfl hnames
  next hnames =>
    refine iff_of_false ?_ hnames
    split <;> simp

/-- All tokens stand for themselves. -/
def ArePlain (ts : List Token) : Prop := ∀ t ∈ ts, ∃ c, t = .char c

/-- A step of characters only is looked for as it is. -/
theorem ofTokens_of_plain {ts : List Token} (h : ArePlain ts) (text : String) :
    Segment.ofTokens text ts = .plain text := by
  have hnames : ¬ ts.contains .anyDepth = true := by
    intro hmem
    obtain ⟨c, hc⟩ := h _ (List.contains_iff_mem.mp hmem)
    exact absurd hc (by simp)
  rw [Segment.ofTokens, if_neg hnames, if_pos (List.all_eq_true.mpr fun t ht => ?_)]
  obtain ⟨c, rfl⟩ := h t ht
  rfl

/-- A step that is looked for as it is was read from itself. -/
theorem eq_of_ofTokens {ts : List Token} {text name : String}
    (h : Segment.ofTokens text ts = .plain name) : name = text := by
  rw [Segment.ofTokens] at h
  split at h
  · exact absurd h (by simp)
  · split at h
    · exact (Segment.plain.inj h).symm
    · exact absurd h (by simp)

/-- Any other step is matched against names. -/
theorem ofTokens_of_not_plain {ts : List Token} (hnames : .anyDepth ∉ ts) (h : ¬ ArePlain ts)
    (text : String) : Segment.ofTokens text ts = .names ts := by
  rw [Segment.ofTokens, if_neg (mt List.contains_iff_mem.mp hnames), if_neg]
  intro hall
  refine h fun t ht => ?_
  have hchar := List.all_eq_true.mp hall t ht
  cases t with
  | char c => exact ⟨c, rfl⟩
  | one | many | anyDepth | within | outside => exact absurd hchar (by simp)

/-- A text without wildcards stands for itself. -/
theorem admits_iff_of_plain {position : Nat} {before : Option Char} {text : List Char}
    {ts : List Token} (h : tokensFrom 0 position before text = .ok ts)
    (hplain : ArePlain ts) (name : List Char) :
    admits ts name = true ↔ name = text := by
  induction text generalizing position before ts name with
  | nil =>
    obtain rfl : ts = [] := (Except.ok.inj h).symm
    rw [admits, List.isEmpty_iff]
  | cons c r ih =>
    obtain ⟨token, k, ts', htoken, hts', rfl⟩ := tokensFrom_cons_eq_ok h
    obtain ⟨⟨x, rfl⟩, hrest⟩ := List.forall_mem_cons.mp hplain
    obtain ⟨rfl, rfl⟩ := tokenAt_char htoken
    rw [admits_single ⟨by simp, by simp⟩]
    simp only [ih hts' hrest, Token.admits, beq_iff_eq]
    constructor
    · rintro ⟨d, s, rfl, rfl, rfl⟩
      rfl
    · rintro rfl
      exact ⟨x, r, rfl, rfl, rfl⟩

end Glob

namespace Letter

open Glob

/-! ## What letters stand for in a path

`Stand` was about the steps that the program searches for. `StandFor` says the
same of letters and is what the claims are stated with: a reader needs to know
`Letter.Fits` and nothing of tokens or brackets. The condition on pieces that
are no names repeats what the program does with a dot in front, in terms of the
first letter. -/

/-- The step stands for a piece of a path. A piece that is no name begins as
the step does. -/
def StandsFor (step : List Letter) (piece : String) : Prop :=
  Fits step piece ∧ (Disk.Location.IsName piece ∨ (text step).head? = piece.toList.head?)

/-- Two stars of the template make up the step. -/
def IsAnyDepth (step : List Letter) : Prop := step = [⟨'*', false⟩, ⟨'*', false⟩]

instance (step : List Letter) : Decidable (IsAnyDepth step) :=
  inferInstanceAs (Decidable (step = [⟨'*', false⟩, ⟨'*', false⟩]))

/-- **The steps stand for the pieces of a path.** Two stars stand for any
number of names on the way to another name. -/
def StandFor : List (List Letter) → List String → Prop
  | [], way => way = []
  | step :: rest, way =>
    if IsAnyDepth step then ∃ front name more, way = front ++ name :: more ∧
      (∀ n ∈ front, Path.IsEntryName n) ∧ Path.IsEntryName name ∧ StandFor rest (name :: more)
    else ∃ piece more, way = piece :: more ∧ StandsFor step piece ∧ StandFor rest more

instance (step : List Letter) (piece : String) : Decidable (StandsFor step piece) :=
  inferInstanceAs (Decidable (Fits step piece ∧
    ((Path.isIdle piece = false ∧ piece ≠ "..") ∨ (text step).head? = piece.toList.head?)))

instance decidableStandFor : (steps : List (List Letter)) → (way : List String) →
    Decidable (StandFor steps way)
  | [], way => inferInstanceAs (Decidable (way = []))
  | step :: rest, way =>
    have (more : List String) : Decidable (StandFor rest more) := decidableStandFor rest more
    if hstars : IsAnyDepth step then
      decidable_of_iff ((List.range way.length).any fun i =>
          (way.take i).all (decide <| Path.IsEntryName ·) &&
            (way.drop i).head?.all (decide <| Path.IsEntryName ·) &&
            decide (StandFor rest (way.drop i))) <| by
        simp only [List.any_eq_true, List.mem_range, Bool.and_eq_true, List.all_eq_true,
          decide_eq_true_eq, and_assoc]
        rw [StandFor, if_pos hstars]
        constructor
        · rintro ⟨i, hi, hfront, hname, hstand⟩
          obtain ⟨name, more, hmore⟩ :=
            List.exists_cons_of_ne_nil (mt List.drop_eq_nil_iff.mp (Nat.not_le_of_lt hi))
          rw [hmore] at hname hstand
          refine ⟨way.take i, name, more, ?_, hfront, by simpa using hname, hstand⟩
          rw [← hmore, List.take_append_drop]
        · rintro ⟨front, name, more, rfl, hfront, hname, hstand⟩
          refine ⟨front.length, by simp, ?_⟩
          rw [List.take_left, List.drop_left]
          exact ⟨hfront, by simpa using hname, hstand⟩
    else match way with
      | [] => isFalse <| by
        rw [StandFor, if_neg hstars]
        rintro ⟨piece, more, hnil, -⟩
        exact absurd hnil (by simp)
      | piece :: more => decidable_of_iff (StandsFor step piece ∧ StandFor rest more) <| by
        rw [StandFor, if_neg hstars]
        constructor
        · rintro ⟨hpiece, hstand⟩
          exact ⟨piece, more, rfl, hpiece, hstand⟩
        · rintro ⟨piece', more', heq, hpiece, hstand⟩
          obtain ⟨rfl, rfl⟩ := List.cons.inj heq
          exact ⟨hpiece, hstand⟩

/-! ## What is read of a step

One step: its letters, the text they are spelled as, the tokens that are read
of this, and what is searched for. Each of the cases of `Segment.ofTokens` is
told from the letters, and in each the pieces that are stood for are the same.
Where the first character matters, spelling does not get in the way, since a
dot is never put in brackets. -/

section

variable {step : List Letter} {ts : List Token}

/-- Only no letters are spelled as nothing. -/
theorem pattern_eq_nil_iff : pattern step = [] ↔ step = [] := by
  cases step with
  | nil => exact iff_of_true rfl rfl
  | cons x step =>
    refine iff_of_false ?_ (by simp)
    rw [pattern, List.flatMap_cons, spelled]
    split
    · rw [Glob.spelled]
      split <;> simp
    · simp

/-- A dot in front is spelled as it is. -/
theorem head?_pattern_iff : (pattern step).head? = some '.' ↔ (text step).head? = some '.' := by
  cases step with
  | nil => exact Iff.rfl
  | cons x step =>
    rw [pattern, List.flatMap_cons, text, List.map_cons, List.head?_cons, spelled, Glob.spelled]
    split
    · split
      next hspecial =>
        refine iff_of_false (by simp) fun hdot => ?_
        rw [Option.some.inj hdot] at hspecial
        exact absurd hspecial (by decide)
      next => simp
    · simp

/-- Where a piece is no name, it does not matter whether the letters are
spelled. -/
theorem head?_eq_iff {piece : String} (hpiece : ¬ Disk.Location.IsName piece) :
    (text step).head? = piece.toList.head? ↔ (pattern step).head? = piece.toList.head? := by
  rcases Disk.Location.piece_cases piece with hidle | rfl | hname
  · rw [Path.isIdle, Bool.or_eq_true, beq_iff_eq, beq_iff_eq] at hidle
    rcases hidle with rfl | rfl
    · rw [show "".toList.head? = none from rfl, List.head?_eq_none_iff, List.head?_eq_none_iff,
        pattern_eq_nil_iff, text, List.map_eq_nil_iff]
    · exact head?_pattern_iff.symm
  · exact head?_pattern_iff.symm
  · exact absurd hname hpiece

/-- A star that is not spelled is one of the template. -/
theorem exists_of_pattern_star {rest : List Char} (h : pattern step = '*' :: rest) :
    ∃ more, step = ⟨'*', false⟩ :: more ∧ pattern more = rest := by
  cases step with
  | nil => exact absurd h (by simp [pattern])
  | cons x more =>
    have hown : x.literal = false := by
      rw [Bool.eq_false_iff]
      intro hliteral
      have hfront : ∀ y ∈ (x :: more).head?, y.literal = true := by
        rintro y hy
        rwa [← Option.some.inj hy]
      exact head?_pattern_of_literal hfront (by rw [h, List.head?_cons])
    rw [pattern, List.flatMap_cons, spelled, hown, if_neg (by simp), List.singleton_append] at h
    obtain ⟨hchar, hrest⟩ := List.cons.inj h
    exact ⟨more, by rw [← hchar, ← hown], hrest⟩

/-- Only two stars of the template are read as any number of steps. -/
theorem anyDepth_mem_iff (hslash : ∀ x ∈ step, x.char ≠ '/')
    (hts : tokensFrom 0 0 none (pattern step) = .ok ts) : .anyDepth ∈ ts ↔ IsAnyDepth step := by
  constructor
  · intro hmem
    have hpattern := eq_of_mem_anyDepth (slash_notMem_pattern hslash) hts hmem
    obtain ⟨more, rfl, hmore⟩ := exists_of_pattern_star hpattern
    obtain ⟨more', rfl, hnil⟩ := exists_of_pattern_star hmore
    rw [IsAnyDepth, pattern_eq_nil_iff.mp hnil]
  · rintro rfl
    have hstars : tokensFrom 0 0 none (pattern [⟨'*', false⟩, ⟨'*', false⟩]) = .ok [.anyDepth] := rfl
    rw [← Except.ok.inj (hstars.symm.trans hts)]
    exact List.mem_cons_self

/-- **A step that is searched for stands for the same pieces** as its letters.
Plain text is compared and everything else is matched, and for a piece that is
plain both come to the same. -/
theorem segment_standsFor_iff (hseparable : Separable step)
    (hts : tokensFrom 0 0 none (pattern step) = .ok ts) (hnames : .anyDepth ∉ ts) {piece : String}
    (hpiece : '/' ∉ piece.toList) :
    (Segment.ofTokens (String.ofList (pattern step)) ts).StandsFor piece ↔ StandsFor step piece := by
  have hfits : admits ts piece.toList = true ↔ Fits step piece :=
    admits_iff_runsFit hseparable hts hnames piece.toList
  by_cases hplain : ArePlain ts
  · -- plain text stands for itself, whatever it is
    have hself : Fits step piece ↔ piece.toList = pattern step := by
      rw [← hfits, admits_iff_of_plain hts hplain]
    rw [ofTokens_of_plain hplain, Segment.StandsFor, StandsFor, hself, ← String.toList_inj,
      String.toList_ofList]
    refine (and_iff_left_of_imp fun heq => or_iff_not_imp_left.mpr fun hname => ?_).symm
    rw [head?_eq_iff hname, heq]
  · rw [ofTokens_of_not_plain hnames hplain, Segment.StandsFor, StandsFor, ← hfits]
    by_cases hname : Disk.Location.IsName piece
    · rw [Path.IsEntryName, and_iff_right (⟨hname, hpiece⟩ : _ ∧ _), and_iff_left (.inl hname)]
      refine or_iff_right fun hdots => ?_
      rcases (mem_dots.mp hdots).2.1 with rfl | rfl
      · exact hname.2 rfl
      · exact absurd hname.1 (by decide)
    · -- a piece that is no name is among those that a dot in front stands for
      rw [or_iff_left fun h => hname h.1.1, or_iff_right hname, head?_eq_iff hname, mem_dots,
        head?_tokens_iff hts]
      constructor
      · rintro ⟨hhead, hdots, hadmits⟩
        refine ⟨hadmits, ?_⟩
        rcases hdots with rfl | rfl <;> exact hhead
      · rintro ⟨hadmits, hhead⟩
        have hdots : piece = ".." ∨ piece = "." := by
          rcases Disk.Location.piece_cases piece with hidle | hup | hname'
          · rw [Path.isIdle, Bool.or_eq_true, beq_iff_eq, beq_iff_eq] at hidle
            refine hidle.elim (fun hempty => absurd ?_ hplain) .inr
            -- an empty piece is stood for by an empty step, which is plain
            rw [hempty] at hhead
            rw [List.head?_eq_none_iff.mp hhead] at hts
            rw [← Except.ok.inj hts]
            exact fun t ht => absurd ht List.not_mem_nil
          · exact .inl hup
          · exact absurd hname' hname
        refine ⟨?_, hdots, hadmits⟩
        rcases hdots with rfl | rfl <;> exact hhead

end

/-! ## The steps of a pattern

From one step to all of them. `Reads` is the program's reading of the pieces,
one by one, as a relation between lists of letters and what is searched for; it
is taken apart at the front and in the middle, as the lists are. The induction
of `stand_iff_standFor` is on the steps, with the way cut as each of them
says. -/

/-- What is read of steps, one by one. -/
def Reads (steps : List (List Letter)) (segments : List Segment) : Prop :=
  (steps.map fun step => String.ofList (pattern step)).mapM
    (fun piece => (tokens piece).map (Segment.ofTokens piece)) = .ok segments

theorem reads_nil : Reads [] [] := rfl

/-- The first step is read by itself, and so are the others. -/
theorem reads_cons_iff {step : List Letter} {steps : List (List Letter)} {segments : List Segment} :
    Reads (step :: steps) segments ↔ ∃ ts rest, tokensFrom 0 0 none (pattern step) = .ok ts ∧
      Reads steps rest ∧ segments = Segment.ofTokens (String.ofList (pattern step)) ts :: rest := by
  rw [Reads, List.map_cons, List.mapM_cons]
  constructor
  · intro h
    obtain ⟨s, hs, h⟩ := bind_eq_ok_iff.mp h
    obtain ⟨rest, hrest, h⟩ := bind_eq_ok_iff.mp h
    obtain ⟨ts, hts, rfl⟩ := map_eq_ok_iff.mp hs
    rw [tokens, String.toList_ofList] at hts
    exact ⟨ts, rest, hts, hrest, (Except.ok.inj h).symm⟩
  · rintro ⟨ts, rest, hts, hrest, rfl⟩
    have hs : (tokens (String.ofList (pattern step))).map (Segment.ofTokens (String.ofList (pattern step)))
        = .ok (Segment.ofTokens (String.ofList (pattern step)) ts) :=
      map_eq_ok_iff.mpr ⟨ts, by rwa [tokens, String.toList_ofList], rfl⟩
    exact bind_eq_ok_iff.mpr ⟨_, hs, bind_eq_ok_iff.mpr ⟨rest, hrest, rfl⟩⟩

/-- Steps that are read one after the other are read by themselves. -/
theorem reads_append_iff {steps more : List (List Letter)} {segments : List Segment} :
    Reads (steps ++ more) segments ↔
      ∃ front rest, Reads steps front ∧ Reads more rest ∧ segments = front ++ rest := by
  induction steps generalizing segments with
  | nil =>
    constructor
    · intro h
      exact ⟨[], segments, reads_nil, h, rfl⟩
    · rintro ⟨front, rest, hfront, hrest, rfl⟩
      obtain rfl : front = [] := (Except.ok.inj hfront).symm
      exact hrest
  | cons step steps ih =>
    simp only [List.cons_append, reads_cons_iff, ih]
    constructor
    · rintro ⟨ts, -, hts, ⟨front, rest, hfront, hrest, rfl⟩, rfl⟩
      exact ⟨_, rest, ⟨ts, front, hts, hfront, rfl⟩, hrest, rfl⟩
    · rintro ⟨-, rest, ⟨ts, front, hts, hfront, rfl⟩, hrest, rfl⟩
      exact ⟨ts, front ++ rest, hts, ⟨front, rest, hfront, hrest, rfl⟩, rfl⟩

/-- What is searched for is what is read of some step. -/
theorem exists_of_mem_reads {steps : List (List Letter)} {segments : List Segment}
    (h : Reads steps segments) {s : Segment} (hs : s ∈ segments) :
    ∃ step ∈ steps, ∃ ts, tokensFrom 0 0 none (pattern step) = .ok ts ∧
      s = Segment.ofTokens (String.ofList (pattern step)) ts := by
  obtain ⟨piece, hpiece, hread⟩ := (mem_iff_of_mapM h).mp hs
  obtain ⟨step, hstep, rfl⟩ := List.mem_map.mp hpiece
  obtain ⟨ts, hts, rfl⟩ := map_eq_ok_iff.mp hread
  rw [tokens, String.toList_ofList] at hts
  exact ⟨step, hstep, ts, hts, rfl⟩

/-- The letters make up one step, and no placeholder stands between brackets in
it. -/
structure Regular (step : List Letter) : Prop where
  slash : ∀ x ∈ step, x.char ≠ '/'
  separable : Separable step

/-- **The steps that are searched for stand for the same pieces** as the
letters they were spelled from. The statement on single steps is carried along
the way, where two stars take any number of names on both sides. -/
theorem stand_iff_standFor {steps : List (List Letter)} (hsteps : ∀ step ∈ steps, Regular step)
    {segments : List Segment} (h : Reads steps segments) {way : List String}
    (hway : ∀ piece ∈ way, '/' ∉ piece.toList) : Stand segments way ↔ StandFor steps way := by
  induction steps generalizing segments way with
  | nil =>
    obtain rfl : segments = [] := (Except.ok.inj h).symm
    exact Iff.rfl
  | cons step steps ih =>
    obtain ⟨ts, rest, hts, hrest, rfl⟩ := reads_cons_iff.mp h
    obtain ⟨hstep, hsteps⟩ := List.forall_mem_cons.mp hsteps
    have hdepth : Segment.ofTokens (String.ofList (pattern step)) ts = .anyDepth ↔ IsAnyDepth step :=
      ofTokens_eq_anyDepth_iff.trans (anyDepth_mem_iff hstep.slash hts)
    rw [StandFor]
    by_cases hstars : IsAnyDepth step
    · rw [if_pos hstars, hdepth.mpr hstars, Stand]
      constructor
      · rintro ⟨front, name, more, rfl, hfront, hname, hstand⟩
        refine ⟨front, name, more, rfl, hfront, hname, ?_⟩
        exact (ih hsteps hrest (List.forall_mem_append.mp hway).2).mp hstand
      · rintro ⟨front, name, more, rfl, hfront, hname, hstand⟩
        refine ⟨front, name, more, rfl, hfront, hname, ?_⟩
        exact (ih hsteps hrest (List.forall_mem_append.mp hway).2).mpr hstand
    · have hnames : .anyDepth ∉ ts := fun hmem => hstars ((anyDepth_mem_iff hstep.slash hts).mp hmem)
      rw [if_neg hstars, stand_cons (mt hdepth.mp hstars)]
      constructor
      · rintro ⟨piece, more, rfl, hpiece, hstand⟩
        obtain ⟨hslash, hmore⟩ := List.forall_mem_cons.mp hway
        exact ⟨piece, more, rfl, (segment_standsFor_iff hstep.separable hts hnames hslash).mp hpiece,
          (ih hsteps hrest hmore).mp hstand⟩
      · rintro ⟨piece, more, rfl, hpiece, hstand⟩
        obtain ⟨hslash, hmore⟩ := List.forall_mem_cons.mp hway
        exact ⟨piece, more, rfl, (segment_standsFor_iff hstep.separable hts hnames hslash).mpr hpiece,
          (ih hsteps hrest hmore).mpr hstand⟩

/-- What is read of a step that is looked for as it is has no slash. -/
theorem slash_notMem_of_reads {steps : List (List Letter)} (hsteps : ∀ step ∈ steps, Regular step)
    {segments : List Segment} (h : Reads steps segments) :
    ∀ text, .plain text ∈ segments → '/' ∉ text.toList := by
  intro text hmem
  obtain ⟨step, hstep, ts, -, heq⟩ := exists_of_mem_reads h hmem
  rw [eq_of_ofTokens heq.symm, String.toList_ofList]
  exact slash_notMem_pattern (hsteps step hstep).slash

end Letter

end LocaleKeys
