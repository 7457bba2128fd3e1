/-
What a search finds.

At each step of the pattern a search has come to a path, and from there on it
looks at the names that the step stands for. What the steps of a pattern stand
for has nothing to do with any tree (`Stand`): names mostly, but also a dot or
two dots, if the step says so itself or stands for them by a dot of its own in
front.

What is found is what such a way leads to (`found_of_mem_search`), and the
search gets to the end of each way that can be gone (`exists_mem_search`).
There is one exception. A path that is a dot is not shown, and where the
pattern goes on by an empty step, as a doubled slash makes one, nothing is left
to go on from.
-/
import LocaleKeys.Proofs.Files.Descending
import Mathlib.Data.List.Chain

set_option autoImplicit false

namespace LocaleKeys.Glob

/-! ## What steps of a pattern stand for

`Stand` is a relation and not a function, since one list of steps stands for
many ways, and it mentions no disk, so that what a template means can be told
before anything is searched. Two stars are cut at the name that the next step
has to stand for. That name is not taken up by the stars: the step behind them
sees it again. So two pairs of stars in a row say no more than one, which is
why merging them changes nothing. -/

/-- The step stands for a piece of a path. -/
def Segment.StandsFor : Segment → String → Prop
  | .plain text, piece => piece = text
  | .names tokens, piece =>
    piece ∈ dots tokens ∨ Path.IsEntryName piece ∧ Glob.admits tokens piece.toList = true
  | .anyDepth, _ => False

/-- **The steps stand for the pieces of a path.** Two stars stand for any
number of names on the way to another name. -/
def Stand : List Segment → List String → Prop
  | [], way => way = []
  | .anyDepth :: rest, way => ∃ front name more, way = front ++ name :: more ∧
      (∀ n ∈ front, Path.IsEntryName n) ∧ Path.IsEntryName name ∧ Stand rest (name :: more)
  | s :: rest, way => ∃ piece more, way = piece :: more ∧ s.StandsFor piece ∧ Stand rest more

/-- Every step but two stars takes one piece and leaves the rest to the rest. -/
theorem stand_cons {s : Segment} (hs : s ≠ .anyDepth) (rest : List Segment) (way : List String) :
    Stand (s :: rest) way ↔ ∃ piece more, way = piece :: more ∧ s.StandsFor piece ∧ Stand rest more := by
  cases s with
  | anyDepth => exact absurd rfl hs
  | plain name | names tokens => exact Iff.rfl

/-- Two stars more are none. -/
theorem stand_anyDepth_twice (rest : List Segment) (way : List String) :
    Stand (.anyDepth :: .anyDepth :: rest) way ↔ Stand (.anyDepth :: rest) way := by
  constructor
  · rintro ⟨front, name, more, rfl, hfront, -, front', name', more', heq, hfront', hname', h⟩
    refine ⟨front ++ front', name', more', ?_, ?_, hname', h⟩
    · rw [heq, List.append_assoc]
    · exact List.forall_mem_append.mpr ⟨hfront, hfront'⟩
  · rintro ⟨front, name, more, rfl, hfront, hname, h⟩
    exact ⟨front, name, more, rfl, hfront, hname, [], name, more, rfl, by simp, hname, h⟩

/-- What a step is followed by matters only for what that stands for. -/
theorem stand_congr {rest rest' : List Segment} (h : ∀ way, Stand rest way ↔ Stand rest' way)
    (s : Segment) (way : List String) : Stand (s :: rest) way ↔ Stand (s :: rest') way := by
  cases s with
  | anyDepth | plain name | names tokens => simp only [Stand, h]

/-- Merging leaves what the steps stand for. -/
theorem stand_merged (steps : List Segment) (way : List String) :
    Stand (merged steps) way ↔ Stand steps way := by
  fun_induction merged steps generalizing way with
  | case1 rest ih => rw [ih, stand_anyDepth_twice]
  | case2 s rest hs ih => exact stand_congr ih s way
  | case3 => exact Iff.rfl

/-- Merging leaves the first step, so that what stands in front of a merged
list may be compared with what stood in front of it before. -/
theorem head?_merged (steps : List Segment) : (merged steps).head? = steps.head? := by
  fun_induction merged steps with
  | case1 rest ih => exact ih
  | case2 s rest hs ih => rfl
  | case3 => rfl

/-- In what is merged two stars are never followed by two stars. -/
theorem merged_isChain (steps : List Segment) :
    (merged steps).IsChain fun s s' => s = .anyDepth → s' ≠ .anyDepth := by
  fun_induction merged steps with
  | case1 rest ih => exact ih
  | case2 s rest hs ih =>
    refine List.isChain_cons.mpr ⟨fun s' hs' hdepth hdepth' => ?_, ih⟩
    rw [head?_merged] at hs'
    obtain ⟨rest', rfl⟩ := List.head?_eq_some_iff.mp hs'
    exact hs rest' hdepth (by rw [hdepth'])
  | case3 => exact List.IsChain.nil

theorem mem_of_mem_merged {steps : List Segment} {s : Segment} (h : s ∈ merged steps) : s ∈ steps := by
  fun_induction merged steps with
  | case1 rest ih => exact List.mem_cons_of_mem _ (ih h)
  | case2 s' rest hs ih =>
    rcases List.mem_cons.mp h with rfl | h
    · exact List.mem_cons_self
    · exact List.mem_cons_of_mem s' (ih h)
  | case3 => exact h

/-- In front of two stars nothing is merged. -/
theorem merged_append {front : List Segment} (hfront : .anyDepth ∉ front) (rest : List Segment) :
    merged (front ++ rest) = front ++ merged rest := by
  induction front with
  | nil => rfl
  | cons s front ih =>
    obtain ⟨hs, htail⟩ := not_or.mp (mt List.mem_cons.mpr hfront)
    rw [List.cons_append, List.cons_append, ← ih htail]
    cases s with
    | anyDepth => exact absurd rfl hs
    | plain name | names tokens => rw [merged]; simp

/-! ## A search and what it goes on by

One equation of membership for each equation of `search`. Lists of results keep
an order and repetitions, which are looked at elsewhere; here it is only asked
what is found. All later proofs go through these four lemmas and none of them
opens `search` again. -/

section

variable {d : Disk}

/-- A plain step goes on by its own text, if that leads on. -/
theorem mem_search_plain {name : String} {rest : List Segment} {p q : Path} :
    q ∈ search d (.plain name :: rest) p ↔
      leadsOn d p name (below p name) = true ∧ q ∈ search d rest (below p name) := by
  show q ∈ (if leadsOn d p name (below p name) then search d rest (below p name) else []) ↔ _
  by_cases hleads : leadsOn d p name (below p name) = true
  · simp only [hleads, if_true, true_and]
  · simp only [hleads, Bool.false_eq_true, if_false, false_and, List.not_mem_nil]

/-- A step with wildcards needs a directory that can be read, and goes on by
its dots, if it stands for any, and by the entries whose names it admits. -/
theorem mem_search_names {tokens : List Token} {rest : List Segment} {p q : Path} :
    q ∈ search d (.names tokens :: rest) p ↔ ∃ entries data, d.find? p = some (.directory entries data) ∧
      ((∃ piece ∈ dots tokens, q ∈ search d rest (p.join piece)) ∨
        ∃ name t, (name, t) ∈ entries ∧ Glob.admits tokens name.toList = true ∧
          q ∈ search d rest (below p name)) := by
  rw [search]
  cases hfind : d.find? p with
  | none => simp
  | some tree =>
    cases tree with
    | file data => simp
    | closed data => simp
    | directory entries data =>
      simp only [List.mem_append, List.mem_flatMap, List.mem_ite_nil_right, Prod.exists,
        Option.some.injEq, FileTree.directory.injEq, and_assoc, exists_and_left, exists_eq_left']

/-- Two stars go on from everything inside of a directory whose last name the
next step admits. -/
theorem mem_search_anyDepth {s : Segment} {rest : List Segment} {p q : Path} :
    q ∈ search d (.anyDepth :: s :: rest) p ↔ ∃ q' t, (q', t) ∈ everything d p ∧
      q'.fileName?.any s.admits = true ∧ q ∈ search d rest q' := by
  show q ∈ (everything d p).flatMap
    (fun e => if e.1.fileName?.any s.admits then search d rest e.1 else []) ↔ _
  simp only [List.mem_flatMap, List.mem_ite_nil_right, Prod.exists]

/-- Two stars at the end of a pattern find the directories inside. -/
theorem mem_search_last {p q : Path} :
    q ∈ search d [.anyDepth] p ↔ ∃ t, (q, t) ∈ everything d p ∧ t.isDirectory = true := by
  show q ∈ (everything d p).flatMap (fun e => if e.2.isDirectory then [e.1] else []) ↔ _
  simp only [List.mem_flatMap, List.mem_ite_nil_right, Prod.exists, List.mem_singleton]
  constructor
  · rintro ⟨q', t, hmem, hdirectory, rfl⟩
    exact ⟨t, hmem, hdirectory⟩
  · rintro ⟨t, hmem, hdirectory⟩
    exact ⟨q, t, hmem, hdirectory, rfl⟩

/-- **A search goes on from what it has found**, where that can be told apart:
not in the middle of what two stars stand for. -/
theorem mem_search_append {front : List Segment} (hfront : .anyDepth ∉ front) {rest : List Segment}
    {p q : Path} :
    q ∈ search d (front ++ rest) p ↔ ∃ base ∈ search d front p, q ∈ search d rest base := by
  induction front generalizing p with
  | nil =>
    constructor
    · exact fun h => ⟨p, List.mem_singleton_self p, h⟩
    · rintro ⟨base, hbase, h⟩
      rwa [← List.mem_singleton.mp hbase]
  | cons s front ih =>
    obtain ⟨hs, htail⟩ := not_or.mp (mt List.mem_cons.mpr hfront)
    rw [List.cons_append]
    cases s with
    -- in front of `rest` no step is two stars, so each takes its piece without
    -- looking at what follows
    | anyDepth => exact absurd rfl hs
    | plain name =>
      simp only [mem_search_plain, ih htail, and_assoc, exists_and_left]
    | names tokens =>
      simp only [mem_search_names, ih htail]
      constructor
      · rintro ⟨entries, data, hfind, ⟨piece, hdots, base, hbase, hq⟩ | ⟨name, t, hentry, hadmits, below⟩⟩
        · exact ⟨base, ⟨entries, data, hfind, .inl ⟨piece, hdots, hbase⟩⟩, hq⟩
        · obtain ⟨base, hbase, hq⟩ := below
          exact ⟨base, ⟨entries, data, hfind, .inr ⟨name, t, hentry, hadmits, hbase⟩⟩, hq⟩
      · rintro ⟨base, ⟨entries, data, hfind, hcases⟩, hq⟩
        rcases hcases with ⟨piece, hdots, hbase⟩ | ⟨name, t, hentry, hadmits, hbase⟩
        · exact ⟨entries, data, hfind, .inl ⟨piece, hdots, base, hbase, hq⟩⟩
        · exact ⟨entries, data, hfind, .inr ⟨name, t, hentry, hadmits, base, hbase, hq⟩⟩

end

/-! ## Going on from a path

A search puts paths together as texts, whereas a way is followed from place to
place in the tree. `Goes` holds the two together: the path that was put
together names the same steps as the way, and it is found where the way ends.
It composes, so that one lemma for one piece (`goes_below`) is enough for all
ways.

The program shows nothing in front of a name where it looks in the directory
that is a dot. That is the difference between `below` and `Path.join`, and the
reason why an empty piece behind a dot leads nowhere. -/

section

variable {d : Disk} {p q r : Path} {piece : String}

/-- From `p` the way leads to `q`. -/
structure Goes (d : Disk) (p : Path) (way : List String) (q : Path) : Prop where
  text_ne : q.text ≠ ""
  course : q.course = p.course ++ Path.stepsOf way
  locate : d.locate q = (d.locate p).bind (·.follow way)

theorem Goes.refl (hp : p.text ≠ "") : Goes d p [] p where
  text_ne := hp
  course := (List.append_nil p.course).symm
  locate := by
    cases d.locate p <;> rfl

/-- What is followed behind a way can be followed from its end. -/
theorem Goes.follow_eq {way : List String} (h : Goes d p way q) (more : List String) :
    (d.locate q).bind (·.follow more) = (d.locate p).bind (·.follow (way ++ more)) := by
  rw [h.locate]
  cases d.locate p with
  | error fault => rfl
  | ok l => exact (Disk.Location.follow_append l way more).symm

theorem Goes.trans {way more : List String} (h : Goes d p way q) (h' : Goes d q more r) :
    Goes d p (way ++ more) r where
  text_ne := h'.text_ne
  course := by rw [h'.course, h.course, Path.stepsOf_append, List.append_assoc]
  locate := by rw [h'.locate, h.follow_eq]

/-- Joining a piece goes one step, whatever the piece is, as long as it has no
slash. -/
theorem goes_join (hp : p.text ≠ "") (hslash : '/' ∉ piece.toList) :
    Goes d p [piece] (p.join piece) where
  text_ne := Path.text_join_ne hp (Path.isAbsolute_of_notMem hslash)
  course := by rw [Path.course_join hp (Path.isAbsolute_of_notMem hslash), Path.way_of_notMem hslash]
  locate := by
    rw [Disk.locate_join_bind hp (Path.isAbsolute_of_notMem hslash), Path.pieces_of_notMem hslash]

/-- Below a dot only the piece is shown. -/
theorem below_of_isHere (hp : p.IsHere) (piece : String) : below p piece = ⟨piece⟩ :=
  if_pos (Path.same_dot_iff.mpr hp)

/-- Everywhere else a piece is joined. -/
theorem below_of_not_isHere (hp : ¬ p.IsHere) (piece : String) : below p piece = p.join piece :=
  if_neg (mt Path.same_dot_iff.mp hp)

/-- **A path goes on by a piece**, unless nothing is there to go on from. At a
dot the piece takes the place of the dot, and everywhere else the two are
joined. -/
theorem goes_below (hp : p.text ≠ "") (hslash : '/' ∉ piece.toList) (hempty : p.IsHere → piece ≠ "") :
    Goes d p [piece] (below p piece) := by
  -- where the dot is left out, the piece alone has to lead where the dot and
  -- the piece led
  by_cases hhere : p.IsHere
  · rw [below_of_isHere hhere]
    exact {
      text_ne := hempty hhere
      course := by
        rw [hhere.course_eq, List.nil_append, Path.course_of_notMem (hempty hhere) hslash]
      locate := by
        simp only [Disk.locate_of_isHere hhere (hempty hhere) hslash, Disk.Location.follow_singleton] }
  · rw [below_of_not_isHere hhere]
    exact goes_join hp hslash

/-- A path that goes on is a dot only if it was one, and goes on by one. -/
theorem isHere_below (hp : p.text ≠ "") (hslash : '/' ∉ piece.toList) (hempty : p.IsHere → piece ≠ "")
    (h : (below p piece).IsHere) : p.IsHere ∧ piece = "." := by
  by_cases hhere : p.IsHere
  · rw [below_of_isHere hhere, Path.isHere_iff (hempty hhere), Path.pieces_of_notMem hslash] at h
    exact ⟨hhere, Option.some.inj h.1⟩
  · rw [below_of_not_isHere hhere] at h
    exact absurd (Path.isHere_of_join hp (Path.isAbsolute_of_notMem hslash) h).1 hhere

/-- Going on by a piece puts no dot in front of a path that had none. -/
theorem isClear_below (hp : p.text ≠ "") (hslash : '/' ∉ piece.toList) (hclear : p.IsClear) :
    (below p piece).IsClear := by
  intro hhead
  by_cases hhere : p.IsHere
  · rw [below_of_isHere hhere, Path.pieces_of_notMem hslash] at hhead
    rw [below_of_isHere hhere, Option.some.inj hhead]
    exact Path.same_dot_iff.mp (Path.same_refl _)
  · rw [below_of_not_isHere hhere, Path.head?_pieces_join hp (Path.isAbsolute_of_notMem hslash)] at hhead
    exact absurd (hclear hhead) hhere

/-! ## Going on by names

Names of entries are the pieces about which nothing has to be asked: they are
not empty, are no dots and hold no slash. So a path goes on by names
unconditionally, and the lemmas below only say so in the forms in which it is
needed. -/

theorem ne_empty_of_name (hname : Path.IsEntryName piece) : piece ≠ "" := by
  intro hempty
  have hidle := hname.1.1
  rw [hempty] at hidle
  exact absurd hidle (by simp [Path.isIdle])

theorem ne_dot_of_name (hname : Path.IsEntryName piece) : piece ≠ "." := by
  intro hdot
  have hidle := hname.1.1
  rw [hdot] at hidle
  exact absurd hidle (by simp [Path.isIdle])

/-- By a name a path always goes on. -/
theorem goes_name (hp : p.text ≠ "") (hname : Path.IsEntryName piece) :
    Goes d p [piece] (below p piece) := goes_below hp hname.2 fun _ => ne_empty_of_name hname

theorem text_name_ne (hp : p.text ≠ "") (hname : Path.IsEntryName piece) :
    (below p piece).text ≠ "" := (goes_name (d := {}) hp hname).text_ne

theorem not_isHere_name (hp : p.text ≠ "") (hname : Path.IsEntryName piece) :
    ¬ (below p piece).IsHere := fun hhere =>
  ne_dot_of_name hname (isHere_below hp hname.2 (fun _ => ne_empty_of_name hname) hhere).2

/-- The name that a path was gone on by is its last one. Where the path was a
dot and is not shown, the name is all there is. -/
theorem fileName?_below (hp : p.text ≠ "") (hname : Path.IsEntryName piece) :
    (below p piece).fileName? = some piece := by
  by_cases hhere : p.IsHere
  · rw [below_of_isHere hhere]
    have hempty := ne_empty_of_name hname
    have hclear : (Path.mk piece).IsClear := by
      intro hhead
      rw [Path.pieces_of_notMem hname.2] at hhead
      exact absurd (Option.some.inj hhead) (ne_dot_of_name hname)
    have hother : ¬ (Path.mk piece).IsHere := by
      rw [← below_of_isHere hhere]
      exact not_isHere_name hp hname
    rw [Path.fileName?, hclear.steps_eq hempty hother, Path.course_of_notMem hempty hname.2,
      ← Path.way_of_notMem hname.2, hname.way_eq]
    rfl
  · rw [below_of_not_isHere hhere]
    exact Path.fileName?_join hp hname

end

section

variable {p : Path} {names : List String} (hnames : ∀ name ∈ names, Path.IsEntryName name)
include hnames

/-- Several names lead on one after the other. -/
theorem goes_names {d : Disk} (hp : p.text ≠ "") : Goes d p names (names.foldl below p) := by
  induction names generalizing p with
  | nil => exact .refl hp
  | cons name names ih =>
    obtain ⟨hname, hnames⟩ := List.forall_mem_cons.mp hnames
    have hfirst : Goes d p [name] (below p name) := goes_name hp hname
    exact hfirst.trans (ih hnames hfirst.text_ne)

theorem isClear_names (hp : p.text ≠ "") (hclear : p.IsClear) : (names.foldl below p).IsClear := by
  induction names generalizing p with
  | nil => exact hclear
  | cons name names ih =>
    obtain ⟨hname, hnames⟩ := List.forall_mem_cons.mp hnames
    exact ih hnames (text_name_ne hp hname) (isClear_below hp hname.2 hclear)

/-- Where no dot is left out, paths go on as everywhere. -/
theorem foldl_below_eq (hp : p.text ≠ "") (hhere : ¬ p.IsHere) :
    names.foldl below p = names.foldl Path.join p := by
  induction names generalizing p with
  | nil => rfl
  | cons name names ih =>
    obtain ⟨hname, hnames⟩ := List.forall_mem_cons.mp hnames
    have hnext := ih hnames (text_name_ne hp hname) (not_isHere_name hp hname)
    rw [List.foldl_cons, List.foldl_cons, hnext, below_of_not_isHere hhere]

end

/-- **Everything inside of a directory** is what names lead to from it. A
directory that is a dot shows its entries without the dot, so that they are
what `below` makes of them. -/
theorem mem_everything_iff {d : Disk} (hproper : d.root.Proper) {p q : Path} (hp : p.text ≠ "")
    {t : FileTree} :
    (q, t) ∈ everything d p ↔ ∃ tree name more, d.find? p = some tree ∧
      tree.at? (name :: more) = some t ∧ q = (name :: more).foldl below p := by
  rw [everything]
  cases hfind : d.find? p with
  | none => simp
  | some tree =>
    have htree : tree.Proper := Disk.proper_of_find? hproper hfind
    -- what is shown of a directory that is a dot goes on as the directory does
    have hshown : ∀ name more, (∀ n ∈ name :: more, Path.IsEntryName n) →
        (name :: more).foldl Path.join (if p.same ⟨"."⟩ then ⟨""⟩ else p)
          = (name :: more).foldl below p := by
      intro name more hnames
      obtain ⟨hname, hmore⟩ := List.forall_mem_cons.mp hnames
      have htext := text_name_ne hp hname
      have hnext := foldl_below_eq hmore htext (not_isHere_name hp hname)
      rw [List.foldl_cons, List.foldl_cons, hnext]
      by_cases hhere : p.IsHere
      · rw [if_pos (Path.same_dot_iff.mpr hhere), below_of_isHere hhere, Path.join]
        simp
      · rw [if_neg (mt Path.same_dot_iff.mp hhere), below_of_not_isHere hhere]
    show (q, t) ∈ tree.inside _ ↔ _
    rw [htree.mem_inside_iff]
    constructor
    · rintro ⟨name, more, hat, rfl⟩
      exact ⟨tree, name, more, rfl, hat, hshown name more (htree.isEntryName_of_at? hat)⟩
    · rintro ⟨tree', name, more, htree', hat, rfl⟩
      obtain rfl := Option.some.inj htree'
      exact ⟨name, more, hat, (hshown name more (htree.isEntryName_of_at? hat)).symm⟩

/-! ## One step of a search

What a step of the pattern stands for (`Segment.StandsFor`) against what the
program asks of a name (`Segment.admits`). On names the two agree. Beyond names
a step may still stand for a dot or two dots, by `dots`, and a plain step for
whatever it says. -/

section

variable {d : Disk} {p q : Path} {piece : String}

/-- A step stands for a dot or two dots only if it writes a dot in front, not
if a wildcard would do: a star does not lead up. -/
theorem mem_dots {tokens : List Token} : piece ∈ dots tokens ↔
    tokens.head? = some (.char '.') ∧ (piece = ".." ∨ piece = ".") ∧
      Glob.admits tokens piece.toList = true := by
  rw [dots]
  by_cases hhead : tokens.head? = some (.char '.')
  · rw [if_pos (beq_iff_eq.mpr hhead), List.mem_filter, List.mem_cons, List.mem_singleton]
    exact (and_iff_right hhead).symm
  · rw [if_neg (by simpa using hhead)]
    exact iff_of_false List.not_mem_nil fun h => hhead h.1

theorem slash_notMem_of_mem_dots {tokens : List Token} (h : piece ∈ dots tokens) :
    '/' ∉ piece.toList := by
  rcases (mem_dots.mp h).2.1 with rfl | rfl <;> decide

/-- No piece that is stood for has a slash. -/
theorem slash_notMem_of_stand {steps : List Segment}
    (hplain : ∀ text, .plain text ∈ steps → '/' ∉ text.toList) {way : List String}
    (h : Stand steps way) : ∀ x ∈ way, '/' ∉ x.toList := by
  induction steps generalizing way with
  | nil =>
    obtain rfl : way = [] := h
    exact fun x hx => absurd hx List.not_mem_nil
  | cons s steps ih =>
    have hrest := fun text hmem => hplain text (List.mem_cons_of_mem s hmem)
    -- two stars stand for names, a plain step for its text, and a step with
    -- wildcards for names or dots
    cases s with
    | anyDepth =>
      obtain ⟨front, name, more, rfl, hfront, -, hstand⟩ := h
      exact List.forall_mem_append.mpr ⟨fun x hx => (hfront x hx).2, ih hrest hstand⟩
    | plain name =>
      obtain ⟨x, more, rfl, rfl, hstand⟩ := h
      exact List.forall_mem_cons.mpr ⟨hplain x List.mem_cons_self, ih hrest hstand⟩
    | names tokens =>
      obtain ⟨x, more, rfl, hx, hstand⟩ := h
      refine List.forall_mem_cons.mpr ⟨?_, ih hrest hstand⟩
      exact hx.elim slash_notMem_of_mem_dots fun hname => hname.1.2

/-- What a step stands for among the names of a directory. -/
theorem admits_iff_standsFor {s : Segment} (hname : Path.IsEntryName piece) :
    s.admits piece = true ↔ s.StandsFor piece := by
  cases s with
  | plain text => rw [Segment.admits, beq_iff_eq, Segment.StandsFor]
  | anyDepth => simp [Segment.admits, Segment.StandsFor]
  | names tokens =>
    rw [Segment.admits, Segment.StandsFor, and_iff_right hname]
    refine (or_iff_right fun hdots => ?_).symm
    rcases (mem_dots.mp hdots).2.1 with rfl | rfl
    · exact hname.1.2 rfl
    · exact ne_dot_of_name hname rfl

/-- From where the program runs, an empty step leads nowhere: it would be the
empty path. -/
theorem ne_empty_of_leadsOn (h : leadsOn d p piece (below p piece) = true) : p.IsHere → piece ≠ "" := by
  rintro hhere rfl
  rw [leadsOn, if_neg (by decide), Disk.has, Option.isSome_iff_exists] at h
  obtain ⟨t, ht⟩ := h
  obtain ⟨m, hm, -⟩ := Disk.find?_eq_some_iff.mp ht
  exact Disk.text_ne_of_locate hm (by rw [below_of_isHere hhere])

/-- A plain step leads on where there is something to lead on from, and to. The
converse need not hold: a dot leads on from a closed directory too, although
nothing can be reached from there. -/
theorem leadsOn_of_step (hp : p.text ≠ "") (hslash : '/' ∉ piece.toList) (hempty : p.IsHere → piece ≠ "")
    {l m : Disk.Location} (hl : d.locate p = .ok l) (hstep : l.step piece = .ok m) :
    leadsOn d p piece (below p piece) = true := by
  rw [leadsOn]
  by_cases hdots : piece = "." ∨ piece = ".."
  · rw [if_pos (by simpa using hdots), Disk.isDirectory_iff]
    exact ⟨l.tree, Disk.find?_eq_some_iff.mpr ⟨l, hl, rfl⟩,
      (Disk.Location.isOpen_of_step hstep).isDirectory⟩
  · rw [if_neg (by simpa using hdots), Disk.has, Option.isSome_iff_exists]
    refine ⟨m.tree, Disk.find?_eq_some_iff.mpr ⟨m, ?_, rfl⟩⟩
    rw [(goes_below hp hslash hempty).locate, hl]
    exact (Disk.Location.follow_singleton l piece).trans hstep

end

/-! ## Names inside of a directory

Two stars are answered by listing everything inside at once. `everything`
follows the tree down, while a way is followed from a place, so the two are
compared once here, and the searches below only speak of ways of names. -/

section

variable {d : Disk}

/-- Everything inside of a directory is at the end of a way of names. -/
theorem exists_names_of_mem_everything (hproper : d.root.Proper) {p q : Path} (hp : p.text ≠ "")
    {t : FileTree} (h : (q, t) ∈ everything d p) :
    ∃ front name, (∀ n ∈ front ++ [name], Path.IsEntryName n) ∧
      q = (front ++ [name]).foldl below p ∧ d.find? q = some t := by
  obtain ⟨tree, first, more, hfind, hat, hq⟩ := (mem_everything_iff hproper hp).mp h
  have hnames := (Disk.proper_of_find? hproper hfind).isEntryName_of_at? hat
  obtain ⟨front, name, hlist⟩ := (List.eq_nil_or_concat (first :: more)).resolve_left (by simp)
  rw [List.concat_eq_append] at hlist
  rw [hlist] at hnames hat hq
  refine ⟨front, name, hnames, hq, ?_⟩
  obtain ⟨l, hl, rfl⟩ := Disk.find?_eq_some_iff.mp hfind
  obtain ⟨m, hm, ht⟩ := (Disk.Location.follow_names_iff fun n hn => (hnames n hn).1).mpr hat
  refine Disk.find?_eq_some_iff.mpr ⟨m, ?_, ht⟩
  rw [hq, (goes_names hnames hp).locate, hl]
  exact hm

/-- Each way of names that can be gone ends with something inside of the
directory. -/
theorem exists_mem_everything (hproper : d.root.Proper) {p : Path} (hp : p.text ≠ "")
    {l m : Disk.Location} (hl : d.locate p = .ok l) {names : List String} (hne : names ≠ [])
    (hnames : ∀ n ∈ names, Path.IsEntryName n) (hfollow : l.follow names = .ok m) :
    ∃ t, (names.foldl below p, t) ∈ everything d p := by
  have hat := (Disk.Location.follow_names_iff fun n hn => (hnames n hn).1).mp ⟨m, hfollow, rfl⟩
  obtain ⟨first, others, rfl⟩ := List.exists_cons_of_ne_nil hne
  have hfind : d.find? p = some l.tree := Disk.find?_eq_some_iff.mpr ⟨l, hl, rfl⟩
  exact ⟨m.tree, (mem_everything_iff hproper hp).mpr ⟨l.tree, first, others, hfind, hat, rfl⟩⟩

/-- The step behind two stars is the one that the last of the names is looked
for by. -/
theorem admits_last_iff {s : Segment} {p : Path} (hp : p.text ≠ "") {front : List String} {name : String}
    (hnames : ∀ n ∈ front ++ [name], Path.IsEntryName n) :
    ((front ++ [name]).foldl below p).fileName?.any s.admits = true ↔ s.StandsFor name := by
  obtain ⟨hfront, hlast⟩ := List.forall_mem_append.mp hnames
  have hname : Path.IsEntryName name := hlast name List.mem_cons_self
  have htext := (goes_names (d := {}) hfront hp).text_ne
  rw [List.foldl_append, List.foldl_cons, List.foldl_nil, fileName?_below htext hname, Option.any_some]
  exact admits_iff_standsFor hname

end

/-! ## What is found

From the search to the ways. `Found` is closed under a step in front, once for
steps that take a piece and once for two stars with the step behind them, which
are searched as one. So the induction is not over the list of steps but over
its length, and each case hands a shorter list on (`hbelow`).

That no dot comes to stand in front is carried along: a dot there is not shown
by the program and would make two spellings of one path. -/

section

variable {d : Disk}

/-- The steps stand for a way that leads from `p` to `q`. A dot is in front of
`q` only if there was one, or if a step stands for two dots by wildcards. -/
def Found (d : Disk) (steps : List Segment) (p q : Path) : Prop :=
  ∃ way, Stand steps way ∧ Goes d p way q ∧
    (p.IsClear → (∀ tokens, .names tokens ∈ steps → ".." ∈ dots tokens → ".." ∉ way) → q.IsClear)

/-- A step that takes one piece, in front of what is found from there. -/
theorem Found.cons {s : Segment} {rest : List Segment} {p p' q : Path} {piece : String}
    (hs : s ≠ .anyDepth) (hpiece : s.StandsFor piece) (hgoes : Goes d p [piece] p')
    (hclear : p.IsClear → (∀ tokens, s = .names tokens → ".." ∈ dots tokens → piece ≠ "..") → p'.IsClear)
    (h : Found d rest p' q) : Found d (s :: rest) p q := by
  obtain ⟨way, hstand, hway, hrest⟩ := h
  refine ⟨piece :: way, (stand_cons hs rest _).mpr ⟨piece, way, rfl, hpiece, hstand⟩,
    hgoes.trans hway, fun hp hdots => ?_⟩
  refine hrest (hclear hp fun tokens hnames hup htwo => ?_) fun tokens hmem hup hway => ?_
  · subst hnames htwo
    exact hdots tokens List.mem_cons_self hup List.mem_cons_self
  · exact hdots tokens (List.mem_cons_of_mem s hmem) hup (List.mem_cons_of_mem piece hway)

/-- Behind two stars, names lead on to one that the next step stands for. -/
theorem Found.anyDepth {s : Segment} {rest : List Segment} {p q : Path} (hp : p.text ≠ "")
    {front : List String} {name : String} (hnames : ∀ n ∈ front ++ [name], Path.IsEntryName n)
    (hstands : s.StandsFor name) (h : Found d rest ((front ++ [name]).foldl below p) q) :
    Found d (.anyDepth :: s :: rest) p q := by
  have hs : s ≠ .anyDepth := by
    rintro rfl
    exact hstands
  obtain ⟨hfront, hlast⟩ := List.forall_mem_append.mp hnames
  obtain ⟨way, hstand, hway, hclear⟩ := h
  have hbehind : Stand (s :: rest) (name :: way) :=
    (stand_cons hs _ _).mpr ⟨name, way, rfl, hstands, hstand⟩
  refine ⟨front ++ [name] ++ way, ?_, (goes_names hnames hp).trans hway, fun hp' hdots => ?_⟩
  · exact ⟨front, name, way, by simp, hfront, hlast name List.mem_cons_self, hbehind⟩
  · refine hclear (isClear_names hnames hp hp') fun tokens hmem hup hway' => ?_
    exact hdots tokens (List.mem_cons_of_mem _ (List.mem_cons_of_mem s hmem)) hup
      (List.mem_append_right _ hway')

/-- **What is found is at the end of a way** that the steps stand for. Two
stars at the end find directories only. -/
theorem found_of_mem_search (hproper : d.root.Proper) {steps : List Segment}
    (hplain : ∀ text, .plain text ∈ steps → '/' ∉ text.toList) {p q : Path} (hp : p.text ≠ "")
    (hmem : q ∈ search d steps p) (hend : steps.getLast? = some .anyDepth → d.isFile q = true) :
    Found d steps p q := by
  -- the induction is on how many steps there are, since two stars are searched
  -- with the step behind them
  induction hn : steps.length using Nat.strongRecOn generalizing steps p with
  | ind n ih =>
    subst hn
    have hbelow : ∀ (front) {rest p'}, steps = front ++ rest → front ≠ [] → Path.text p' ≠ "" →
        q ∈ search d rest p' → Found d rest p' q := by
      rintro front rest p' rfl hfront hp' hmem'
      have hshorter : 0 < front.length := List.length_pos_of_ne_nil hfront
      refine ih rest.length (by rw [List.length_append]; omega)
        (fun text h => hplain text (List.mem_append_right front h)) hp' hmem' (fun hlast => hend ?_) rfl
      rw [List.getLast?_append, hlast]
      rfl
    match steps with
    | [] =>
      obtain rfl : q = p := List.mem_singleton.mp hmem
      exact ⟨[], rfl, .refl hp, fun hclear _ => hclear⟩
    | .plain name :: rest =>
      have hslash := hplain name List.mem_cons_self
      obtain ⟨hleads, hrest⟩ := mem_search_plain.mp hmem
      have hempty := ne_empty_of_leadsOn hleads
      have hgoes : Goes d p [name] (below p name) := goes_below hp hslash hempty
      have hfound := hbelow [.plain name] rfl (by simp) hgoes.text_ne hrest
      exact hfound.cons (by simp) rfl hgoes fun hclear _ => isClear_below hp hslash hclear
    | .names tokens :: rest =>
      obtain ⟨entries, data, hfind, ⟨piece, hdots, hrest⟩ | ⟨name, t, hentry, hadmits, hrest⟩⟩ :=
        mem_search_names.mp hmem
      · have hgoes : Goes d p [piece] (p.join piece) := goes_join hp (slash_notMem_of_mem_dots hdots)
        have hfound := hbelow [.names tokens] rfl (by simp) hgoes.text_ne hrest
        refine hfound.cons (by simp) (.inl hdots) hgoes fun hclear hup => ?_
        -- two dots were excluded by assumption, so that the step stands for
        -- the one dot
        have hdot : piece = "." := by
          rcases (mem_dots.mp hdots).2.1 with rfl | hdot
          · exact absurd rfl (hup tokens rfl hdots)
          · exact hdot
        rw [hdot]
        exact Path.isClear_join_dot hp hclear
      · have htree := Disk.proper_of_find? hproper hfind
        have hname := htree.isEntryName_of_child? (htree.mem_entries_iff.mp hentry)
        have hfound := hbelow [.names tokens] rfl (by simp) (text_name_ne hp hname) hrest
        exact hfound.cons (by simp) (.inr ⟨hname, hadmits⟩) (goes_name hp hname)
          fun hclear _ => isClear_below hp hname.2 hclear
    | [.anyDepth] =>
      -- what is found so is a directory
      obtain ⟨t, ht, hdirectory⟩ := mem_search_last.mp hmem
      obtain ⟨-, -, -, -, hfind⟩ := exists_names_of_mem_everything hproper hp ht
      have hfile := hend rfl
      rw [Disk.isFile, hfind, Option.any_some, FileTree.isFile, hdirectory] at hfile
      exact absurd hfile (by simp)
    | .anyDepth :: s :: rest =>
      obtain ⟨q', t, hq', hadmits, hrest⟩ := mem_search_anyDepth.mp hmem
      obtain ⟨front, name, hnames, rfl, -⟩ := exists_names_of_mem_everything hproper hp hq'
      have htext := (goes_names (d := d) hnames hp).text_ne
      have hfound := hbelow [.anyDepth, s] rfl (by simp) htext hrest
      exact hfound.anyDepth hp hnames ((admits_last_iff hp hnames).mp hadmits)

end

/-! ## What is reached

From the ways to the search. The pattern is merged, so that two stars are
followed by a step that stands for one piece, which is the name at which the
way is cut. What may fail is only the empty step behind a dot: the program
would go on from an empty path, which names no place at all. `hdot` rules that
out for the way that is left, and it is handed on from step to step like the
way itself. -/

section

variable {d : Disk} {rest : List Segment} {p : Path} {piece : String} {more : List String}

/-- A search by the steps gets from `p` to the end of the way. -/
def Reaches (d : Disk) (steps : List Segment) (p : Path) (way : List String) : Prop :=
  ∃ q ∈ search d steps p, Goes d p way q

/-- A plain step in front. -/
theorem Reaches.plain (hp : p.text ≠ "") (hslash : '/' ∉ piece.toList) (hempty : p.IsHere → piece ≠ "")
    {l l' : Disk.Location} (hl : d.locate p = .ok l) (hstep : l.step piece = .ok l')
    (h : Reaches d rest (below p piece) more) : Reaches d (.plain piece :: rest) p (piece :: more) := by
  obtain ⟨q, hq, hgoes⟩ := h
  have hleads := leadsOn_of_step hp hslash hempty hl hstep
  exact ⟨q, mem_search_plain.mpr ⟨hleads, hq⟩, (goes_below hp hslash hempty).trans hgoes⟩

section

variable {entries : List (String × FileTree)} {data : DirectoryData}
  (hfind : d.find? p = some (.directory entries data)) {tokens : List Token}
include hfind

/-- A dot or two dots in front, by a step that stands for them. -/
theorem Reaches.dots (hp : p.text ≠ "") (hdots : piece ∈ dots tokens)
    (h : Reaches d rest (p.join piece) more) : Reaches d (.names tokens :: rest) p (piece :: more) := by
  obtain ⟨q, hq, hgoes⟩ := h
  exact ⟨q, mem_search_names.mpr ⟨entries, data, hfind, .inl ⟨piece, hdots, hq⟩⟩,
    (goes_join hp (slash_notMem_of_mem_dots hdots)).trans hgoes⟩

/-- The name of an entry in front, by a step that admits it. -/
theorem Reaches.name (hp : p.text ≠ "") (hname : Path.IsEntryName piece)
    (hadmits : Glob.admits tokens piece.toList = true) {t : FileTree} (hentry : (piece, t) ∈ entries)
    (h : Reaches d rest (below p piece) more) : Reaches d (.names tokens :: rest) p (piece :: more) := by
  obtain ⟨q, hq, hgoes⟩ := h
  exact ⟨q, mem_search_names.mpr ⟨entries, data, hfind, .inr ⟨piece, t, hentry, hadmits, hq⟩⟩,
    (goes_name hp hname).trans hgoes⟩

end

/-- Names in front, of which the last is what the step behind two stars stands
for. -/
theorem Reaches.anyDepth {s : Segment} (hp : p.text ≠ "") {front : List String} {name : String}
    (hnames : ∀ n ∈ front ++ [name], Path.IsEntryName n) (hstands : s.StandsFor name) {t : FileTree}
    (ht : ((front ++ [name]).foldl below p, t) ∈ everything d p)
    (h : Reaches d rest ((front ++ [name]).foldl below p) more) :
    Reaches d (.anyDepth :: s :: rest) p (front ++ [name] ++ more) := by
  obtain ⟨q, hq, hgoes⟩ := h
  have hadmits := (admits_last_iff hp hnames).mpr hstands
  exact ⟨q, mem_search_anyDepth.mpr ⟨_, t, ht, hadmits, hq⟩, (goes_names hnames hp).trans hgoes⟩

/-- **The end of each way is found** that the steps stand for, unless an empty
step follows a dot in front. Such a step would show as the empty path, which
leads nowhere, since a dot in front is left out. -/
theorem exists_mem_search (hproper : d.root.Proper) {steps : List Segment}
    (hplain : ∀ text, .plain text ∈ steps → '/' ∉ text.toList)
    (hchain : steps.IsChain fun s s' => s = .anyDepth → s' ≠ .anyDepth) {p : Path} (hp : p.text ≠ "")
    {way : List String} (hstand : Stand steps way) {m : Disk.Location}
    (hm : (d.locate p).bind (·.follow way) = .ok m)
    (hdot : p.IsHere → (way.dropWhile (· == ".")).head? ≠ some "") : Reaches d steps p way := by
  induction hn : steps.length using Nat.strongRecOn generalizing steps p way with
  | ind n ih =>
    subst hn
    have hbelow : ∀ (front) {rest} (p') (way') {more}, steps = front ++ rest → front ≠ [] →
        Stand rest more → way = way' ++ more → Goes d p way' p' →
        (p'.IsHere → (more.dropWhile (· == ".")).head? ≠ some "") → Reaches d rest p' more := by
      rintro front rest p' way' more rfl hfront hstand' rfl hgoes hdot'
      have hshorter : 0 < front.length := List.length_pos_of_ne_nil hfront
      have hm' : (d.locate p').bind (·.follow more) = .ok m := (hgoes.follow_eq more).trans hm
      exact ih rest.length (by rw [List.length_append]; omega)
        (fun text h => hplain text (List.mem_append_right front h)) (List.isChain_append.mp hchain).2.1
        hgoes.text_ne hstand' hm' hdot' rfl
    obtain ⟨l, hl, hfollow⟩ := bind_eq_ok_iff.mp hm
    -- the way is cut where the first step ends, and what is behind is left to
    -- the induction
    match steps with
    | [] =>
      obtain rfl : way = [] := hstand
      exact ⟨p, List.mem_singleton.mpr rfl, .refl hp⟩
    | .plain name :: rest =>
      have hslash := hplain name List.mem_cons_self
      obtain ⟨piece, more, rfl, rfl, hstand'⟩ := hstand
      obtain ⟨l', hstep, -⟩ := Disk.Location.follow_cons_eq_ok hfollow
      have hempty : p.IsHere → piece ≠ "" := by
        rintro hhere rfl
        exact hdot hhere rfl
      refine .plain hp hslash hempty hl hstep ?_
      refine hbelow [.plain piece] _ [piece] rfl (by simp) hstand' rfl (goes_below hp hslash hempty) ?_
      intro hhere
      obtain ⟨hhere', rfl⟩ := isHere_below hp hslash hempty hhere
      exact hdot hhere'
    | .names tokens :: rest =>
      obtain ⟨piece, more, rfl, hpiece, hstand'⟩ := hstand
      obtain ⟨l', hstep, -⟩ := Disk.Location.follow_cons_eq_ok hfollow
      obtain ⟨entries, data, hentries⟩ := Disk.Location.isOpen_of_step hstep
      have hfind : d.find? p = some (.directory entries data) :=
        Disk.find?_eq_some_iff.mpr ⟨l, hl, hentries⟩
      have hnext := fun p' => hbelow [.names tokens] p' [piece] rfl (by simp) hstand' rfl
      rcases hpiece with hdots | ⟨hname, hadmits⟩
      · have hslash := slash_notMem_of_mem_dots hdots
        refine .dots hfind hp hdots (hnext _ (goes_join hp hslash) fun hhere => ?_)
        obtain ⟨hhere', hway⟩ := Path.isHere_of_join hp (Path.isAbsolute_of_notMem hslash) hhere
        rcases (mem_dots.mp hdots).2.1 with rfl | rfl
        · exact absurd hway (by decide)
        · exact hdot hhere'
      · obtain ⟨t, hchild, -⟩ := Disk.Location.step_name_eq_ok hname.1 hstep
        rw [hentries] at hchild
        have hentry : (piece, t) ∈ entries :=
          (Disk.proper_of_find? hproper hfind).mem_entries_iff.mpr hchild
        refine .name hfind hp hname hadmits hentry (hnext _ (goes_name hp hname) fun hhere => ?_)
        exact absurd hhere (not_isHere_name hp hname)
    | [.anyDepth] =>
      obtain ⟨front, name, more, -, -, -, hnil⟩ := hstand
      exact absurd hnil (by simp [Stand])
    | .anyDepth :: s :: rest =>
      obtain ⟨front, name, more, rfl, hfront, hname, hstand⟩ := hstand
      have hs : s ≠ .anyDepth := (List.isChain_cons_cons.mp hchain).1 rfl
      obtain ⟨piece, more', heq, hstands, hstand'⟩ := (stand_cons hs rest _).mp hstand
      obtain ⟨rfl, rfl⟩ := List.cons.inj heq
      have hway : front ++ name :: more = front ++ [name] ++ more := by simp
      rw [hway] at hfollow ⊢
      have hnames : ∀ n ∈ front ++ [name], Path.IsEntryName n :=
        List.forall_mem_append.mpr ⟨hfront, by simpa using hname⟩
      obtain ⟨l', hl', -⟩ := bind_eq_ok_iff.mp
        ((Disk.Location.follow_append l (front ++ [name]) more).symm.trans hfollow)
      obtain ⟨t, ht⟩ := exists_mem_everything hproper hp hl (by simp) hnames hl'
      refine .anyDepth hp hnames hstands ht ?_
      refine hbelow [.anyDepth, s] _ _ rfl (by simp) hstand' hway (goes_names hnames hp) ?_
      -- a way that ends with a name does not lead to a dot
      intro hhere
      rw [List.foldl_append, List.foldl_cons, List.foldl_nil] at hhere
      exact absurd hhere (not_isHere_name (goes_names (d := d) hfront hp).text_ne hname)

end

end LocaleKeys.Glob
