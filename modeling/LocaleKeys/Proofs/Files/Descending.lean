/-
Going down a tree of files.

What is inside of a directory is what names lead to from it
(`FileTree.Proper.mem_inside_iff`).

A dot in front of a path is a step, but it leads nowhere else, so that two
paths may take the same course (`Path.course`) without being the same. Paths
are the same if they take the same course and a dot in front is all that they
have, if they have one (`Path.IsClear`).
-/
import LocaleKeys.Proofs.Files.Naming
import Mathlib.Data.List.Basic

set_option autoImplicit false

namespace LocaleKeys

/-! ## Going down a tree

A directory lists its entries, and a look-up goes by the first entry of a name.
In a proper tree both are the same. Listing everything inside is by recursion
on the tree, following names is by recursion on the names; `mem_inside_iff`
puts the two together, by induction on the tree, with one more name for each
level. -/

namespace FileTree

/-- What leads on is the name of an entry. -/
theorem Proper.isEntryName_of_child? {t below : FileTree} (h : t.Proper) {name : String}
    (hchild : t.child? name = some below) : Path.IsEntryName name := by
  cases h with
  | file data => exact absurd hchild (by simp [FileTree.child?])
  | closed data => exact absurd hchild (by simp [FileTree.child?])
  | directory hnodup hnames hbelow =>
    obtain ⟨front, rest, hentries, -⟩ := List.lookup_eq_some_iff.mp hchild
    exact hnames (name, below) (by rw [hentries]; simp)

/-- In a tree only names lead on. -/
theorem Proper.isEntryName_of_at? {t below : FileTree} (h : t.Proper) {names : List String}
    (hat : t.at? names = some below) : ∀ name ∈ names, Path.IsEntryName name := by
  induction names generalizing t with
  | nil => exact fun name hname => absurd hname List.not_mem_nil
  | cons name names ih =>
    obtain ⟨t', hchild, hrest⟩ := Option.bind_eq_some_iff.mp hat
    exact List.forall_mem_cons.mpr ⟨h.isEntryName_of_child? hchild, ih (h.child? hchild) hrest⟩

/-- An entry is what its name leads to. -/
theorem Proper.mem_entries_iff {entries : List (String × FileTree)} {data : DirectoryData}
    (h : (FileTree.directory entries data).Proper) {name : String} {t : FileTree} :
    (name, t) ∈ entries ↔ (FileTree.directory entries data).child? name = some t := by
  cases h with
  | directory hnodup hnames hbelow =>
    clear hnames hbelow
    rw [FileTree.child?]
    induction entries with
    | nil => simp
    | cons e entries ih =>
      obtain ⟨hfresh, hnodup⟩ := List.nodup_cons.mp hnodup
      rw [List.mem_cons, List.lookup_cons]
      -- an entry of that name is the first one only because there is no second
      by_cases hname : name = e.1
      · subst hname
        rw [beq_self_eq_true]
        constructor
        · rintro (heq | hmem)
          · exact congrArg (fun e => some e.2) heq.symm
          · exact absurd (List.mem_map_of_mem hmem) hfresh
        · intro heq
          exact .inl (by rw [← Option.some.inj heq])
      · rw [beq_false_of_ne hname, ← ih hnodup]
        exact or_iff_right fun heq => hname (congrArg Prod.fst heq)

/-- What is inside of the entries is each entry and what is inside of it. -/
theorem mem_insideAll_iff {p : Path} {entries : List (String × FileTree)} {e : Path × FileTree} :
    e ∈ insideAll p entries ↔
      ∃ name t, (name, t) ∈ entries ∧ (e = (p.join name, t) ∨ e ∈ t.inside (p.join name)) := by
  induction entries with
  | nil => simp [insideAll]
  | cons entry entries ih =>
    obtain ⟨name, t⟩ := entry
    rw [insideAll, List.mem_append, List.mem_cons, ih]
    constructor
    · rintro (h | ⟨name', t', hmem, h⟩)
      · exact ⟨name, t, List.mem_cons_self, h⟩
      · exact ⟨name', t', List.mem_cons_of_mem _ hmem, h⟩
    · rintro ⟨name', t', hmem, h⟩
      rcases List.mem_cons.mp hmem with heq | hmem
      · obtain ⟨rfl, rfl⟩ := Prod.mk.inj heq
        exact .inl h
      · exact .inr ⟨name', t', hmem, h⟩

/-- **What is inside of a directory** is what names lead to. The walk joins
name by name to the path it starts from, and goes down by the same names in the
tree. -/
theorem Proper.mem_inside_iff {tree : FileTree} (h : tree.Proper) {p : Path} {q : Path}
    {t : FileTree} :
    (q, t) ∈ tree.inside p ↔
      ∃ name more, tree.at? (name :: more) = some t ∧ q = (name :: more).foldl Path.join p := by
  induction h generalizing p with
  | file data =>
    simp [inside, at?_file]
  | closed data =>
    simp [inside, FileTree.at?, FileTree.child?]
  | @directory entries data hnodup hnames hbelow ih =>
    have hproper : (FileTree.directory entries data).Proper := .directory hnodup hnames hbelow
    rw [inside, mem_insideAll_iff]
    constructor
    · rintro ⟨name, below, hmem, heq | hinside⟩
      · obtain ⟨rfl, rfl⟩ := Prod.mk.inj heq
        refine ⟨name, [], ?_, rfl⟩
        rw [at?_singleton]
        exact hproper.mem_entries_iff.mp hmem
      · obtain ⟨name', more, hat, rfl⟩ := (ih (name, below) hmem).mp hinside
        refine ⟨name, name' :: more, ?_, rfl⟩
        rw [FileTree.at?, hproper.mem_entries_iff.mp hmem, Option.bind_some]
        exact hat
    · rintro ⟨name, more, hat, rfl⟩
      obtain ⟨below, hchild, hrest⟩ := Option.bind_eq_some_iff.mp hat
      have hmem : (name, below) ∈ entries := hproper.mem_entries_iff.mpr hchild
      refine ⟨name, below, hmem, ?_⟩
      cases more with
      | nil =>
        obtain rfl := Option.some.inj hrest
        exact .inl rfl
      | cons name' more => exact .inr ((ih (name, below) hmem).mpr ⟨name', more, hrest, rfl⟩)

end FileTree

/-! ## Dots in front

`./a` and `a` lead to the same place and are different paths for the program,
which compares steps and keeps the dot. The lemmas below say which steps come
from which pieces, so that paths found by a search can be compared by where
they lead as long as no dot stands in front of them. -/

namespace Path

/-- The path stays where the program runs. -/
def IsHere (p : Path) : Prop := p.steps = [.here]

instance (p : Path) : Decidable p.IsHere := inferInstanceAs (Decidable (p.steps = [.here]))

/-- If the path begins with a dot, then that is all. -/
def IsClear (p : Path) : Prop := p.pieces.head? = some "." → p.IsHere

instance (p : Path) : Decidable p.IsClear :=
  inferInstanceAs (Decidable (p.pieces.head? = some "." → p.IsHere))

/-- The steps of a path, but for a dot in front. -/
def course (p : Path) : List Step := p.steps.filter (· != .here)

section

variable {p : Path} {piece text : String}

/-- The path that is the same as a dot is one that stays. -/
theorem same_dot_iff : p.same ⟨"."⟩ = true ↔ p.IsHere := by
  have hdot : (Path.mk ".").steps = [.here] := by decide +kernel
  rw [same_iff, hdot, IsHere]

/-- Only a dot is a step that stays. -/
theorem firstStep_eq_here_iff : firstStep piece = .here ↔ piece = "." := by
  rw [firstStep, stepOf]
  by_cases hempty : piece = ""
  · rw [if_pos hempty, hempty]
    simp
  · rw [if_neg hempty]
    by_cases hdot : piece = "."
    · rw [if_pos hdot]
      exact iff_of_true rfl hdot
    · rw [if_neg hdot]
      refine iff_of_false ?_ hdot
      split <;> simp

/-- A path that stays is not the empty one. -/
theorem IsHere.text_ne (h : p.IsHere) : p.text ≠ "" := by
  intro hempty
  have hp : p = ⟨""⟩ := congrArg Path.mk hempty
  rw [hp, IsHere] at h
  exact absurd h (by decide +kernel)

/-- A path stays if it begins with a dot and all else is idle. -/
theorem isHere_iff (hp : p.text ≠ "") :
    p.IsHere ↔ p.pieces.head? = some "." ∧ stepsOf p.pieces.tail = [] := by
  obtain ⟨first, rest, hpieces⟩ := List.exists_cons_of_ne_nil p.pieces_ne_nil
  rw [IsHere, steps_of_pieces hp hpieces, hpieces, List.head?_cons, List.tail_cons, List.cons.injEq,
    firstStep_eq_here_iff, Option.some_inj]

/-- Pieces that take the same steps differ only where they take none. -/
theorem filter_eq_of_stepsOf {pieces more : List String} (h : stepsOf pieces = stepsOf more) :
    pieces.filter (!isIdle ·) = more.filter (!isIdle ·) := by
  have hinjective : Function.Injective stepOf := by
    intro x y hxy
    rw [stepOf, stepOf] at hxy
    split at hxy
    next hx =>
      split at hxy
      next hy => rw [eq_of_beq hx, eq_of_beq hy]
      next => exact absurd hxy (by simp)
    next =>
      split at hxy
      next => exact absurd hxy (by simp)
      next => exact Step.down.inj hxy
  exact List.map_injective_iff.mpr hinjective h

/-- Where nothing leads up, names lead on. -/
theorem exists_names_of_stepsOf {pieces : List String} (h : ".." ∉ pieces) :
    ∃ names : List String, stepsOf pieces = names.map .down := by
  refine ⟨pieces.filter (!isIdle ·), List.map_congr_left fun piece hpiece => ?_⟩
  have hup : piece ≠ ".." := fun heq => h (heq ▸ (List.mem_filter.mp hpiece).1)
  rw [stepOf, if_neg (by simpa using hup)]

/-- Where names lead on, nothing leads up. -/
theorem up_notMem_of_stepsOf {pieces names : List String} (h : stepsOf pieces = names.map .down) :
    ".." ∉ pieces := by
  intro hmem
  have hup : Step.up ∈ stepsOf pieces :=
    List.mem_map.mpr ⟨"..", List.mem_filter.mpr ⟨hmem, by decide⟩, rfl⟩
  rw [h] at hup
  obtain ⟨name, -, hname⟩ := List.mem_map.mp hup
  exact absurd hname (by simp)

/-- Pieces that make no steps are idle. -/
theorem isIdle_of_stepsOf {pieces : List String} (h : stepsOf pieces = []) :
    ∀ x ∈ pieces, isIdle x = true := by
  intro x hx
  by_contra hstep
  have hmem : stepOf x ∈ stepsOf pieces :=
    List.mem_map_of_mem (List.mem_filter.mpr ⟨hx, by simpa using hstep⟩)
  rw [h] at hmem
  exact List.not_mem_nil hmem

/-- All pieces of a path that stays are idle. -/
theorem IsHere.isIdle_of_mem (h : p.IsHere) : ∀ x ∈ p.pieces, isIdle x = true := by
  obtain ⟨hhead, htail⟩ := (isHere_iff h.text_ne).mp h
  obtain ⟨rest, hpieces⟩ := List.head?_eq_some_iff.mp hhead
  rw [hpieces] at htail ⊢
  exact List.forall_mem_cons.mpr ⟨rfl, isIdle_of_stepsOf htail⟩

/-- A path is absolute if its first piece is empty. -/
theorem isAbsolute_iff_head (hp : p.text ≠ "") : p.isAbsolute = true ↔ p.pieces.head? = some "" := by
  obtain ⟨c, r, hlist⟩ : ∃ c r, p.text.toList = c :: r :=
    List.exists_cons_of_ne_nil fun hnil => hp (String.toList_eq_nil_iff.mp hnil)
  rw [isAbsolute, pieces, Text.piecesOf, hlist, List.head?_cons, Text.pieces, beq_iff_eq,
    Option.some_inj]
  by_cases hc : c = '/'
  · rw [if_pos (beq_iff_eq.mpr hc)]
    exact iff_of_true hc rfl
  · rw [if_neg (by simpa using hc)]
    refine iff_of_false hc ?_
    split <;> simp

/-- A path that stays is not absolute. -/
theorem IsHere.isAbsolute (h : p.IsHere) : p.isAbsolute = false := by
  rw [Bool.eq_false_iff]
  intro habsolute
  rw [isAbsolute_iff_head h.text_ne, ((isHere_iff h.text_ne).mp h).1] at habsolute
  exact absurd habsolute (by simp)

/-- A text without a slash is one piece. -/
theorem pieces_of_notMem (h : '/' ∉ piece.toList) : (Path.mk piece).pieces = [piece] := by
  rw [pieces, Text.piecesOf, Text.pieces_of_notMem h, List.map_singleton, String.ofList_toList]

/-- Its way is that of this piece. -/
theorem way_of_notMem (h : '/' ∉ piece.toList) : (Path.mk piece).way = stepsOf [piece] := by
  rw [way, pieces_of_notMem h]

/-- It is not absolute. -/
theorem isAbsolute_of_notMem (h : '/' ∉ piece.toList) : (Path.mk piece).isAbsolute = false := by
  rw [isAbsolute, beq_eq_false_iff_ne]
  exact fun hhead => h (List.mem_of_mem_head? hhead)

/-! ## Courses

The course forgets the dot. It is the way, with the root in front if the path
is absolute, and joining adds to it. A path that is clear can be told from its
course again. -/

/-- Dots are idle, so none is left among the steps of pieces. -/
theorem filter_stepsOf (pieces : List String) :
    (stepsOf pieces).filter (· != .here) = stepsOf pieces := by
  refine List.filter_eq_self.mpr fun step hstep => ?_
  obtain ⟨x, -, rfl⟩ := List.mem_map.mp hstep
  rw [stepOf]
  split <;> rfl

/-- A path that stays has no course. -/
theorem IsHere.course_eq (h : p.IsHere) : p.course = [] := by
  rw [course, show p.steps = [.here] from h]
  rfl

/-- **To go on** is to take the rest of the course. Idle pieces take no part in
a course, so joining a path that stays adds nothing. -/
theorem course_join (hp : p.text ≠ "") (htext : (Path.mk text).isAbsolute = false) :
    (p.join text).course = p.course ++ (Path.mk text).way := by
  rw [course, steps_join hp htext, List.filter_append, ← course, way, filter_stepsOf]

/-- The course of a path is its way, from the root on or from where the program
runs. -/
theorem course_eq (hp : p.text ≠ "") :
    p.course = (if p.isAbsolute then [.root] else []) ++ p.way := by
  obtain ⟨first, rest, hpieces⟩ := List.exists_cons_of_ne_nil p.pieces_ne_nil
  have habsolute : p.isAbsolute = true ↔ first = "" := by
    rw [isAbsolute_iff_head hp, hpieces, List.head?_cons, Option.some_inj]
  rw [course, way, steps_of_pieces hp hpieces, hpieces, firstStep]
  -- the first piece is the root, a dot, or a step like all others
  by_cases hempty : first = ""
  · rw [if_pos hempty, if_pos (habsolute.mpr hempty), List.filter_cons_of_pos rfl, filter_stepsOf, hempty]
    rfl
  · rw [if_neg hempty, if_neg (mt habsolute.mp hempty), List.nil_append]
    by_cases hdot : first = "."
    · rw [if_pos hdot, hdot, List.filter_cons_of_neg (by simp), filter_stepsOf]
      rfl
    · have hstep : isIdle first = false := by
        rw [isIdle, beq_false_of_ne hempty, beq_false_of_ne hdot]
        rfl
      have hsteps : stepsOf (first :: rest) = stepOf first :: stepsOf rest := by
        rw [stepsOf, List.filter_cons_of_pos (by rw [hstep]; rfl)]
        rfl
      rw [if_neg hdot, ← hsteps, filter_stepsOf]

/-- The course of a text without a slash is that of its piece. -/
theorem course_of_notMem (hempty : piece ≠ "") (h : '/' ∉ piece.toList) :
    (Path.mk piece).course = stepsOf [piece] := by
  rw [course_eq hempty, isAbsolute_of_notMem h, way_of_notMem h]
  rfl

/-- A path that is clear takes no steps but those of its course. -/
theorem IsClear.steps_eq (h : p.IsClear) (hp : p.text ≠ "") (hhere : ¬ p.IsHere) :
    p.steps = p.course := by
  obtain ⟨first, rest, hpieces⟩ := List.exists_cons_of_ne_nil p.pieces_ne_nil
  have hfirst : firstStep first ≠ .here := by
    intro heq
    exact hhere (h (by rw [hpieces, List.head?_cons, firstStep_eq_here_iff.mp heq]))
  rw [course, steps_of_pieces hp hpieces, List.filter_cons_of_pos (by simpa using hfirst),
    filter_stepsOf]

/-- A path that is joined is a dot only if it was one, and no step is taken. -/
theorem isHere_of_join (hp : p.text ≠ "") (htext : (Path.mk text).isAbsolute = false)
    (h : (p.join text).IsHere) : p.IsHere ∧ (Path.mk text).way = [] := by
  rw [IsHere, steps_join hp htext] at h
  obtain ⟨first, rest, hpieces⟩ := List.exists_cons_of_ne_nil p.pieces_ne_nil
  have hsteps := steps_of_pieces hp hpieces
  rw [hsteps, List.cons_append] at h
  obtain ⟨hfirst, hrest⟩ := List.cons.inj h
  obtain ⟨hnil, hway⟩ := List.append_eq_nil_iff.mp hrest
  exact ⟨by rw [IsHere, hsteps, hfirst, hnil], hway⟩

/-- A dot behind a path changes nothing about its front. -/
theorem isClear_join_dot (hp : p.text ≠ "") (hclear : p.IsClear) : (p.join ".").IsClear := by
  intro hhead
  rw [head?_pieces_join hp rfl] at hhead
  have hsteps : (p.join ".").steps = p.steps := by
    rw [steps_join hp rfl, way_of_notMem (by decide)]
    exact List.append_nil _
  rw [IsHere, hsteps]
  exact hclear hhead

end

end Path

/-! ## Locations further on

What the steps of a path and its names have to do with each other. Where all
steps are names, the way down is the list of the names, and pieces that are
idle may stand in between. -/

namespace Disk

namespace Location

variable {l m : Location} {piece : String}

/-- **Where only names lead**, they are the names of the place. The pieces in
between that are idle stay where they are, and two dots are ruled out as their
step is no name. -/
theorem names_of_follow {pieces names : List String} (h : l.follow pieces = .ok m)
    (hnames : Path.stepsOf pieces = names.map .down) : m.names = l.names ++ names := by
  induction pieces generalizing l names with
  | nil =>
    obtain rfl := Except.ok.inj h
    rw [List.map_eq_nil_iff.mp hnames.symm, List.append_nil]
  | cons piece pieces ih =>
    obtain ⟨l', hstep, hrest⟩ := follow_cons_eq_ok h
    rw [Path.stepsOf] at hnames
    -- an idle piece stays, two dots are excluded, and a name goes down
    rcases piece_cases piece with hidle | rfl | hname
    · rw [List.filter_cons_of_neg (by simp [hidle]), ← Path.stepsOf] at hnames
      rw [step_idle (isOpen_of_step hstep) hidle] at hstep
      obtain rfl := Except.ok.inj hstep
      exact ih hrest hnames
    · rw [List.filter_cons_of_pos (by decide), List.map_cons] at hnames
      obtain ⟨name, names', -, hup, -⟩ := List.map_eq_cons_iff.mp hnames.symm
      exact absurd hup (by simp [Path.stepOf])
    · rw [List.filter_cons_of_pos (by rw [hname.1]; rfl), List.map_cons, ← Path.stepsOf, Path.stepOf,
        if_neg (by simpa using hname.2)] at hnames
      obtain ⟨name, names', rfl, hdown, hrest'⟩ := List.map_eq_cons_iff.mp hnames.symm
      obtain ⟨t, -, rfl⟩ := step_name_eq_ok hname hstep
      rw [ih hrest hrest'.symm, Path.Step.down.inj hdown]
      simp [Location.names]

/-- Only the steps matter for where pieces lead, if they lead anywhere. -/
theorem follow_steps {pieces : List String} (h : l.follow pieces = .ok m) :
    l.follow (pieces.filter (!Path.isIdle ·)) = .ok m := by
  induction pieces generalizing l with
  | nil => exact h
  | cons piece pieces ih =>
    obtain ⟨l', hstep, hrest⟩ := follow_cons_eq_ok h
    by_cases hidle : Path.isIdle piece = true
    · rw [step_idle (isOpen_of_step hstep) hidle] at hstep
      obtain rfl := Except.ok.inj hstep
      rw [List.filter_cons_of_neg (by simp [hidle])]
      exact ih hrest
    · rw [List.filter_cons_of_pos (by simpa using hidle), follow_cons, hstep]
      exact ih hrest

theorem follow_singleton (l : Location) (piece : String) : l.follow [piece] = l.step piece := by
  rw [follow_cons]
  cases l.step piece <;> rfl

/-- Names lead to what is below. -/
theorem follow_names_iff {names : List String} (hnames : ∀ name ∈ names, IsName name) {t : FileTree} :
    (∃ m, l.follow names = .ok m ∧ m.tree = t) ↔ l.tree.at? names = some t := by
  induction names generalizing l with
  | nil =>
    rw [FileTree.at?, Option.some_inj]
    constructor
    · rintro ⟨m, hm, ht⟩
      rw [← ht, Except.ok.inj hm]
    · exact fun ht => ⟨l, rfl, ht⟩
  | cons name names ih =>
    obtain ⟨hname, hnames⟩ := List.forall_mem_cons.mp hnames
    constructor
    · rintro ⟨m, hm, ht⟩
      obtain ⟨l', hstep, hrest⟩ := follow_cons_eq_ok hm
      obtain ⟨t', hchild, rfl⟩ := step_name_eq_ok hname hstep
      rw [FileTree.at?, hchild, Option.bind_some]
      exact (ih hnames).mp ⟨m, hrest, ht⟩
    · intro hat
      obtain ⟨t', hchild, hrest⟩ := Option.bind_eq_some_iff.mp hat
      obtain ⟨m, hm, ht⟩ := (ih (l := ⟨t', (name, l.tree) :: l.above⟩) hnames).mpr hrest
      refine ⟨m, ?_, ht⟩
      rw [follow_cons, step_name (FileTree.isOpen_of_child? hchild) hname, hchild]
      exact hm

end Location

variable {d : Disk} {p : Path} {text piece : String}

/-- A path that is a dot leads to where all others start. -/
theorem locate_of_isHere (hp : p.IsHere) (hempty : piece ≠ "") (hslash : '/' ∉ piece.toList) :
    d.locate ⟨piece⟩ = (d.locate p).bind (·.step piece) := by
  rw [locate_eq, if_neg (by simpa using hempty), locate_eq, if_neg (by simpa using hp.text_ne), route,
    route, hp.isAbsolute, Path.isAbsolute_of_notMem hslash, if_neg Bool.false_ne_true,
    if_neg Bool.false_ne_true, Location.follow_append, Location.follow_append,
    Path.pieces_of_notMem hslash]
  cases (Location.mk d.root []).follow d.working with
  | error fault => rfl
  | ok l =>
    show l.follow [piece] = (l.follow p.pieces).bind (·.step piece)
    simp only [← Location.follow_singleton]
    rw [← Location.follow_append]
    exact (Location.follow_idle hp.isIdle_of_mem (by simp) l).symm

/-- A path that is a dot leads to an open directory, if anywhere. -/
theorem isOpen_of_isHere {m : Location} (hp : p.IsHere) (h : d.locate p = .ok m) : m.tree.IsOpen := by
  rw [locate_eq, if_neg (by simpa using hp.text_ne), route, hp.isAbsolute, if_neg Bool.false_ne_true,
    Location.follow_append] at h
  obtain ⟨l, -, hpieces⟩ := bind_eq_ok_iff.mp h
  exact (Location.follow_of_idle hp.isIdle_of_mem p.pieces_ne_nil hpieces).2

end Disk

end LocaleKeys
