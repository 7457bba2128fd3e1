/-
Where the configuration of a project is found.

A project has the configuration that is nearest: in the directory where the
program starts, or else in the first of the directories above it that has one,
but not above the top of a repository (`Disk.NearestConfig`). The search does
not go up from directory to directory, though. It takes the path of the first
one shorter and shorter, and where the path says to go up, a shorter path is
not one to a directory above.

So what is looked through are the places that the path passes
(`Disk.Location.passed`), from its end to its start, which is the root of the
disk or the working directory (`findConfigIn_upwardUpTo`). As long as the path
leads nowhere up, they are the directories above, but for those above its start
(`upward_eq_passed_append`).
-/
import LocaleKeys.Config.Discovery
import LocaleKeys.Proofs.Glob.Anchoring
import Mathlib.Data.List.DropRight

set_option autoImplicit false

namespace LocaleKeys

/-! ## Shorter paths

The program shortens the text of a path (`Path::parent`), and this is where
steps are counted. Idle pieces are dropped with the step behind which they
stand, so that one shortening takes away exactly one step, except for a dot in
front of a relative path, which is a piece of its own but no step.
`parent?_cases` says all that; nothing later looks at pieces again. `height`
bounds how often a path can be shortened, and it is what the induction of the
search goes down on. -/

namespace Path

/-- The pieces of a path that are steps. -/
def strides (p : Path) : List String := p.pieces.filter (!isIdle ·)

/-- How often a path can be made shorter. A dot in front is no step, but it is
taken away as one. -/
def height (p : Path) : Nat := p.strides.length + if p.pieces.head? = some "." then 1 else 0

/-- A path has no more steps than pieces, even if the dot in front counts. -/
theorem height_le_length (p : Path) : p.height ≤ p.pieces.length := by
  rw [height, strides]
  cases p.pieces with
  | nil => exact Nat.le_refl 0
  | cons first rest =>
    have hrest := List.length_filter_le (!isIdle ·) rest
    by_cases hdot : first = "."
    · rw [List.filter_cons_of_neg (by rw [hdot]; decide), List.head?_cons, if_pos (by rw [hdot]),
        List.length_cons]
      omega
    · have hall := List.length_filter_le (!isIdle ·) (first :: rest)
      rw [List.head?_cons, if_neg (by simpa using hdot)]
      omega

/-- What is left without the end is nothing, or its last piece is a step. -/
theorem withoutIdleEnd_cases (pieces : List String) :
    withoutIdleEnd pieces <+: pieces ∧
    (withoutIdleEnd pieces).filter (!isIdle ·) = pieces.filter (!isIdle ·) ∧
    (withoutIdleEnd pieces = [] ∨
      ∃ front last, withoutIdleEnd pieces = front ++ [last] ∧ isIdle last = false) := by
  induction pieces using List.reverseRecOn with
  | nil => exact ⟨List.prefix_rfl, rfl, .inl rfl⟩
  | append_singleton pieces piece ih =>
    have hdrop : withoutIdleEnd (pieces ++ [piece])
        = if isIdle piece then withoutIdleEnd pieces else pieces ++ [piece] :=
      List.rdropWhile_concat _ _ _
    rw [hdrop]
    obtain ⟨hfront, hfilter, hend⟩ := ih
    -- an idle piece at the end is taken away, and any other one stops it
    by_cases hidle : isIdle piece = true
    · rw [if_pos hidle, List.filter_append, List.filter_cons_of_neg (by simp [hidle]), List.filter_nil,
        List.append_nil]
      exact ⟨hfront.trans (List.prefix_append _ _), hfilter, hend⟩
    · rw [if_neg hidle]
      exact ⟨List.prefix_rfl, rfl, .inr ⟨pieces, piece, rfl, by simpa using hidle⟩⟩

/-- What pieces write takes the steps that they are, and starts as they do.
Only the path to the root is written with one piece more. -/
theorem ofPieces_spec {first : String} {rest : List String}
    (hslash : ∀ piece ∈ first :: rest, '/' ∉ piece.toList) :
    (ofPieces (first :: rest)).pieces.head? = some first ∧
    (ofPieces (first :: rest)).strides = (first :: rest).filter (!isIdle ·) ∧
    (ofPieces (first :: rest)).text ≠ "" := by
  -- a single empty piece would be the empty path, and the root is written
  -- instead
  by_cases hroot : first :: rest = [""]
  · obtain ⟨rfl, rfl⟩ := List.cons.inj hroot
    exact ⟨by decide +kernel, by decide +kernel, by decide +kernel⟩
  · have hpieces : (ofPieces (first :: rest)).pieces = first :: rest := by
      rw [pieces, ofPieces, if_neg (by simpa using hroot)]
      exact Text.piecesOf_intercalate (List.cons_ne_nil _ _) hslash
    refine ⟨by rw [hpieces]; rfl, by rw [strides, hpieces], ?_⟩
    intro hempty
    have hnone : (Path.mk "").pieces = [""] := by decide +kernel
    rw [show ofPieces (first :: rest) = ⟨""⟩ from congrArg Path.mk hempty, hnone] at hpieces
    exact hroot hpieces.symm

section Shorter

variable {p : Path} {first : String} {rest : List String} (hpieces : p.pieces = first :: rest)
include hpieces

/-- If there is a step behind the first piece, the last such step is taken away
with what is idle behind it. -/
theorem parent?_of_step {front : List String} {last : String}
    (hlast : withoutIdleEnd rest = front ++ [last]) :
    p.parent? = some (ofPieces (first :: withoutIdleEnd front)) := by
  rw [parent?, hpieces]
  simp only [hlast]
  split
  · rename_i heq
    exact absurd heq (by simp)
  · rw [List.dropLast_concat]

/-- Without one only the first piece is left, which is taken away unless it is
the root. -/
theorem parent?_of_no_step (hnone : withoutIdleEnd rest = []) :
    p.parent? = if first = "" then none else some ⟨""⟩ := by
  rw [parent?, hpieces]
  simp only [hnone, beq_iff_eq]

/-- The first piece may be a step, too. -/
theorem strides_eq : p.strides = [first].filter (!isIdle ·) ++ rest.filter (!isIdle ·) := by
  rw [strides, hpieces, ← List.filter_append, List.singleton_append]

/-- Only the empty path has one empty piece. -/
theorem text_ne_of_pieces (hfirst : first ≠ "" ∨ rest ≠ []) : p.text ≠ "" := by
  intro hp
  have hempty : (Path.mk "").pieces = [""] := by decide +kernel
  rw [show p = ⟨""⟩ from congrArg Path.mk hp, hempty] at hpieces
  obtain ⟨rfl, rfl⟩ := List.cons.inj hpieces
  rcases hfirst with hfirst | hrest
  · exact hfirst rfl
  · exact hrest rfl

end Shorter

/-- **What a shorter path is.** A path that cannot be made shorter takes no
steps. Otherwise the shorter one starts where the path does, and it lacks one
step, unless there was none to be taken away but a dot in front of a relative
path. -/
theorem parent?_cases (p : Path) : p.parent? = none ∧ p.strides = [] ∨
    ∃ q, p.parent? = some q ∧ q.isAbsolute = p.isAbsolute ∧ q.height < p.height ∧
      (p.isAbsolute = false ∧ p.strides = [] ∧ q.strides = [] ∨
        ∃ s, isIdle s = false ∧ p.strides = q.strides ++ [s]) := by
  obtain ⟨first, rest, hpieces⟩ := List.exists_cons_of_ne_nil p.pieces_ne_nil
  obtain ⟨hleads, hfilter, hend⟩ := withoutIdleEnd_cases rest
  have hstrides := strides_eq hpieces
  rw [← hfilter] at hstrides
  -- nothing is left behind the first piece, or there is a last step
  rcases hend with hnone | ⟨front, last, hlast, hstep⟩
  · rw [hnone, List.filter_nil, List.append_nil] at hstrides
    have hparent := parent?_of_no_step hpieces hnone
    by_cases hfirst : first = ""
    · rw [if_pos hfirst] at hparent
      rw [hfirst] at hstrides
      exact .inl ⟨hparent, hstrides⟩
    · -- what is left is the empty path, which takes no steps
      rw [if_neg hfirst] at hparent
      have hempty : (Path.mk "").strides = [] ∧ (Path.mk "").height = 0 := by decide +kernel
      have hrelative : p.isAbsolute = false := by
        have hhead := isAbsolute_iff_head (text_ne_of_pieces hpieces (.inl hfirst))
        rw [hpieces, List.head?_cons, Option.some_inj] at hhead
        exact Bool.eq_false_iff.mpr fun habsolute => hfirst (hhead.mp habsolute)
      refine .inr ⟨⟨""⟩, hparent, hrelative.symm, ?_, ?_⟩
      · rw [hempty.2, height, hstrides, hpieces, List.head?_cons]
        by_cases hdot : first = "."
        · rw [if_pos (by rw [hdot])]
          exact Nat.succ_pos _
        · rw [List.filter_cons_of_pos (by simp [isIdle, hfirst, hdot])]
          exact Nat.lt_add_right _ (Nat.succ_pos _)
      · rw [hstrides, hempty.1]
        by_cases hidle : isIdle first = true
        · exact .inl ⟨hrelative, List.filter_cons_of_neg (by simp [hidle]), rfl⟩
        · exact .inr ⟨first, by simpa using hidle, List.filter_cons_of_pos (by simpa using hidle)⟩
  · obtain ⟨hleads', hfilter', -⟩ := withoutIdleEnd_cases front
    -- what is left of the pieces are pieces of the path, so that they can be
    -- put together again
    have hsub : ∀ piece ∈ first :: withoutIdleEnd front, piece ∈ first :: rest := by
      intro piece hpiece
      rcases List.mem_cons.mp hpiece with rfl | hpiece
      · exact List.mem_cons_self
      · have hmem : piece ∈ withoutIdleEnd rest := by
          rw [hlast]
          exact List.mem_append_left _ (hleads'.subset hpiece)
        exact List.mem_cons_of_mem _ (hleads.subset hmem)
    obtain ⟨hhead, hsteps, htext⟩ := @ofPieces_spec first _ fun piece hpiece =>
      slash_notMem_of_mem_pieces (p := p) piece (by rw [hpieces]; exact hsub piece hpiece)
    have hlonger : p.strides = (ofPieces (first :: withoutIdleEnd front)).strides ++ [last] := by
      have hone : [last].filter (!isIdle ·) = [last] :=
        List.filter_cons_of_pos (by simpa using hstep)
      rw [hsteps, hstrides, hlast, List.filter_append, hone, ← List.append_assoc,
        ← List.singleton_append (l := withoutIdleEnd front), List.filter_append, hfilter']
    refine .inr ⟨_, parent?_of_step hpieces hlast, ?_, ?_, .inr ⟨last, hstep, hlonger⟩⟩
    · have hrest : rest ≠ [] := by
        rintro rfl
        exact absurd hlast (by simp [withoutIdleEnd])
      have hq := isAbsolute_iff_head htext
      rw [hhead] at hq
      have hp := isAbsolute_iff_head (text_ne_of_pieces hpieces (.inr hrest))
      rw [hpieces, List.head?_cons] at hp
      exact Bool.eq_iff_iff.mpr (hq.trans hp.symm)
    · rw [height, height, hlonger, hhead, hpieces, List.head?_cons, List.length_append,
        List.length_singleton]
      omega

end Path

namespace Disk

namespace Location

/-! ## Directories above and places on the way

Two lists of places are compared. `upward` is what the documentation speaks of,
the directory and those above it. `passed` is what the search looks at: the
places that the path goes through, seen from its end. A step that leads up
makes the two differ, since the place it comes from is passed but is not above.
Otherwise one is the front of the other (`upward_eq_passed_append`). -/

/-- Something of this name is in the directory. -/
def holds (l : Location) (name : String) : Bool := (l.tree.child? name).isSome

/-- The directories above a place, from the inside out. -/
def directoriesOf : List (String × FileTree) → List Location
  | [] => []
  | (_, t) :: above => ⟨t, above⟩ :: directoriesOf above

/-- The place and the directories above it, up to the root. -/
def upward (l : Location) : List Location := l :: directoriesOf l.above

/-- The places that are passed where steps are taken, the last one first. -/
def passed : Location → List String → List Location
  | l, [] => [l]
  | l, s :: ss => (l.step s).toOption.elim [] (passed · ss) ++ [l]

/-- A further step passes one place more, which comes first. -/
theorem passed_concat {l m m' : Location} {ss : List String} (h : l.follow ss = .ok m) {s : String}
    (hstep : m.step s = .ok m') : l.passed (ss ++ [s]) = m' :: l.passed ss := by
  induction ss generalizing l with
  | nil =>
    obtain rfl := Except.ok.inj h
    show (l.step s).toOption.elim [] (passed · []) ++ [l] = m' :: [l]
    rw [hstep]
    rfl
  | cons s' ss ih =>
    obtain ⟨l', hl', hrest⟩ := follow_cons_eq_ok h
    rw [List.cons_append, passed, passed, hl']
    show l'.passed (ss ++ [s]) ++ [l] = m' :: (l'.passed ss ++ [l])
    rw [ih hrest, List.cons_append]

/-- Where steps only lead down, the places that are passed are the directories
above the last, and behind them come those above the first. -/
theorem upward_eq_passed_append {l m : Location} {ss : List String} (h : l.follow ss = .ok m)
    (hnames : ∀ s ∈ ss, IsName s) : m.upward = l.passed ss ++ directoriesOf l.above := by
  induction ss using List.reverseRecOn generalizing m with
  | nil =>
    obtain rfl := Except.ok.inj h
    rfl
  | append_singleton ss s ih =>
    rw [follow_append] at h
    obtain ⟨m', hm', hlast⟩ := bind_eq_ok_iff.mp h
    rw [follow_singleton] at hlast
    -- a step by name leads to an entry, and the directory is the first one
    -- above it
    obtain ⟨t, -, rfl⟩ := step_name_eq_ok (hnames s (by simp)) hlast
    rw [passed_concat hm' hlast, List.cons_append,
      ← ih hm' fun s' hs' => hnames s' (List.mem_append_left _ hs')]
    rfl

/-! ## The nearest configuration

`nearest` is the search over a list of places. The lemmas characterise both of
its outcomes without recursion: what it finds has a configuration and nothing
in front decides, and if it finds nothing, each configuration has the top of a
repository in front of it. A configuration beside the top still counts, which
is why the two names are asked for in this order. -/

/-- The first place that has a configuration. None is looked for behind the top
of a repository. -/
def nearest : List Location → Option Location
  | [] => none
  | l :: ls =>
    if l.holds configFileName then some l
    else if l.holds repositoryMark then none
    else nearest ls

/-- The search is over at the place. -/
def decides (l : Location) : Bool := l.holds configFileName || l.holds repositoryMark

/-- A place is found if it has a configuration and no place in front of it ends
the search. -/
theorem nearest_eq_some_iff {ls : List Location} {l : Location} :
    nearest ls = some l ↔ ∃ below above, ls = below ++ l :: above ∧ l.holds configFileName = true ∧
      ∀ b ∈ below, ¬ b.decides := by
  induction ls with
  | nil => exact iff_of_false (by simp [nearest]) (by simp)
  | cons m ls ih =>
    rw [nearest]
    -- the first place has a configuration, or it is the top, or the search
    -- goes on
    by_cases hconfig : m.holds configFileName = true
    · rw [if_pos hconfig, Option.some_inj]
      constructor
      · rintro rfl
        exact ⟨[], ls, rfl, hconfig, by simp⟩
      · rintro ⟨below, above, heq, -, hbelow⟩
        cases below with
        | nil => exact (List.cons.inj heq).1
        | cons b below =>
          obtain ⟨rfl, -⟩ := List.cons.inj heq
          exact absurd (by rw [decides, hconfig, Bool.true_or]) (hbelow m List.mem_cons_self)
    · rw [if_neg hconfig]
      by_cases hmark : m.holds repositoryMark = true
      · rw [if_pos hmark]
        refine iff_of_false (by simp) ?_
        rintro ⟨below, above, heq, hl, hbelow⟩
        cases below with
        | nil =>
          obtain ⟨rfl, -⟩ := List.cons.inj heq
          exact hconfig hl
        | cons b below =>
          obtain ⟨rfl, -⟩ := List.cons.inj heq
          exact absurd (by rw [decides, hmark, Bool.or_true]) (hbelow m List.mem_cons_self)
      · rw [if_neg hmark, ih]
        constructor
        · rintro ⟨below, above, rfl, hl, hbelow⟩
          refine ⟨m :: below, above, rfl, hl, ?_⟩
          rw [List.forall_mem_cons]
          exact ⟨by simp [decides, hconfig, hmark], hbelow⟩
        · rintro ⟨below, above, heq, hl, hbelow⟩
          cases below with
          | nil =>
            obtain ⟨rfl, -⟩ := List.cons.inj heq
            exact absurd hl hconfig
          | cons b below =>
            obtain ⟨rfl, rfl⟩ := List.cons.inj heq
            exact ⟨below, above, rfl, hl, (List.forall_mem_cons.mp hbelow).2⟩

/-- None is found if in front of each configuration there is the top of a
repository. -/
theorem nearest_eq_none_iff {ls : List Location} :
    nearest ls = none ↔ ∀ below l above, ls = below ++ l :: above → l.holds configFileName = true →
      ∃ b ∈ below, b.holds repositoryMark = true := by
  induction ls with
  | nil => exact iff_of_true rfl fun below l above heq => absurd heq (by simp)
  | cons m ls ih =>
    rw [nearest]
    -- the cases of the definition once more
    by_cases hconfig : m.holds configFileName = true
    · rw [if_pos hconfig]
      refine iff_of_false (by simp) fun h => ?_
      obtain ⟨b, hb, -⟩ := h [] m ls rfl hconfig
      exact List.not_mem_nil hb
    · rw [if_neg hconfig]
      by_cases hmark : m.holds repositoryMark = true
      · rw [if_pos hmark]
        refine iff_of_true rfl ?_
        intro below l above heq hl
        cases below with
        | nil => exact absurd ((List.cons.inj heq).1 ▸ hl) hconfig
        | cons b below => exact ⟨b, List.mem_cons_self, (List.cons.inj heq).1 ▸ hmark⟩
      · rw [if_neg hmark, ih]
        constructor
        · intro h below l above heq hl
          cases below with
          | nil => exact absurd ((List.cons.inj heq).1 ▸ hl) hconfig
          | cons b below =>
            obtain ⟨b', hb', hmark'⟩ := h below l above (List.cons.inj heq).2 hl
            exact ⟨b', List.mem_cons_of_mem b hb', hmark'⟩
        · intro h below l above heq hl
          obtain ⟨b, hb, hmark'⟩ := h (m :: below) l above (by rw [heq]; rfl) hl
          rcases List.mem_cons.mp hb with rfl | hb
          · exact absurd hmark' hmark
          · exact ⟨b, hb, hmark'⟩

/-- A search goes on behind places that do not end it. -/
theorem nearest_append_eq_iff {ls more : List Location} :
    nearest ls = nearest (ls ++ more) ↔ (∃ l ∈ ls, l.decides) ∨ nearest more = none := by
  induction ls with
  | nil =>
    rw [List.nil_append, nearest]
    constructor
    · exact fun h => .inr h.symm
    · rintro (⟨l, hl, -⟩ | h)
      · exact absurd hl List.not_mem_nil
      · exact h.symm
  | cons m ls ih =>
    rw [List.cons_append, nearest, nearest]
    by_cases hconfig : m.holds configFileName = true
    · rw [if_pos hconfig, if_pos hconfig]
      exact iff_of_true rfl (.inl ⟨m, List.mem_cons_self, by rw [decides, hconfig, Bool.true_or]⟩)
    · rw [if_neg hconfig, if_neg hconfig]
      by_cases hmark : m.holds repositoryMark = true
      · rw [if_pos hmark, if_pos hmark]
        exact iff_of_true rfl (.inl ⟨m, List.mem_cons_self, by rw [decides, hmark, Bool.or_true]⟩)
      · rw [if_neg hmark, if_neg hmark, ih, List.exists_mem_cons_iff]
        have hm : m.decides = false := by simp [decides, hconfig, hmark]
        simp only [hm, Bool.false_eq_true, false_or]

end Location

/-! ## Where paths start

The place a path leads to (`standing`) is the one from which a name below it
goes on. It is reached from the start of the path by its steps alone
(`follow_strides_of_standing`), and conversely, as long as it is a directory
that can be opened: idle pieces need one to stand in. Every place on the way to
a further one is such a directory. -/

/-- The place where a path starts. -/
def origin (d : Disk) (p : Path) : Except AccessFault Location :=
  if p.isAbsolute then .ok ⟨d.root, []⟩ else (Location.mk d.root []).follow d.working

/-- The place from which names below the path go on. The empty path stands for
the working directory. -/
def standing (d : Disk) (p : Path) : Except AccessFault Location :=
  (Location.mk d.root []).follow (d.route p)

namespace Location

/-- On the way to an open directory, pieces that are no steps may be put in
between. -/
theorem follow_of_strides {l m : Location} {pieces : List String} (hm : m.tree.IsOpen)
    (h : l.follow (pieces.filter (!Path.isIdle ·)) = .ok m) : l.follow pieces = .ok m := by
  induction pieces generalizing l with
  | nil => exact h
  | cons piece pieces ih =>
    by_cases hidle : Path.isIdle piece = true
    · rw [List.filter_cons_of_neg (by simp [hidle])] at h
      rw [follow_cons, step_idle (isOpen_of_follow h hm) hidle]
      exact ih h
    · rw [List.filter_cons_of_pos (by simpa using hidle)] at h
      obtain ⟨l', hstep, hrest⟩ := follow_cons_eq_ok h
      rw [follow_cons, hstep]
      exact ih hrest

end Location

/-- A path leads on from where it starts, by its pieces or by all but the one
in front of the root. -/
theorem standing_eq_bind (d : Disk) (p : Path) : ∃ pieces, pieces.filter (!Path.isIdle ·) = p.strides ∧
    (p.isAbsolute = false → pieces = p.pieces) ∧ d.standing p = (d.origin p).bind (·.follow pieces) := by
  rw [standing, route, origin]
  by_cases habsolute : p.isAbsolute = true
  · -- the piece in front of the root is no step
    have hp : p.text ≠ "" := fun hempty => by
      rw [Path.isAbsolute, hempty] at habsolute
      exact absurd habsolute (by decide)
    obtain ⟨first, rest, hpieces⟩ := List.exists_cons_of_ne_nil p.pieces_ne_nil
    have hfirst := (Path.isAbsolute_iff_head hp).mp habsolute
    rw [hpieces, List.head?_cons, Option.some_inj] at hfirst
    refine ⟨p.pieces.drop 1, ?_, fun hrelative => absurd (habsolute.symm.trans hrelative) (by simp), ?_⟩
    · rw [Path.strides, hpieces, hfirst]
      rfl
    · rw [if_pos habsolute, if_pos habsolute]
      rfl
  · refine ⟨p.pieces, rfl, fun _ => rfl, ?_⟩
    rw [if_neg habsolute, if_neg habsolute, Location.follow_append]

/-- The steps of a path lead from where it starts to its place. -/
theorem follow_strides_of_standing {d : Disk} {p : Path} {l : Location} (h : d.standing p = .ok l) :
    ∃ o, d.origin p = .ok o ∧ o.follow p.strides = .ok l := by
  obtain ⟨pieces, hstrides, -, hstanding⟩ := d.standing_eq_bind p
  obtain ⟨o, ho, hfollow⟩ := bind_eq_ok_iff.mp (hstanding.symm.trans h)
  exact ⟨o, ho, hstrides ▸ Location.follow_steps hfollow⟩

/-- Where the steps lead to an open directory, the path leads there as well. -/
theorem standing_of_follow_strides {d : Disk} {p : Path} {o l : Location} (hopen : l.tree.IsOpen)
    (ho : d.origin p = .ok o) (h : o.follow p.strides = .ok l) : d.standing p = .ok l := by
  obtain ⟨pieces, hstrides, -, hstanding⟩ := d.standing_eq_bind p
  rw [hstanding]
  exact bind_eq_ok_iff.mpr ⟨o, ho, Location.follow_of_strides hopen (by rwa [hstrides])⟩

/-- A relative path without steps leads to an open directory, since even its
dot needs one to stand in. -/
theorem isOpen_of_strides_nil {d : Disk} {p : Path} {l : Location} (hrelative : p.isAbsolute = false)
    (hnone : p.strides = []) (h : d.standing p = .ok l) : l.tree.IsOpen := by
  obtain ⟨pieces, -, hpieces, hstanding⟩ := d.standing_eq_bind p
  obtain rfl := hpieces hrelative
  obtain ⟨o, -, hfollow⟩ := bind_eq_ok_iff.mp (hstanding.symm.trans h)
  have hidle : ∀ x ∈ p.pieces, Path.isIdle x = true := by
    intro x hx
    simpa using List.filter_eq_nil_iff.mp hnone x hx
  exact (Location.follow_of_idle hidle p.pieces_ne_nil hfollow).2

theorem origin_congr {d : Disk} {p q : Path} (h : q.isAbsolute = p.isAbsolute) :
    d.origin q = d.origin p := by
  rw [origin, origin, h]

/-! ## Going through the shorter paths

At each path the search asks for two names below it. `has_join_name` says that
this asks the place where the path leads to, also for the empty path, behind
which the name alone is written. With that and `parent?_cases` the induction in
`findConfigIn_upwardUpTo` follows the passed places one by one. -/

section

variable {d : Disk} {p : Path} {l : Location} (hl : d.standing p = .ok l) {name : String}
  (hname : Path.IsEntryName name)
include hl hname

/-- A name below a path is the name in the directory that is there. -/
theorem locate_join_name : d.locate (p.join name) = l.step name := by
  have hrelative := hname.isAbsolute
  have hpieces := Path.pieces_of_notMem hname.2
  -- behind the empty path no slash is written
  by_cases hp : p.text = ""
  · have hjoin : p.join name = ⟨name⟩ := by
      rw [Path.join, hp]
      simp
    have hne : (Path.mk name).text.isEmpty = false := by
      have hstep := hname.1.1
      rw [Path.isIdle, Bool.or_eq_false_iff] at hstep
      simpa using hstep.1
    obtain rfl : p = ⟨""⟩ := congrArg Path.mk hp
    have hroute : d.route ⟨""⟩ = d.working ++ [""] := by
      have hpieces : (Path.mk "").pieces = [""] := by decide +kernel
      have hrelative : (Path.mk "").isAbsolute = false := by decide
      rw [route, hrelative, hpieces]
      rfl
    rw [standing, hroute, Location.follow_append] at hl
    obtain ⟨o, ho, hlast⟩ := bind_eq_ok_iff.mp hl
    obtain ⟨rfl, -⟩ := Location.follow_of_idle (by simp [Path.isIdle]) (by simp) hlast
    rw [hjoin, locate_eq, hne, route, hrelative, hpieces]
    simp only [Bool.false_eq_true, if_false]
    rw [Location.follow_append, ho]
    exact Location.follow_singleton l name
  · have hlocate : d.locate p = .ok l := by
      rw [locate_eq, if_neg (by simpa using hp)]
      exact hl
    rw [locate_join hlocate hrelative, hpieces, Location.follow_singleton]

/-- A name below a path is there if the place has an entry of this name. -/
theorem has_join_name : d.has (p.join name) = l.holds name := by
  rw [has, find?, locate_join_name hl hname, Location.holds]
  by_cases hopen : l.tree.IsOpen
  · rw [Location.step_name hopen hname.1]
    cases l.tree.child? name <;> rfl
  · -- in anything else nothing is seen
    obtain ⟨fault, hfault⟩ := Location.exists_error_of_not_isOpen hopen
    cases hchild : l.tree.child? name with
    | none => rw [hfault]; rfl
    | some t => exact absurd (FileTree.isOpen_of_child? hchild) hopen

end

/-- **What the search finds** is the configuration of the nearest place among
those that the path passes. The induction is on the bound, and one step takes
away one step of the path. -/
theorem findConfigIn_upwardUpTo {d : Disk} {n : Nat} {p : Path} {l o : Location}
    (hl : d.standing p = .ok l) (ho : d.origin p = .ok o) (hn : p.height < n) :
    (findConfigIn d (p.upwardUpTo n)).map d.locate
      = (Location.nearest (o.passed p.strides)).map (·.step configFileName) := by
  induction n generalizing p l with
  | zero => exact absurd hn (Nat.not_lt_zero _)
  | succ n ih =>
    obtain ⟨o', ho', hfollow⟩ := follow_strides_of_standing hl
    obtain rfl := Except.ok.inj (ho.symm.trans ho')
    have hconfig : d.has (p.join configFileName) = l.holds configFileName :=
      has_join_name hl (by decide +kernel)
    have hmark : d.has (p.join repositoryMark) = l.holds repositoryMark :=
      has_join_name hl (by decide +kernel)
    -- what the search does at this place, whatever is behind it
    have hhere : ∀ (ps : List Path) (ls : List Location),
        (l.decides = false → (findConfigIn d ps).map d.locate
          = (Location.nearest ls).map (·.step configFileName)) →
        (findConfigIn d (p :: ps)).map d.locate
          = (Location.nearest (l :: ls)).map (·.step configFileName) := by
      intro ps ls hrest
      rw [findConfigIn, Location.nearest]
      simp only [hconfig, hmark]
      cases hc : l.holds configFileName with
      | true => exact congrArg some (locate_join_name hl (by decide +kernel))
      | false =>
        cases hm : l.holds repositoryMark with
        | true => rfl
        | false => exact hrest (by rw [Location.decides, hc, hm]; rfl)
    rw [Path.upwardUpTo]
    -- the path is at its start, or it can be made shorter
    rcases p.parent?_cases with ⟨hparent, hnone⟩ | ⟨q, hparent, habsolute, hheight, hsteps⟩
    · rw [hnone] at hfollow ⊢
      obtain rfl := Except.ok.inj hfollow
      rw [hparent]
      exact hhere [] [] fun _ => rfl
    · rw [hparent]
      show (findConfigIn d (p :: q.upwardUpTo n)).map d.locate = _
      have hq : d.origin q = .ok o := (origin_congr habsolute).trans ho
      rcases hsteps with ⟨hrelative, hnone, hnone'⟩ | ⟨s, -, hlonger⟩
      · -- a dot was taken away, and the search is at the same place again
        have hopen := isOpen_of_strides_nil hrelative hnone hl
        rw [hnone] at hfollow ⊢
        obtain rfl := Except.ok.inj hfollow
        refine hhere _ [] fun hundecided => ?_
        have hsame := ih (standing_of_follow_strides hopen hq (by rw [hnone']; rfl)) hq (by omega)
        rw [Location.decides, Bool.or_eq_false_iff] at hundecided
        have hend : Location.nearest [o] = none := by
          rw [Location.nearest, hundecided.1, hundecided.2]
          rfl
        rw [hsame, hnone', Location.passed, hend]
        rfl
      -- one step was taken away, and the search is at the place in front of it
      · rw [hlonger, Location.follow_append] at hfollow
        obtain ⟨m, hm, hlast⟩ := bind_eq_ok_iff.mp hfollow
        rw [Location.follow_singleton] at hlast
        have hopen := Location.isOpen_of_step hlast
        rw [hlonger, Location.passed_concat hm hlast]
        refine hhere _ _ fun _ => ?_
        exact ih (standing_of_follow_strides hopen hq hm) hq (by omega)

/-! ## The search against the directories above

`NearestConfig` says what the documentation promises, without reference to a
search. It holds of what was found if and only if the search through the passed
places comes to the same as one through the directories above
(`nearestConfig_iff`). That two places with a configuration are the same if
their configurations are is needed for one direction. -/

/-- **The nearest configuration**, seen from a place. What is found is the
configuration of the place or of a directory above it, and neither a
configuration nor the top of a repository is further below. If nothing is
found, then there is no configuration up to the top of the repository, or up to
the root. -/
structure NearestConfig (d : Disk) (l : Location) (found : Option Path) : Prop where
  of_some : ∀ path, found = some path → ∃ below m above, l.upward = below ++ m :: above ∧
    m.holds configFileName = true ∧ d.locate path = m.step configFileName ∧ ∀ b ∈ below, ¬ b.decides
  of_none : found = none → ∀ below m above, l.upward = below ++ m :: above →
    m.holds configFileName = true → ∃ b ∈ below, b.holds repositoryMark = true

/-- A configuration is in one directory only. -/
theorem Location.eq_of_step_config {l m : Location} (hl : l.holds configFileName = true)
    (hm : m.holds configFileName = true) (h : l.step configFileName = m.step configFileName) : l = m := by
  have hname : Location.IsName configFileName :=
    (show Path.IsEntryName configFileName by decide +kernel).1
  obtain ⟨t, ht⟩ := Option.isSome_iff_exists.mp hl
  obtain ⟨t', ht'⟩ := Option.isSome_iff_exists.mp hm
  rw [step_name (FileTree.isOpen_of_child? ht) hname, step_name (FileTree.isOpen_of_child? ht') hname, ht,
    ht'] at h
  obtain ⟨-, habove⟩ := Location.mk.inj (Except.ok.inj h)
  obtain ⟨hentry, habove⟩ := List.cons.inj habove
  obtain ⟨l, above⟩ := l
  obtain ⟨m, above'⟩ := m
  exact congr (congrArg Location.mk (Prod.mk.inj hentry).2) habove

/-- What a search through places finds is the nearest configuration if and only
if the search through the directories above ends at the same place. -/
theorem nearestConfig_iff {d : Disk} {l : Location} {found : Option Path} {ls : List Location}
    (h : found.map d.locate = (Location.nearest ls).map (·.step configFileName)) :
    d.NearestConfig l found ↔ Location.nearest ls = Location.nearest l.upward := by
  cases hls : Location.nearest ls with
  | none =>
    rw [hls, Option.map_none, Option.map_eq_none_iff] at h
    rw [eq_comm, Location.nearest_eq_none_iff]
    exact ⟨fun hnearest => hnearest.of_none h, fun hnone =>
      ⟨fun path hpath => absurd (h.symm.trans hpath) (by simp), fun _ => hnone⟩⟩
  | some m =>
    rw [hls, Option.map_some, Option.map_eq_some_iff] at h
    obtain ⟨path, rfl, hpath⟩ := h
    obtain ⟨-, -, -, hm, -⟩ := Location.nearest_eq_some_iff.mp hls
    rw [eq_comm, Location.nearest_eq_some_iff]
    constructor
    · intro hnearest
      obtain ⟨below, m', above, hupward, hm', hpath', hbelow⟩ := hnearest.of_some path rfl
      obtain rfl := Location.eq_of_step_config hm hm' (hpath.symm.trans hpath')
      exact ⟨below, above, hupward, hm, hbelow⟩
    · rintro ⟨below, above, hupward, -, hbelow⟩
      refine ⟨?_, fun hnone => absurd hnone (by simp)⟩
      rintro path' hpath'
      obtain rfl := Option.some.inj hpath'
      exact ⟨below, m, above, hupward, hm, hpath, hbelow⟩

/-- A repository with a configuration deep inside of it. -/
def deepConfigDisk : Disk where
  root := .directory [(repositoryMark, .directory []),
    ("a", .directory [("b", .directory [(configFileName, .file (.ofText "\x7b\x7d" 0))])])]

/-- **When the nearest configuration is found.** The search goes through the
places that the path passes, so it is right if and only if it ends where a
search through the directories above would. A path that leads nowhere up passes
the directories above as far as its start. So it is right for such a path if
the search is over by then, or if there is nothing more to be found, and always
if the path starts at the root. -/
theorem findConfig_nearest_iff {d : Disk} {start : Path} {l : Location}
    (hstart : d.standing start = .ok l) :
    ∃ o, d.origin start = .ok o ∧
      (d.NearestConfig l (findConfig d start) ↔
        Location.nearest (o.passed start.strides) = Location.nearest l.upward) ∧
      (".." ∉ start.strides →
        (d.NearestConfig l (findConfig d start) ↔
          (∃ m ∈ o.passed start.strides, m.decides) ∨
            Location.nearest (Location.directoriesOf o.above) = none) ∧
        (start.isAbsolute = true → d.NearestConfig l (findConfig d start))) := by
  obtain ⟨o, ho, hfollow⟩ := follow_strides_of_standing hstart
  have hfound : (findConfig d start).map d.locate
      = (Location.nearest (o.passed start.strides)).map (·.step configFileName) :=
    findConfigIn_upwardUpTo hstart ho (Nat.lt_succ_of_le start.height_le_length)
  have hiff := nearestConfig_iff (l := l) hfound
  refine ⟨o, ho, hiff, ?_⟩
  intro hup
  have hnames : ∀ s ∈ start.strides, Location.IsName s := by
    intro s hs
    have hstep := (List.mem_filter.mp hs).2
    exact ⟨by simpa using hstep, fun heq => hup (heq ▸ hs)⟩
  -- the directories above are the passed places, and then those above the
  -- start
  rw [Location.upward_eq_passed_append hfollow hnames, Location.nearest_append_eq_iff] at hiff
  refine ⟨hiff, fun habsolute => hiff.mpr (.inr ?_)⟩
  rw [origin, if_pos habsolute] at ho
  obtain rfl := Except.ok.inj ho
  rfl

/-- From the root on, the search climbs past two directories to the
configuration above them. -/
theorem findConfig_nearest_of_root :
    let config : String × FileTree := (configFileName, .file (.ofText "\x7b\x7d" 0))
    let d : Disk :=
      { root := .directory [("a", .directory [config, ("b", .directory [("c", .directory [])])])] }
    findConfig d ⟨"/a/b/c"⟩ = some ⟨"/a/.i18nlensrc.json"⟩ ∧
      ∃ l, d.standing ⟨"/a/b/c"⟩ = .ok l ∧ l.names = ["a", "b", "c"] ∧
        d.NearestConfig l (findConfig d ⟨"/a/b/c"⟩) := by
  intro config d
  have hstart : (d.standing ⟨"/a/b/c"⟩).toOption.any (fun l => l.names == ["a", "b", "c"]) = true := by
    decide +kernel
  obtain ⟨l, hl, hnames⟩ := exists_ok_of_any hstart
  have hup : ".." ∉ (Path.mk "/a/b/c").strides := by decide +kernel
  obtain ⟨o, -, -, hnearest⟩ := findConfig_nearest_iff hl
  exact ⟨by decide +kernel, l, hl, eq_of_beq hnames, (hnearest hup).2 (by decide +kernel)⟩

/-- A path that leads down and up again passes a directory that is neither its
own nor above it, and the configuration there is found, although the project
has none. -/
theorem deep_config_found : ∃ l, deepConfigDisk.standing ⟨"a/b/.."⟩ = .ok l ∧
    l.tree.isDirectory = true ∧
    ¬ deepConfigDisk.NearestConfig l (findConfig deepConfigDisk ⟨"a/b/.."⟩) := by
  -- neither the directory nor one above it has a configuration
  have hstart : (deepConfigDisk.standing ⟨"a/b/.."⟩).toOption.any (fun l =>
      l.tree.isDirectory && l.upward.all fun m => !m.holds configFileName) = true := by
    decide +kernel
  obtain ⟨l, hl, hnone⟩ := exists_ok_of_any hstart
  rw [Bool.and_eq_true] at hnone
  refine ⟨l, hl, hnone.1, fun hnearest => ?_⟩
  have hfound : (findConfig deepConfigDisk ⟨"a/b/.."⟩).isSome = true := by decide +kernel
  obtain ⟨path, hpath⟩ := Option.isSome_iff_exists.mp hfound
  obtain ⟨below, m, above, hupward, hm, -⟩ := hnearest.of_some path hpath
  have hall := List.all_eq_true.mp hnone.2 m (by rw [hupward]; simp)
  rw [hm] at hall
  exact absurd hall (by decide)

end Disk

end LocaleKeys
