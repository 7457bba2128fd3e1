/-
What the templates of a project stand for.

A relative template stands for paths below the root of the project, and the
files that are found by it are the files at these paths. Each of them that is
below the root is given once, whichever templates stand for it and however
often (`localeFiles_below_root`). What is in the place of the locale stands for
itself there, since it is said of the letters of the template and not of the
pattern that they are spelled as.

A path that is given takes the course of the root and then that of the path
that the template stands for. It need not begin with the root as the root is
written, because a search does not show a dot in front.

All this is said of roots that are paths. The empty text is none: what is put
behind it starts at the root of the disk (`localeFiles_asRoot`). But it is also
the directory of a configuration that has been found right where the program
runs, and the files of such a project are not found
(`files_below_empty_root_lost`).
-/
import LocaleKeys.Config.Discovery
import LocaleKeys.Proofs.Glob.Anchoring

set_option autoImplicit false

namespace LocaleKeys

namespace Letter

open Glob

/-! ## Ways that letters stand for

The letters of a template are its characters, each marked as one of the pattern
or one of the locale, and they are cut into steps at slashes. `StandFor`
relates these steps to ways, that is to lists of pieces. The edges need care: a
way may begin or end with an empty piece, for a slash in front or behind, and
the steps do exactly if the way does. -/

/-- Steps that stand for pieces stand for some. -/
theorem ne_nil_of_standFor {steps : List (List Letter)} (hsteps : steps ≠ []) {way : List String}
    (h : StandFor steps way) : way ≠ [] := by
  obtain ⟨step, rest, rfl⟩ := List.exists_cons_of_ne_nil hsteps
  rw [StandFor] at h
  split at h
  · obtain ⟨front, name, more, rfl, -⟩ := h
    simp
  · obtain ⟨piece, more, rfl, -⟩ := h
    simp

/-- A way that begins with no step is stood for by steps that begin so. -/
theorem head?_of_standFor {steps : List (List Letter)} {way : List String} (h : StandFor steps way)
    (hhead : way.head? = some "") : steps.head? = some [] := by
  cases steps with
  | nil =>
    obtain rfl : way = [] := h
    exact absurd hhead (by simp)
  | cons step rest =>
    rw [StandFor] at h
    -- two stars pass directories whose names are not empty, and any other step
    -- is one piece
    split at h
    · obtain ⟨front, name, more, rfl, hfront, hname, -⟩ := h
      cases front with
      | nil => exact absurd (Option.some.inj hhead) (ne_empty_of_name hname)
      | cons first front =>
        exact absurd (Option.some.inj hhead) (ne_empty_of_name (hfront first List.mem_cons_self))
    · obtain ⟨piece, more, rfl, ⟨-, hpiece⟩, -⟩ := h
      obtain rfl := Option.some.inj hhead
      have hnone : (text step).head? = none := hpiece.resolve_left fun hname => absurd hname.1 (by decide)
      rw [List.head?_eq_none_iff, text, List.map_eq_nil_iff] at hnone
      rw [hnone, List.head?_cons]

/-- A way that letters stand for ends with no step if the letters do. -/
theorem getLast?_of_standFor {steps : List (List Letter)} {way : List String} (h : StandFor steps way)
    (hlast : steps.getLast? = some []) : way.getLast? = some "" := by
  induction steps generalizing way with
  | nil => exact absurd hlast (by simp)
  | cons step rest ih =>
    -- a single step is the last one
    by_cases hrest : rest = []
    · rw [hrest, List.getLast?_singleton, Option.some_inj] at hlast
      rw [hrest, hlast, StandFor, if_neg (by decide)] at h
      obtain ⟨piece, more, rfl, hpiece, rfl⟩ := h
      rw [String.toList_eq_nil_iff.mp ((standsFor_literally [] piece).mp hpiece)]
      rfl
    · -- the last piece is stood for by the steps behind the first one
      have hbehind : ∃ front more, way = front ++ more ∧ StandFor rest more := by
        rw [StandFor] at h
        split at h
        · obtain ⟨front, name, more, rfl, -, -, hstand⟩ := h
          exact ⟨front, name :: more, rfl, hstand⟩
        · obtain ⟨piece, more, rfl, -, hstand⟩ := h
          exact ⟨[piece], more, rfl, hstand⟩
      obtain ⟨front, more, rfl, hstand⟩ := hbehind
      obtain ⟨second, others, hothers⟩ := List.exists_cons_of_ne_nil hrest
      rw [hothers, List.getLast?_cons_cons, ← hothers] at hlast
      rw [List.getLast?_append, ih hstand hlast]
      rfl

/-- Letters that begin with no step are none, or begin with a slash. -/
theorem eq_nil_or_of_head?_steps {letters : List Letter} (h : (steps letters).head? = some []) :
    letters = [] ∨ ∃ x ∈ letters.head?, x.char = '/' := by
  cases letters with
  | nil => exact .inl rfl
  | cons x letters =>
    refine .inr ⟨x, rfl, ?_⟩
    by_contra hslash
    rw [steps, List.splitOnP_cons_eq_if_modifyHead, if_neg (by simpa using hslash)] at h
    cases hsteps : letters.splitOnP (·.char == '/') with
    | nil => exact absurd hsteps (List.splitOnP_ne_nil _ _)
    | cons step rest =>
      rw [hsteps] at h
      exact absurd h (by simp)

/-! ## The steps of a root

The root is put in front of the template in letters of its own. It has neither
stars nor other wildcards left after its characters are spelled out, so it
stands for its own pieces and for nothing else (`eq_anchor_of_stand`), and no
step of it leads up as a wildcard might. -/

section

variable {root : Path} {front : List Segment}

/-- The pieces of a root are regular steps. -/
theorem regular_anchor (root : Path) :
    ∀ step ∈ root.anchor.map (fun piece => literally piece.toList), Regular step := by
  intro step hstep
  obtain ⟨piece, hpiece, rfl⟩ := List.mem_map.mp hstep
  exact regular_literally (Path.slash_notMem_of_mem_anchor piece hpiece)

variable (hfront : Reads (root.anchor.map fun piece => literally piece.toList) front)
include hfront

/-- Each of them is read of a piece of the root. -/
theorem exists_piece_of_mem {s : Segment} (hs : s ∈ front) :
    ∃ piece ∈ root.anchor, ∃ ts, tokensFrom 0 0 none (pattern (literally piece.toList)) = .ok ts ∧
      s = Segment.ofTokens (String.ofList (pattern (literally piece.toList))) ts := by
  obtain ⟨step, hstep, ts, hts, heq⟩ := exists_of_mem_reads hfront hs
  obtain ⟨piece, hpiece, rfl⟩ := List.mem_map.mp hstep
  exact ⟨piece, hpiece, ts, hts, heq⟩

/-- None of them is two stars. -/
theorem anyDepth_notMem_anchor : .anyDepth ∉ front := by
  intro hmem
  obtain ⟨piece, hpiece, ts, hts, heq⟩ := exists_piece_of_mem hfront hmem
  have hslash := (regular_literally (Path.slash_notMem_of_mem_anchor piece hpiece)).slash
  have hstars := (anyDepth_mem_iff hslash hts).mp (ofTokens_eq_anyDepth_iff.mp heq.symm)
  exact not_isAnyDepth_literally _ hstars

/-- No wildcard of the root leads up. -/
theorem dots_of_anchor {tokens : List Token} (hmem : .names tokens ∈ front) : ".." ∉ dots tokens := by
  obtain ⟨piece, hpiece, ts, hts, heq⟩ := exists_piece_of_mem hfront hmem
  exact dots_of_literally (Path.slash_notMem_of_mem_anchor piece hpiece) hts heq.symm

/-- They stand for the pieces of the root, and for nothing else. -/
theorem eq_anchor_of_stand {way : List String} (h : Stand front way) : way = root.anchor := by
  have hslash := slash_notMem_of_stand (slash_notMem_of_reads (regular_anchor root) hfront) h
  have hstand := (stand_iff_standFor (regular_anchor root) hfront hslash).mp h
  rw [← List.append_nil (root.anchor.map _), standFor_literally_append] at hstand
  obtain ⟨more, hmore, rfl⟩ := hstand
  rw [hmore, List.append_nil]

end

/-! ## What is found below a root

Both directions of the correspondence between what the search finds and the
ways of the letters. The first goes through the search at the root: up to there
it can only find the root, and what is found from there on is at the end of a
way. The second puts the root and a way together to one way, whose end the
search finds. -/

section

variable {root : Path} {letters : List Letter} (hseparable : ∀ step ∈ steps letters, Separable step)
include hseparable

/-- The steps of a template whose locale is apart from brackets are regular. -/
theorem regular_steps : ∀ step ∈ steps letters, Regular step := fun step hstep =>
  ⟨ne_slash_of_mem_steps hstep, hseparable step hstep⟩

variable {d : Disk} (hproper : d.root.Proper) (hroot : root.text ≠ "") {segments : List Segment}
  (hread : Reads (root.anchor.map (fun piece => literally piece.toList) ++ steps letters) segments)
include hproper hroot hread

/-- **What is found below a root** is at the end of a way that the letters
stand for. The steps of the root are literal, and so they lead to the root and
nowhere else. -/
theorem exists_way_of_mem_search {q : Path} (hmem : q ∈ search d (merged segments) root.start)
    (hfile : d.isFile q = true) :
    ∃ way, StandFor (steps letters) way ∧ (∀ piece ∈ way, '/' ∉ piece.toList) ∧ Goes d root way q ∧
      (".." ∉ way → q.IsClear) := by
  obtain ⟨front, rest, hfront, hrest, rfl⟩ := reads_append_iff.mp hread
  have hletters := regular_steps hseparable
  have hdepth := anyDepth_notMem_anchor hfront
  rw [merged_append hdepth, mem_search_append hdepth] at hmem
  obtain ⟨base, hbase, hq⟩ := hmem
  -- the steps of the root lead to the root
  obtain ⟨way₁, hstand₁, hgoes₁, hclear₁⟩ :=
    found_of_mem_search hproper (slash_notMem_of_reads (regular_anchor root) hfront)
      root.text_start_ne hbase fun hlast => absurd (List.mem_of_getLast? hlast) hdepth
  obtain rfl : way₁ = root.anchor := eq_anchor_of_stand hfront hstand₁
  have hbaseClear : base.IsClear := hclear₁ root.isClear_start fun tokens hnames hdots =>
    absurd hdots (dots_of_anchor hfront hnames)
  -- from there on, the search is for the letters
  have hplain := slash_notMem_of_reads hletters hrest
  obtain ⟨way, hstand, hgoes, hclear⟩ := found_of_mem_search hproper
    (fun text h => hplain text (mem_of_mem_merged h)) hgoes₁.text_ne hq fun _ => hfile
  rw [stand_merged] at hstand
  have hslash := slash_notMem_of_stand hplain hstand
  have hway : StandFor (steps letters) way := (stand_iff_standFor hletters hrest hslash).mp hstand
  have hne := ne_nil_of_standFor (List.splitOnP_ne_nil _ _) hway
  refine ⟨way, hway, hslash, (Path.goes_anchor hroot hne).mp (hgoes₁.trans hgoes), fun hup => ?_⟩
  exact hclear hbaseClear fun _ _ _ => hup

/-- **The end of each way is found** that the letters stand for below a root.
Root and way together are read by the whole pattern, and the search finds the
end of whatever its pattern stands for. -/
theorem exists_mem_search_of_standFor {way : List String} (hway : StandFor (steps letters) way)
    (hslash : ∀ piece ∈ way, '/' ∉ piece.toList) {m : Disk.Location}
    (hm : (d.locate root).bind (·.follow way) = .ok m)
    (hdot : root.start.IsHere → ((root.anchor ++ way).dropWhile (· == ".")).head? ≠ some "") :
    ∃ q ∈ search d (merged segments) root.start, Goes d root way q := by
  have hne := ne_nil_of_standFor (List.splitOnP_ne_nil _ _) hway
  have hregular := List.forall_mem_append.mpr ⟨regular_anchor root, regular_steps hseparable⟩
  have hplain := slash_notMem_of_reads hregular hread
  -- root and way together are what the whole pattern stands for
  have hstand : Stand (merged segments) (root.anchor ++ way) := by
    rw [stand_merged, stand_iff_standFor hregular hread
      (List.forall_mem_append.mpr ⟨Path.slash_notMem_of_mem_anchor, hslash⟩)]
    exact (standFor_literally_append _ _ _).mpr ⟨way, rfl, hway⟩
  obtain ⟨q, hq, hgoes⟩ := exists_mem_search hproper (fun text h => hplain text (mem_of_mem_merged h))
    (merged_isChain segments) root.text_start_ne hstand ((Path.locate_start hroot d hne).trans hm) hdot
  exact ⟨q, hq, (Path.goes_anchor hroot hne).mp hgoes⟩

end

end Letter

/-! ## Templates

`RelativeTemplate` collects what is asked of a template, and `TemplateFits`
says that it stands for a path, which is decidable and is said of its letters.
Only one shape of path is not found: where a dot in front of the root is
dropped and the next piece is empty, the way would begin at the root of the
disk. -/

/-- The template is relative, whatever the locale begins with, and it can be
searched for: each of its steps is a pattern, and no placeholder stands between
brackets. -/
structure RelativeTemplate (template locale : String) : Prop where
  placeholder : hasPlaceholder template = true
  relative : ∀ x ∈ (Letter.ofTemplate template locale).head?, x.char ≠ '/'
  readable : Glob.StepsReadable (Text.replaced template localePlaceholder (Glob.escape locale))
  separable : ∀ step ∈ Letter.steps (Letter.ofTemplate template locale), Letter.Separable step

/-- The template stands for a path, in which the locale stands for itself. -/
def TemplateFits (template locale : String) (r : Path) : Prop :=
  Letter.StandFor (Letter.steps (Letter.ofTemplate template locale)) r.pieces

instance (template locale : String) (r : Path) : Decidable (TemplateFits template locale r) :=
  inferInstanceAs (Decidable (Letter.StandFor _ _))

namespace Path

/-- Seen from the root, the path has a doubled slash right behind a dot in
front. -/
def DoubledBehindDot (r root : Path) : Prop :=
  root.isAbsolute = false ∧ (root.anchor ++ r.pieces).head? = some "." ∧
    ((root.anchor ++ r.pieces).dropWhile (· == ".")).head? = some ""

instance (r root : Path) : Decidable (r.DoubledBehindDot root) :=
  inferInstanceAs (Decidable (root.isAbsolute = false ∧ (root.anchor ++ r.pieces).head? = some "." ∧
    ((root.anchor ++ r.pieces).dropWhile (· == ".")).head? = some ""))

theorem doubledBehindDot_of_here {r root : Path} (hroot : root.text ≠ "") (hhere : root.start.IsHere)
    (hempty : ((root.anchor ++ r.pieces).dropWhile (· == ".")).head? = some "") :
    r.DoubledBehindDot root := by
  have hrelative : root.isAbsolute = false := by
    rw [Bool.eq_false_iff]
    intro habsolute
    rw [start, if_pos habsolute] at hhere
    exact absurd hhere (by decide +kernel)
  refine ⟨hrelative, ?_, hempty⟩
  by_contra hdot
  refine head?_anchor_append_ne hroot hrelative r.pieces ?_
  cases hlist : root.anchor ++ r.pieces with
  | nil =>
    rw [hlist] at hempty
    exact absurd hempty (by simp)
  | cons piece rest =>
    rw [hlist] at hempty hdot
    have hpiece : ¬ (piece == ".") = true := fun heq => hdot (by rw [eq_of_beq heq, List.head?_cons])
    have hall : (piece :: rest).dropWhile (· == ".") = piece :: rest :=
      List.dropWhile_cons_of_neg hpiece
    rwa [hall] at hempty

/-- The path is that of something inside of the root. -/
def IsWithin (p root : Path) : Prop := ∃ names : List String, p.course = root.course ++ names.map .down

end Path

namespace Disk

/-- A path is one of a file if it leads to one. -/
theorem isFile_iff {d : Disk} {p : Path} :
    d.isFile p = true ↔ ∃ m, d.locate p = .ok m ∧ m.tree.isFile = true := by
  rw [isFile, Option.any_eq_true]
  constructor
  · rintro ⟨t, ht, hfile⟩
    obtain ⟨m, hm, rfl⟩ := find?_eq_some_iff.mp ht
    exact ⟨m, hm, hfile⟩
  · rintro ⟨m, hm, hfile⟩
    exact ⟨m.tree, find?_eq_some_iff.mpr ⟨m, hm, rfl⟩, hfile⟩

/-- Only a directory can be followed by a slash. -/
theorem not_isFile_under {d : Disk} {root r : Path} (hroot : root.text ≠ "")
    (hr : r.isAbsolute = false) (hlast : r.pieces.getLast? = some "") :
    ¬ d.isFile (r.under root) = true := by
  intro hfile
  obtain ⟨m, hm, hmfile⟩ := isFile_iff.mp hfile
  rw [Path.under, locate_join_bind hroot hr] at hm
  obtain ⟨l, -, hfollow⟩ := bind_eq_ok_iff.mp hm
  obtain ⟨front, hfront⟩ := List.getLast?_eq_some_iff.mp hlast
  rw [hfront, Location.follow_append] at hfollow
  obtain ⟨l', -, hend⟩ := bind_eq_ok_iff.mp hfollow
  have hdirectory := (Location.follow_of_idle (by simp [Path.isIdle]) (by simp) hend).2.isDirectory
  rw [FileTree.isFile, hdirectory] at hmfile
  exact absurd hmfile (by simp)

/-- A directory is no file. -/
theorem not_isFile_of_isDirectory {d : Disk} {p : Path} (h : d.isDirectory p = true) :
    ¬ d.isFile p = true := by
  obtain ⟨t, ht, hdirectory⟩ := isDirectory_iff.mp h
  rw [isFile, ht, Option.any_some, FileTree.isFile, hdirectory]
  simp

end Disk

/-- Pieces without slashes are those of a path. -/
theorem Path.exists_pieces {way : List String} (hway : way ≠ [])
    (hslash : ∀ piece ∈ way, '/' ∉ piece.toList) : ∃ r : Path, r.pieces = way :=
  ⟨⟨"/".intercalate way⟩, Text.piecesOf_intercalate hway hslash⟩

section

variable {template locale : String}

/-- What a relative template stands for is relative. -/
theorem TemplateFits.isAbsolute (h : RelativeTemplate template locale) {r : Path}
    (hr : TemplateFits template locale r) : r.isAbsolute = false := by
  by_cases hempty : r.text = ""
  · rw [Path.isAbsolute, hempty]
    rfl
  · rw [Bool.eq_false_iff]
    intro habsolute
    have hsteps := Letter.head?_of_standFor hr ((Path.isAbsolute_iff_head hempty).mp habsolute)
    rcases Letter.eq_nil_or_of_head?_steps hsteps with hnil | ⟨x, hx, hslash⟩
    · -- no letters stand for the empty path only
      rw [TemplateFits, hnil] at hr
      obtain ⟨piece, more, hpieces, hpiece, rfl⟩ := hr
      rw [String.toList_eq_nil_iff.mp ((Letter.standsFor_literally [] piece).mp hpiece)] at hpieces
      exact hempty (Path.text_eq_of_pieces hpieces)
    · exact h.relative x hx hslash

/-- To go on from the root by a path is to be the path as it is seen from
there. -/
theorem Glob.goes_pieces_iff {d : Disk} {root r p : Path} (hroot : root.text ≠ "")
    (hr : r.isAbsolute = false) :
    Glob.Goes d root r.pieces p ↔
      p.text ≠ "" ∧ p.course = (r.under root).course ∧ d.locate p = d.locate (r.under root) := by
  rw [Path.under, Path.course_join hroot hr, Disk.locate_join_bind hroot hr]
  exact ⟨fun h => ⟨h.text_ne, h.course, h.locate⟩, fun h => ⟨h.1, h.2.1, h.2.2⟩⟩

variable {d : Disk} (hproper : d.root.Proper) {root : Path} (hroot : root.text ≠ "")
include hproper hroot

/-- **The files of a template are those at the paths that it stands for.** What
a search finds is filtered by whether it is a file, and what a pattern stands
for below its root is what the template stands for. -/
theorem filesOfTemplate_below (h : RelativeTemplate template locale) :
    ∃ files, filesOfTemplate d template locale root = .ok files ∧
      (∀ p ∈ files, d.isFile p = true ∧ ∃ r, TemplateFits template locale r ∧
        Glob.Goes d root r.pieces p ∧ (".." ∉ r.pieces → p.IsClear)) ∧
      ∀ r, TemplateFits template locale r → d.isFile (r.under root) = true →
        ¬ r.DoubledBehindDot root → ∃ p ∈ files, Glob.Goes d root r.pieces p := by
  obtain ⟨files, hfiles⟩ := (exists_filesOfTemplate_iff h.placeholder d locale root).mpr h.readable
  refine ⟨files, hfiles, ?_⟩
  obtain ⟨pattern, hpattern, hpaths⟩ := bind_eq_ok_iff.mp hfiles
  obtain rfl := Except.ok.inj ((Letter.expandTemplate_eq h.placeholder h.relative root).symm.trans hpattern)
  cases hfound : Glob.find d
      (String.ofList (Letter.pattern (Letter.anchored root (Letter.ofTemplate template locale)))) with
  | error fault =>
    rw [hfound] at hpaths
    exact absurd hpaths throw_ne_ok
  | ok found =>
    rw [hfound] at hpaths
    obtain rfl := Except.ok.inj hpaths
    -- a template that ends with a slash searches for directories, of which
    -- none is kept
    by_cases hlast : (Letter.steps (Letter.ofTemplate template locale)).getLast? = some []
    · -- what is found is no file, and what ends with no step leads to none
      constructor
      · intro p hp
        obtain ⟨hfoundp, hfile⟩ := List.mem_filter.mp hp
        exact absurd hfile (Disk.not_isFile_of_isDirectory (Letter.isDirectory_of_find hfound hlast p hfoundp))
      · intro r hr hfile
        exact absurd hfile
          (Disk.not_isFile_under hroot (hr.isAbsolute h) (Letter.getLast?_of_standFor hr hlast))
    -- any other one is searched for as it is written
    · obtain ⟨segments, hread, rfl⟩ := Letter.find_anchored hfound hroot hlast
      constructor
      · intro p hp
        obtain ⟨hfoundp, hfile⟩ := List.mem_filter.mp hp
        obtain ⟨way, hway, hslash, hgoes, hclear⟩ :=
          Letter.exists_way_of_mem_search h.separable hproper hroot hread hfoundp hfile
        obtain ⟨r, rfl⟩ : ∃ r : Path, r.pieces = way :=
          Path.exists_pieces (Letter.ne_nil_of_standFor (List.splitOnP_ne_nil _ _) hway) hslash
        exact ⟨hfile, r, hway, hgoes, hclear⟩
      · intro r hr hfile hdot
        have habsolute := hr.isAbsolute h
        obtain ⟨m, hm, hmfile⟩ := Disk.isFile_iff.mp hfile
        rw [Path.under, Disk.locate_join_bind hroot habsolute] at hm
        obtain ⟨q, hq, hgoes⟩ := Letter.exists_mem_search_of_standFor h.separable hproper hroot hread hr
          Path.slash_notMem_of_mem_pieces hm fun hhere => mt (Path.doubledBehindDot_of_here hroot hhere) hdot
        refine ⟨q, List.mem_filter.mpr ⟨hq, Disk.isFile_iff.mpr ⟨m, ?_, hmfile⟩⟩, hgoes⟩
        exact hgoes.locate.trans hm

end

/-! ## The files of a locale

The lists of all templates are put together and repetitions are taken out by
comparing paths by their components. Two paths to one file below the root have
the same components, because neither a dot nor a step up is left in them
(`exists_names_of_within`), and so each file is given once, by however many
templates it is found. -/

/-- A file that is given inside of the root has its names for steps, and they
are those of its place. -/
theorem exists_names_of_within {d : Disk} {root p : Path} {way : List String}
    (hgoes : Glob.Goes d root way p) (hclear : ".." ∉ way → p.IsClear) (hfile : d.isFile p = true)
    (hwithin : p.IsWithin root) :
    ∃ names l m, p.steps = root.course ++ names.map .down ∧ d.locate root = .ok l ∧
      d.locate p = .ok m ∧ m.names = l.names ++ names := by
  obtain ⟨names, hnames⟩ := hwithin
  obtain ⟨m, hm, hmfile⟩ := Disk.isFile_iff.mp hfile
  have hsteps : Path.stepsOf way = names.map .down := by
    rw [hgoes.course] at hnames
    exact List.append_cancel_left hnames
  obtain ⟨l, hl, hfollow⟩ := bind_eq_ok_iff.mp (hgoes.locate.symm.trans hm)
  have hhere : ¬ p.IsHere := by
    intro hhere
    rw [FileTree.isFile, (Disk.isOpen_of_isHere hhere hm).isDirectory] at hmfile
    exact absurd hmfile (by simp)
  refine ⟨names, l, m, ?_, hl, hm, Disk.Location.names_of_follow hfollow hsteps⟩
  rw [(hclear (Path.up_notMem_of_stepsOf hsteps)).steps_eq hgoes.text_ne hhere, hnames]

/-- The templates stand for a path. -/
def SomeTemplateFits (templates : List String) (locale : String) (r : Path) : Prop :=
  ∃ template ∈ templates, TemplateFits template locale r

instance (templates : List String) (locale : String) (r : Path) :
    Decidable (SomeTemplateFits templates locale r) :=
  inferInstanceAs (Decidable (∃ template ∈ templates, _))

/-- What is given is a file at the end of a way that the templates stand for. -/
def Given (d : Disk) (templates : List String) (locale : String) (root p : Path) : Prop :=
  ∃ r, SomeTemplateFits templates locale r ∧ r.isAbsolute = false ∧ Glob.Goes d root r.pieces p ∧
    (".." ∉ r.pieces → p.IsClear) ∧ d.isFile p = true

section

variable {d : Disk} {templates : List String} {locale : String} {root p q r : Path}

/-- Files at one place inside of the root are given under the same path. -/
theorem Given.same_of_within (hp : Given d templates locale root p) (hq : Given d templates locale root q)
    (hpwithin : p.IsWithin root) (hqwithin : q.IsWithin root) (hplace : d.locate p = d.locate q) :
    p.same q = true := by
  obtain ⟨r₁, -, -, hgoes₁, hclear₁, hfile₁⟩ := hp
  obtain ⟨r₂, -, -, hgoes₂, hclear₂, hfile₂⟩ := hq
  obtain ⟨names₁, l₁, m₁, hsteps₁, hl₁, hm₁, hplace₁⟩ :=
    exists_names_of_within hgoes₁ hclear₁ hfile₁ hpwithin
  obtain ⟨names₂, l₂, m₂, hsteps₂, hl₂, hm₂, hplace₂⟩ :=
    exists_names_of_within hgoes₂ hclear₂ hfile₂ hqwithin
  obtain rfl := Except.ok.inj (hl₁.symm.trans hl₂)
  obtain rfl := Except.ok.inj (hm₁.symm.trans (hplace.trans hm₂))
  have hnames : names₁ = names₂ := List.append_cancel_left (hplace₁.symm.trans hplace₂)
  rw [Path.same_iff, hsteps₁, hsteps₂, hnames]

/-- What is given on the course of a file is at its place. -/
theorem Given.locate_eq (hp : Given d templates locale root p) (hroot : root.text ≠ "")
    (hr : r.isAbsolute = false) (hcourse : p.course = root.course ++ Path.stepsOf r.pieces)
    (hfile : d.isFile (r.under root) = true) : d.locate p = d.locate (r.under root) := by
  obtain ⟨r', -, -, hgoes, -, hpfile⟩ := hp
  obtain ⟨m, hm, -⟩ := Disk.isFile_iff.mp hfile
  obtain ⟨m', hm', -⟩ := Disk.isFile_iff.mp hpfile
  have hroute : d.locate (r.under root) = (d.locate root).bind (·.follow r.pieces) :=
    Disk.locate_join_bind hroot hr
  obtain ⟨l, hl, hfollow⟩ := bind_eq_ok_iff.mp (hroute.symm.trans hm)
  obtain ⟨l', hl', hfollow'⟩ := bind_eq_ok_iff.mp (hgoes.locate.symm.trans hm')
  obtain rfl := Except.ok.inj (hl.symm.trans hl')
  -- both ways take the same steps, and they start at one place
  have hsteps : Path.stepsOf r'.pieces = Path.stepsOf r.pieces :=
    List.append_cancel_left (hgoes.course.symm.trans hcourse)
  have hsame := Disk.Location.follow_steps hfollow'
  rw [Path.filter_eq_of_stepsOf hsteps, Disk.Location.follow_steps hfollow] at hsame
  rw [hm, hm', Except.ok.inj hsame]

end

/-- **The paths are those of the files below the root that the templates stand
for.** All that is given takes the course of a path that they stand for, seen
from the root, and leads to its place. Each file inside of the root is given
once, if they stand for its path, whatever else they stand for. -/
structure FilesBelow (d : Disk) (templates : List String) (locale : String) (root : Path)
    (files : List Path) : Prop where
  apart : Path.Apart files
  given : ∀ p ∈ files, ∃ r, SomeTemplateFits templates locale r ∧ d.isFile p = true ∧
    p.course = (r.under root).course ∧ d.locate p = d.locate (r.under root)
  once : ∀ r, SomeTemplateFits templates locale r → ".." ∉ r.pieces → d.isFile (r.under root) = true →
    ¬ r.DoubledBehindDot root →
    ∃! p, p ∈ files ∧ p.IsWithin root ∧ d.locate p = d.locate (r.under root)

/-- The files below a root that is a path, for templates that can be searched
for. -/
theorem exists_filesBelow {d : Disk} (hproper : d.root.Proper) {root : Path} (hroot : root.text ≠ "")
    {templates : List String} {locale : String}
    (htemplates : ∀ template ∈ templates, RelativeTemplate template locale) :
    ∃ files, localeFiles d templates locale root = .ok files ∧
      FilesBelow d templates locale root files := by
  have hbelow := fun template hmem => filesOfTemplate_below hproper hroot (htemplates template hmem)
  obtain ⟨files, hfiles⟩ : ∃ files, localeFiles d templates locale root = .ok files := by
    refine exists_localeFiles_iff.mpr fun template hmem => ?_
    obtain ⟨found, hfound, -⟩ := hbelow template hmem
    exact ⟨found, hfound⟩
  refine ⟨files, hfiles, ?_⟩
  obtain ⟨found, hfound, hdistinct⟩ := bind_eq_ok_iff.mp hfiles
  obtain rfl := Except.ok.inj hdistinct
  -- each path comes from some template
  have hgiven : ∀ p ∈ Path.distinct found.flatten, Given d templates locale root p := by
    intro p hp
    obtain ⟨template, hmem, paths, hpaths, hp⟩ :=
      (mem_flatten_iff_of_mapM hfound).mp (Path.mem_of_mem_distinct hp)
    obtain ⟨paths', hpaths', hsound, -⟩ := hbelow template hmem
    obtain rfl := Except.ok.inj (hpaths.symm.trans hpaths')
    obtain ⟨hfile, r, hr, hgoes, hclear⟩ := hsound p hp
    exact ⟨r, ⟨template, hmem, hr⟩, hr.isAbsolute (htemplates template hmem), hgoes, hclear, hfile⟩
  refine ⟨Path.apart_distinct _, fun p hp => ?_, fun r hr hup hfile hdot => ?_⟩
  · obtain ⟨r, hr, hrelative, hgoes, -, hfile⟩ := hgiven p hp
    obtain ⟨-, hcourse, hlocate⟩ := (Glob.goes_pieces_iff hroot hrelative).mp hgoes
    exact ⟨r, hr, hfile, hcourse, hlocate⟩
  · obtain ⟨template, hmem, hfits⟩ := hr
    obtain ⟨paths, hpaths, -, hcomplete⟩ := hbelow template hmem
    obtain ⟨p₀, hp₀, hgoes⟩ := hcomplete r hfits hfile hdot
    -- some path that is the same as the one found by the template is given
    obtain ⟨p, hp, hsame⟩ := Path.exists_same_mem_distinct
      ((mem_flatten_iff_of_mapM hfound).mpr ⟨template, hmem, paths, hpaths, hp₀⟩)
    have hcourse : p.course = root.course ++ Path.stepsOf r.pieces := by
      rw [← hgoes.course, Path.course, Path.course, Path.same_iff.mp hsame]
    have hrelative := hfits.isAbsolute (htemplates template hmem)
    have hplace := (hgiven p hp).locate_eq hroot hrelative hcourse hfile
    obtain ⟨names, hnames⟩ := Path.exists_names_of_stepsOf hup
    have hwithin : p.IsWithin root := ⟨names, by rw [hcourse, hnames]⟩
    refine ⟨p, ⟨hp, hwithin, hplace⟩, ?_⟩
    rintro q ⟨hq, hqwithin, hqplace⟩
    exact (Path.apart_distinct found.flatten).eq_of_same hq hp
      ((hgiven q hq).same_of_within (hgiven p hp) hqwithin hwithin (hqplace.trans hplace.symm))

/-! ## Roots

The claim is about the directory of a configuration, which may be the empty
path: that is the directory of a path with a single piece. What is put behind
it begins with a slash, and so the search is at the root of the disk. `asRoot`
says which root is meant, and the general statement is about that one. -/

/-- The directory that a path is taken for as a root: what is put behind the
empty text starts at the root of the disk. -/
def Path.asRoot (root : Path) : Path := if root.text = "" then ⟨"/"⟩ else root

/-- The empty path and the root of the disk give the same files. -/
theorem localeFiles_asRoot (d : Disk) (templates : List String) (locale : String) (root : Path) :
    localeFiles d templates locale root.asRoot = localeFiles d templates locale root := by
  have hanchor : expandTemplate.withoutSlashes (Glob.escape "/")
      = expandTemplate.withoutSlashes (Glob.escape "") := by decide +kernel
  rw [Path.asRoot]
  split
  next hempty => simp only [localeFiles, filesOfTemplate, expandTemplate, hanchor, hempty]
  next => rfl

/-- **The files of a locale are those below the root that the templates stand
for**, where the empty path is taken for the root of the disk. An empty root is
written in front of a slash as any other root is, and what comes out of that is
an absolute path. -/
theorem localeFiles_below_root {d : Disk} (hproper : d.root.Proper) (root : Path)
    {templates : List String} {locale : String}
    (htemplates : ∀ template ∈ templates, RelativeTemplate template locale) :
    ∃ files, localeFiles d templates locale root = .ok files ∧
      FilesBelow d templates locale root.asRoot files := by
  have htext : root.asRoot.text ≠ "" := by
    rw [Path.asRoot]
    split
    next => decide
    next hempty => exact hempty
  rw [← localeFiles_asRoot]
  exact exists_filesBelow hproper htext htemplates

/-- A project with a file of a locale whose name is a pattern, and one of a
locale that it would fit. -/
def starredDisk : Disk where
  root := .directory [("proj", .directory [("locales", .directory
    [("a*.json", .file (.ofText "{}" 1)), ("ab.json", .file (.ofText "{}" 1))])])]

/-- Its names are those of entries, and no directory has one twice. -/
theorem proper_starredDisk : starredDisk.root.Proper :=
  .cons (by decide) (by decide) (.cons (by decide) (by decide)
    (.cons (by decide) (by decide) (.file _) (.cons (by decide) (by decide) (.file _) .empty)) .empty) .empty

/-- Both templates stand for the file of the locale, and it is given once. -/
theorem localeFiles_below_root_of_stars :
    ∃ files, localeFiles starredDisk ["locales/{locale}.json", "**/{locale}.json"] "a*" ⟨"proj//"⟩
        = .ok files ∧
      FilesBelow starredDisk ["locales/{locale}.json", "**/{locale}.json"] "a*" ⟨"proj//"⟩ files ∧
      ∃! p, p ∈ files ∧ p.IsWithin ⟨"proj//"⟩ ∧
        starredDisk.locate p = starredDisk.locate ⟨"proj//locales/a*.json"⟩ := by
  have htemplates : ∀ template ∈ ["locales/{locale}.json", "**/{locale}.json"],
      RelativeTemplate template "a*" := by
    simp only [List.mem_cons, List.not_mem_nil, or_false, forall_eq_or_imp, forall_eq]
    exact ⟨⟨by decide, by decide, by decide +kernel, by decide +kernel⟩,
      ⟨by decide, by decide, by decide +kernel, by decide +kernel⟩⟩
  obtain ⟨files, hfiles, hbelow⟩ := localeFiles_below_root proper_starredDisk ⟨"proj//"⟩ htemplates
  exact ⟨files, hfiles, hbelow, hbelow.once ⟨"locales/a*.json"⟩ (by decide +kernel) (by decide +kernel)
    (by decide +kernel) (by decide +kernel)⟩

/-- A project whose configuration is right where the program runs. -/
def homeDisk : Disk where
  root := .directory [("home", .directory [(".i18nlensrc.json", .file (.ofText "{}" 1)),
    ("locales", .directory [("en.json", .file (.ofText "{}" 1))]), ("sub", .directory [])])]
  working := ["home"]

/-- **The files of a project are lost** if its configuration is found from
further down. The empty text is the root of the project then, and where it is
taken for the root of the disk, nothing is below it. -/
theorem files_below_empty_root_lost :
    (loadConfig homeDisk ⟨"sub"⟩).toOption.map (·.root ⟨"sub"⟩) = some ⟨""⟩ ∧
      RelativeTemplate "locales/{locale}.json" "en" ∧
      ∃ files, localeFiles homeDisk ["locales/{locale}.json"] "en" ⟨""⟩ = .ok files ∧
        ¬ FilesBelow homeDisk ["locales/{locale}.json"] "en" ⟨""⟩ files := by
  refine ⟨by decide +kernel, ⟨by decide, by decide, by decide +kernel, by decide +kernel⟩,
    [], by decide +kernel, fun hbelow => ?_⟩
  obtain ⟨p, ⟨hp, -⟩, -⟩ := hbelow.once ⟨"locales/en.json"⟩ (by decide +kernel) (by decide)
    (by decide +kernel) (by decide +kernel)
  exact absurd hp List.not_mem_nil

end LocaleKeys
