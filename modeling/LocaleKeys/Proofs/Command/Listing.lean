/-
Every source once.

A scan sorts what it has found and leaves out what is the same as the path in
front. So its paths increase, and each is listed once
(`Scan.increasing_arranged`). Whether each file is listed once is another
question, for one and the same file may have paths that are not the same. All
paths of a scan go on from the places where it began, by the names of what is
below. So two of them that lead to the same file are the same, if those places
that lie in each other are written so as to go on from each other
(`Disk.SpelledAlike`). It is not enough that they are the same places: `a.ts`
and `./a.ts` are two paths, and what is named by both is listed twice
(`Scan.sources_listed_twice`).

Nothing is lost, on the other hand (`Scan.Lists.complete`).
-/
import LocaleKeys.Proofs.Command.Analysing
import LocaleKeys.Proofs.Command.Directories
import LocaleKeys.Proofs.Config.Accepted
import LocaleKeys.Proofs.Files.Descending
import LocaleKeys.Proofs.Files.Ordering

set_option autoImplicit false

namespace LocaleKeys

/-! ## Files and their places

A path and a place are different things: paths are what a scan lists and
compares, and places are where files are. The place is told by the names that
lead to it from the root. `SpelledAlike` relates the two for starting points:
where the place of one lies in that of the other, the path of the second must
go on from the path of the first by the names in between.

Below a starting point there is nothing to choose. Names lead down, and both
path and place go on by them (`FileBelow.place?_eq`). -/

namespace Disk

/-- The place that a path leads to: the names that lead there from the root. -/
def place? (d : Disk) (p : Path) : Option (List String) := (d.locate p).toOption.map (·.names)

/-- A file is where the names lead from the path, or at the path itself if
there are none. -/
def FileBelow (d : Disk) (p : Path) (names : List String) : Prop :=
  ∃ data, (d.find? p).bind (·.at? names) = some (.file data)

/-- If the place of `q` lies in that of `p`, or is the same, then `q` is
written so as to go on from `p`. -/
def SpelledAlike (d : Disk) (p q : Path) : Prop :=
  ∀ place ∈ d.place? p, ∀ place' ∈ d.place? q, place <+: place' →
    q.steps = p.steps ++ (place'.drop place.length).map .down

instance (d : Disk) (p q : Path) : Decidable (d.SpelledAlike p q) :=
  inferInstanceAs (Decidable (∀ place ∈ d.place? p, ∀ place' ∈ d.place? q, place <+: place' →
    q.steps = p.steps ++ (place'.drop place.length).map .down))

variable {d : Disk} {p : Path} {names : List String}

/-- **Below a path** there is what its names lead to. Each name is joined to a
path that leads somewhere, and so one step is taken for each of them. -/
theorem locate_foldl_join {l : Location} (hlocate : d.locate p = .ok l)
    (hnames : ∀ name ∈ names, Path.IsEntryName name) {t : FileTree} (hat : l.tree.at? names = some t) :
    ∃ m, d.locate (names.foldl Path.join p) = .ok m ∧ m.names = l.names ++ names := by
  induction names generalizing p l with
  | nil => exact ⟨l, hlocate, (List.append_nil l.names).symm⟩
  | cons name names ih =>
    obtain ⟨hname, hnames⟩ := List.forall_mem_cons.mp hnames
    obtain ⟨below, hchild, hrest⟩ := Option.bind_eq_some_iff.mp hat
    have hjoined : d.locate (p.join name) = .ok ⟨below, (name, l.tree) :: l.above⟩ := by
      rw [locate_join hlocate hname.isAbsolute, Path.pieces_of_notMem hname.2, Location.follow_singleton,
        Location.step_name (FileTree.isOpen_of_child? hchild) hname.1, hchild]
    obtain ⟨m, hm, hplace⟩ := ih hjoined hnames hrest
    refine ⟨m, hm, hplace.trans ?_⟩
    simp [Location.names]

/-- What is below a path is found under a path that goes on from it, and at a
place that does. -/
theorem FileBelow.place?_eq (h : d.FileBelow p names) (hproper : d.root.Proper) :
    p.text ≠ "" ∧ (∀ name ∈ names, Path.IsEntryName name) ∧
      ∃ place, d.place? p = some place ∧ d.place? (names.foldl Path.join p) = some (place ++ names) := by
  obtain ⟨data, hdata⟩ := h
  obtain ⟨t, ht, hat⟩ := Option.bind_eq_some_iff.mp hdata
  obtain ⟨l, hlocate, rfl⟩ := find?_eq_some_iff.mp ht
  have hnames := (proper_of_find? hproper ht).isEntryName_of_at? hat
  obtain ⟨m, hm, hplace⟩ := locate_foldl_join hlocate hnames hat
  refine ⟨text_ne_of_locate hlocate, hnames, l.names, ?_, ?_⟩
  · rw [place?, hlocate]
    rfl
  · rw [place?, hm, ← hplace]
    rfl

/-- **One file, one path**, where the places to start from are written alike.
Whichever of the two places is the upper one, its path goes on to the lower one
by the names in between, and so both paths to the file take the same steps. -/
theorem same_of_spelledAlike (hproper : d.root.Proper) {q : Path} {more : List String}
    (hp : d.FileBelow p names) (hq : d.FileBelow q more) (hpq : d.SpelledAlike p q)
    (hqp : d.SpelledAlike q p)
    (hplace : d.place? (names.foldl Path.join p) = d.place? (more.foldl Path.join q)) :
    (names.foldl Path.join p).same (more.foldl Path.join q) = true := by
  obtain ⟨hpne, hnames, place, hplacep, hplacen⟩ := hp.place?_eq hproper
  obtain ⟨hqne, hmore, place', hplaceq, hplacem⟩ := hq.place?_eq hproper
  rw [hplacen, hplacem] at hplace
  have happend : place ++ names = place' ++ more := Option.some.inj hplace
  -- in both cases the names in between make up the difference of the two paths
  rw [Path.same_iff, (Path.steps_foldl_join hpne hnames).1, (Path.steps_foldl_join hqne hmore).1]
  -- the file is in both places, so that one of them lies in the other
  rcases List.append_eq_append_iff.mp happend with ⟨between, rfl, rfl⟩ | ⟨between, rfl, rfl⟩
  · rw [hpq place hplacep _ hplaceq (List.prefix_append place between), List.drop_left, List.map_append,
      List.append_assoc]
  · rw [hqp place' hplaceq _ hplacep (List.prefix_append place' between), List.drop_left,
      List.map_append, List.append_assoc]

end Disk

namespace Scan

/-! ## Paths in order

Sorting puts paths that are the same next to each other, and one pass over the
sorted list leaves one of each. Sorted without such neighbours is strictly
increasing, since the order of paths is total up to being the same. -/

/-- Of paths in order, those that remain increase, if none is the same as the
one in front. -/
theorem increasing_withoutRepeatsAfter {last : Path} {paths : List Path}
    (h : (last :: paths).Pairwise fun p q => (p.compare q).isLE = true) :
    Path.Increasing (last :: withoutRepeatsAfter last paths) := by
  induction paths generalizing last with
  | nil => exact List.pairwise_singleton _ last
  | cons p paths ih =>
    obtain ⟨hlast, hp⟩ := List.pairwise_cons.mp h
    rw [withoutRepeatsAfter]
    by_cases hsame : last.same p = true
    · rw [if_pos hsame]
      obtain ⟨-, hpaths⟩ := List.pairwise_cons.mp hp
      exact ih (List.pairwise_cons.mpr ⟨fun q hq => hlast q (List.mem_cons_of_mem p hq), hpaths⟩)
    · rw [if_neg hsame]
      have hlt : last.compare p = .lt := by
        rcases Ordering.isLE_iff_eq_lt_or_eq_eq.mp (hlast p List.mem_cons_self) with hlt | heq
        · exact hlt
        · exact absurd (Path.compare_eq_iff.mp heq) hsame
      have hrest := ih hp
      refine List.pairwise_cons.mpr ⟨fun q hq => ?_, hrest⟩
      rcases List.mem_cons.mp hq with rfl | hq
      · exact hlt
      · exact Std.TransCmp.lt_trans hlt ((List.pairwise_cons.mp hrest).1 q hq)

/-- **The paths of a scan increase.** They are sorted first, and equal ones
then stand side by side, where repeats are dropped. -/
theorem increasing_arranged (s : Scan) : Path.Increasing s.arranged.files := by
  rw [arranged]
  dsimp only
  have hsorted := Path.pairwise_sorted s.files
  cases hfiles : Path.sorted s.files with
  | nil => exact List.Pairwise.nil
  | cons p paths =>
    rw [hfiles] at hsorted
    exact increasing_withoutRepeatsAfter hsorted

/-! ## Where a scan begins

By configuration a scan begins at the entries that are included: a plain entry
is a path that must exist, and a pattern stands for the directories it finds.
`Included` spells this out without the list that the program makes of it. -/

/-- The place is included: by its own path, or as one of the directories that a
pattern stands for. If nothing is said about what is included, the whole
directory is. -/
def Included (d : Disk) (base : Path) (includes : List String) (p : Path) : Prop :=
  (includes = [] ∧ p = base) ∨
    ∃ entry ∈ includes,
      (Glob.isPattern entry = false ∧ p = base.join entry ∧ d.has p = true) ∨
        (Glob.isPattern entry = true ∧ d.isDirectory p = true ∧
          ∃ found, Glob.find d (includePattern base entry) = .ok found ∧ p ∈ found)

/-- The places where a scan begins are those that are included. -/
theorem mem_places_iff {d : Disk} {base : Path} {includes : List String} {p : Path} :
    p ∈ places d base includes ↔ Included d base includes p := by
  have hentry : ∀ entry, p ∈ places.place d base entry ↔
      (Glob.isPattern entry = false ∧ p = base.join entry ∧ d.has p = true) ∨
        (Glob.isPattern entry = true ∧ d.isDirectory p = true ∧
          ∃ found, Glob.find d (includePattern base entry) = .ok found ∧ p ∈ found) := by
    intro entry
    by_cases hpattern : Glob.isPattern entry = true
    · rw [place_of_isPattern hpattern]
      cases hfound : Glob.find d (includePattern base entry) with
      | error fault => simp [hpattern]
      | ok found => simp [hpattern, and_comm]
    · rw [places.place, if_neg hpattern]
      by_cases hhas : d.has (base.join entry) = true
      · rw [if_pos hhas]
        simp only [List.mem_singleton]
        constructor
        · rintro rfl
          exact .inl ⟨by simpa using hpattern, rfl, hhas⟩
        · rintro (⟨-, rfl, -⟩ | ⟨hpattern', -⟩)
          · rfl
          · exact absurd hpattern' hpattern
      · rw [if_neg hhas]
        refine iff_of_false List.not_mem_nil ?_
        rintro (⟨-, rfl, hhas'⟩ | ⟨hpattern', -⟩)
        · exact hhas hhas'
        · exact hpattern hpattern'
  rw [places, Included]
  cases includes with
  | nil => simp
  | cons entry includes =>
    rw [if_neg (by simp), List.mem_flatMap]
    simp only [hentry, reduceCtorEq, false_and, false_or]

/-! ## What is found

What a scan takes from a starting point are the sources below it that are not
left out (`mem_files_atPlace_iff`). A path that is named may itself be a
source, and then nothing is left out; hence the two cases of `Named`. -/

/-- The names lead from the path to a source. -/
def SourceBelow (d : Disk) (p : Path) (names : List String) : Prop :=
  d.FileBelow p names ∧ isSource (names.foldl Path.join p) = true

/-- What names lead to from a tree is the tree itself, or something inside of
it. -/
theorem mem_cons_inside_iff {tree t : FileTree} (hproper : tree.Proper) {p q : Path} :
    (q, t) ∈ (p, tree) :: tree.inside p ↔
      ∃ names, tree.at? names = some t ∧ q = names.foldl Path.join p := by
  rw [List.mem_cons, hproper.mem_inside_iff]
  constructor
  · rintro (heq | ⟨name, more, hat, hq⟩)
    · obtain ⟨rfl, rfl⟩ := Prod.mk.inj heq
      exact ⟨[], rfl, rfl⟩
    · exact ⟨name :: more, hat, hq⟩
  · rintro ⟨names, hat, rfl⟩
    cases names with
    | nil => exact .inl (by rw [Option.some.inj hat]; rfl)
    | cons name more => exact .inr ⟨name, more, hat, rfl⟩

section

variable {d : Disk} (hproper : d.root.Proper) {p q : Path}
include hproper

/-- At a place all sources are found that are not left out. -/
theorem mem_files_atPlace_iff {e : Exclusions} :
    q ∈ (atPlace d e p).files ↔ ∃ names, SourceBelow d p names ∧
      ¬ e.excludes (names.foldl Path.join p) = true ∧ q = names.foldl Path.join p := by
  rw [atPlace]
  -- where there is nothing, nothing is below
  cases hfind : d.find? p with
  | none =>
    refine iff_of_false List.not_mem_nil ?_
    rintro ⟨names, ⟨⟨data, hdata⟩, -⟩, -⟩
    rw [hfind] at hdata
    exact absurd hdata (by simp)
  | some tree =>
    have hmem : ∀ t, (q, t) ∈ (p, tree) :: tree.inside p ↔
        ∃ names, tree.at? names = some t ∧ q = names.foldl Path.join p :=
      fun t => mem_cons_inside_iff (Disk.proper_of_find? hproper hfind)
    dsimp only
    rw [List.mem_map]
    constructor
    · rintro ⟨⟨q', t⟩, ht, rfl⟩
      obtain ⟨ht, hcounts⟩ := List.mem_filter.mp ht
      obtain ⟨names, hat, rfl⟩ := (hmem t).mp ht
      simp only [Bool.and_eq_true, Bool.not_eq_true'] at hcounts
      obtain ⟨⟨hfile, hsource⟩, hkept⟩ := hcounts
      obtain ⟨data, rfl⟩ := FileTree.exists_file hfile
      exact ⟨names, ⟨⟨data, by rw [hfind]; exact hat⟩, hsource⟩, by simp [hkept], rfl⟩
    · rintro ⟨names, ⟨⟨data, hdata⟩, hsource⟩, hkept, rfl⟩
      rw [hfind] at hdata
      refine ⟨(_, .file data), List.mem_filter.mpr ⟨(hmem _).mpr ⟨names, hdata, rfl⟩, ?_⟩, rfl⟩
      simpa [FileTree.isFile, FileTree.isDirectory, hsource] using hkept

omit hproper in
/-- What a scan of a directory finds, it finds at one of the places where it
looks. -/
theorem mem_atPlace_of_mem_ofDirectory {base : Path} {includes ignores : List String}
    {ignoreTests : Bool} (hq : q ∈ (ofDirectory d base includes ignores ignoreTests).files) :
    ∃ place ∈ places d base includes, q ∈ (atPlace d (.of base ignores ignoreTests) place).files := by
  have hfound := mem_of_mem_arranged hq
  rw [files_foldl_append, List.flatMap_map] at hfound
  exact List.mem_flatMap.mp (hfound : q ∈ [] ++ _)

omit hproper in
/-- What is found at one of these places, the scan finds. It may keep the path
in the way another place has written it. -/
theorem exists_mem_ofDirectory {base : Path} {includes ignores : List String} {ignoreTests : Bool}
    {place : Path} (hplace : place ∈ places d base includes)
    (hq : q ∈ (atPlace d (.of base ignores ignoreTests) place).files) :
    ∃ f ∈ (ofDirectory d base includes ignores ignoreTests).files, f.same q = true := by
  apply exists_mem_arranged
  rw [files_foldl_append, List.flatMap_map]
  exact List.mem_append_right _ (List.mem_flatMap.mpr ⟨place, hplace, hq⟩)

/-- What is named: a source itself, or in a directory one that is not left out
there. -/
def Named (d : Disk) (ignores : List String) (ignoreTests : Bool) (p : Path) (names : List String) :
    Prop :=
  SourceBelow d p names ∧ (names = [] ∨
    ¬ (Exclusions.of p ignores ignoreTests).excludes (names.foldl Path.join p) = true)

/-- What a named path finds is named. -/
theorem named_of_mem_ofPath {ignores : List String} {ignoreTests : Bool}
    (hq : q ∈ (ofPath d ignores ignoreTests p).files) :
    ∃ names, Named d ignores ignoreTests p names ∧ q = names.foldl Path.join p := by
  rw [ofPath] at hq
  split at hq
  · obtain ⟨place, hplace, hq⟩ := mem_atPlace_of_mem_ofDirectory hq
    obtain rfl := List.mem_singleton.mp (hplace : place ∈ [p])
    obtain ⟨names, hsource, hkept, rfl⟩ := (mem_files_atPlace_iff hproper).mp hq
    exact ⟨names, ⟨hsource, .inr hkept⟩, rfl⟩
  · split at hq
    · rename_i hnamed
      obtain rfl := List.mem_singleton.mp hq
      obtain ⟨hfile, hsource⟩ := (Bool.and_eq_true _ _).mp hnamed
      obtain ⟨t, ht, hfile⟩ := (Option.any_eq_true _ _).mp hfile
      obtain ⟨data, rfl⟩ := FileTree.exists_file hfile
      exact ⟨[], ⟨⟨⟨data, by rw [ht]; rfl⟩, hsource⟩, .inl rfl⟩, rfl⟩
    · exact absurd hq List.not_mem_nil

/-- What is named is found. -/
theorem exists_mem_ofPath {ignores : List String} {ignoreTests : Bool} {names : List String}
    (h : Named d ignores ignoreTests p names) :
    ∃ f ∈ (ofPath d ignores ignoreTests p).files, f.same (names.foldl Path.join p) = true := by
  obtain ⟨⟨⟨data, hdata⟩, hsource⟩, hkept⟩ := h
  obtain ⟨t, ht, hat⟩ := Option.bind_eq_some_iff.mp hdata
  rw [ofPath]
  cases t with
  | closed data' =>
    -- nothing is named in a directory that cannot be looked into
    cases names with
    | nil => exact absurd (Option.some.inj hat) (by simp)
    | cons name names => exact absurd hat (by simp [FileTree.at?, FileTree.child?])
  | directory entries data' =>
    have hdirectory : d.isDirectory p = true := by rw [Disk.isDirectory, ht]; rfl
    rw [if_pos hdirectory]
    have hhere : p ∈ places d p [] := List.mem_cons_self
    refine exists_mem_ofDirectory hhere
      ((mem_files_atPlace_iff hproper).mpr ⟨names, ⟨⟨data, hdata⟩, hsource⟩, ?_, rfl⟩)
    rcases hkept with rfl | hkept
    · exact absurd hat (by simp [FileTree.at?])
    · exact hkept
  | file data' =>
    have hnil : names = [] := by
      by_contra hne
      rw [FileTree.at?_file data' hne] at hat
      exact absurd hat (by simp)
    subst hnil
    have hfile : d.isFile p = true := by rw [Disk.isFile, ht]; rfl
    have hdirectory : ¬ d.isDirectory p = true := by rw [Disk.isDirectory, ht]; simp [FileTree.isDirectory]
    rw [if_neg hdirectory, hfile, if_pos (by simpa using hsource)]
    exact ⟨p, List.mem_cons_self, Path.same_refl p⟩

end

/-! ## Every source once

`Lists` collects what the claim says of a listing: it increases, all that is in
it was taken, nothing that is taken is lost, and under the condition on
starting points no place is listed twice. Both kinds of scans are instances, by
the same lemma. -/

/-- The paths list what is taken from where a scan begins, in order and each of
them once. -/
structure Lists (d : Disk) (files : List Path) (Begins : Path → Prop)
    (Takes : Path → List String → Prop) : Prop where
  increasing : Path.Increasing files
  /-- A path goes on from one where the scan begins. -/
  taken : ∀ f ∈ files, ∃ p names, Begins p ∧ Takes p names ∧ f = names.foldl Path.join p
  /-- Nothing is lost, up to how its path is written. -/
  complete : ∀ p names, Begins p → Takes p names →
    ∃ f ∈ files, f.same (names.foldl Path.join p) = true
  /-- Each file is listed once, if the paths where the scan begins are written
  alike. -/
  once : (∀ p q, Begins p → Begins q → d.SpelledAlike p q) → (files.map d.place?).Nodup

/-- A scan that has found what is taken, up to how it is written, lists it. -/
theorem lists_arranged {d : Disk} (hproper : d.root.Proper) {s : Scan} {Begins : Path → Prop}
    {Takes : Path → List String → Prop} (hbelow : ∀ p names, Takes p names → d.FileBelow p names)
    (htaken : ∀ f ∈ s.files, ∃ p names, Begins p ∧ Takes p names ∧ f = names.foldl Path.join p)
    (hcomplete : ∀ p names, Begins p → Takes p names →
      ∃ f ∈ s.files, f.same (names.foldl Path.join p) = true) :
    Lists d s.arranged.files Begins Takes where
  increasing := increasing_arranged s
  taken f hf := htaken f (mem_of_mem_arranged hf)
  complete p names hp hnames := by
    obtain ⟨f, hf, hsame⟩ := hcomplete p names hp hnames
    obtain ⟨f', hf', hsame'⟩ := exists_mem_arranged hf
    exact ⟨f', hf', Path.same_trans hsame' hsame⟩
  once hspelled := by
    have hapart := (increasing_arranged s).apart
    refine List.pairwise_map.mpr (hapart.imp_of_mem fun {f g} hf hg hne hplace => hne ?_)
    obtain ⟨p, names, hp, hnames, rfl⟩ := htaken f (mem_of_mem_arranged hf)
    obtain ⟨q, more, hq, hmore, rfl⟩ := htaken g (mem_of_mem_arranged hg)
    exact Disk.same_of_spelledAlike hproper (hbelow p names hnames) (hbelow q more hmore)
      (hspelled p q hp hq) (hspelled q p hq hp) hplace

/-- **Every source once.** The paths of a scan increase, so that none of them
is listed twice, and each file is listed once if the paths where the scan
begins are written alike. Nothing is lost: a scan of paths lists every source
that is named and, in a directory, every one that is not left out there; a scan
by configuration lists every source that is included and not left out. And the
totals are sums over what is listed. -/
theorem sources_listed_once {d : Disk} (hproper : d.root.Proper) (ignores : List String)
    (ignoreTests : Bool) :
    (∀ paths : List Path, Lists d (ofPaths d paths ignores ignoreTests).files (· ∈ paths)
        (Named d ignores ignoreTests)) ∧
      (∀ (base : Path) (includes : List String),
        Lists d (ofDirectory d base includes ignores ignoreTests).files (Included d base includes)
          fun p names => SourceBelow d p names ∧
            ¬ (Exclusions.of base ignores ignoreTests).excludes (names.foldl Path.join p) = true) ∧
      ∀ (project : Project) (files : List Path),
        let reports := files.map fun f => (project.outcome d f).report?
        Summary.of (project.outcomes d files) =
          { files := files.length
            resolved := (reports.map fun r => r.elim 0 (·.resolved.length)).sum
            missing := (reports.map fun r => r.elim 0 (·.missing.length)).sum
            failed := reports.countP (·.isNone) } := by
  refine ⟨fun paths => ?_, fun base includes => ?_, fun project files => ?_⟩
  · refine lists_arranged hproper (fun p names h => h.1.1) (fun f hf => ?_) fun p names hp hnames => ?_
    · rw [files_foldl_append, List.flatMap_map] at hf
      obtain ⟨p, hp, hf⟩ := List.mem_flatMap.mp (hf : f ∈ [] ++ _)
      obtain ⟨names, hnames, rfl⟩ := named_of_mem_ofPath hproper hf
      exact ⟨p, names, hp, hnames, rfl⟩
    · obtain ⟨f, hf, hsame⟩ := exists_mem_ofPath hproper hnames
      refine ⟨f, ?_, hsame⟩
      rw [files_foldl_append, List.flatMap_map]
      exact List.mem_append_right _ (List.mem_flatMap.mpr ⟨p, hp, hf⟩)
  · refine lists_arranged hproper (fun p names h => h.1.1) (fun f hf => ?_) fun p names hp hnames => ?_
    · rw [files_foldl_append, List.flatMap_map] at hf
      obtain ⟨p, hp, hf⟩ := List.mem_flatMap.mp (hf : f ∈ [] ++ _)
      obtain ⟨names, hsource, hkept, rfl⟩ := (mem_files_atPlace_iff hproper).mp hf
      exact ⟨p, names, mem_places_iff.mp hp, ⟨hsource, hkept⟩, rfl⟩
    · refine ⟨names.foldl Path.join p, ?_, Path.same_refl _⟩
      rw [files_foldl_append, List.flatMap_map]
      refine List.mem_append_right _ (List.mem_flatMap.mpr ⟨p, mem_places_iff.mpr hp, ?_⟩)
      exact (mem_files_atPlace_iff hproper).mpr ⟨names, hnames.1, hnames.2, rfl⟩
  · rw [Summary.of_eq, Project.outcomes]
    simp only [List.length_map, List.map_map, List.countP_map]
    rfl

/-- A directory is named twice, and so are a directory and a source inside of
it, with slashes and dots that are no steps. The source is listed once. -/
theorem sources_listed_once_of_overlap :
    let paths : List Path := [⟨"src"⟩, ⟨"src/gen/"⟩, ⟨"src/./gen//a.ts"⟩, ⟨"src/"⟩]
    let files := (ofPaths generatedDisk paths [] true).files
    (files.map generatedDisk.place?).Nodup ∧ ∃ f ∈ files, f.same ⟨"src/gen/a.ts"⟩ = true := by
  intro paths files
  have hspelled : ∀ p ∈ paths, ∀ q ∈ paths, generatedDisk.SpelledAlike p q := by decide +kernel
  obtain ⟨hpaths, -, -⟩ := sources_listed_once proper_generatedDisk [] true
  refine ⟨(hpaths paths).once fun p q hp hq => hspelled p hp q hq, ?_⟩
  have hsource : SourceBelow generatedDisk ⟨"src"⟩ ["gen", "a.ts"] := ⟨⟨_, rfl⟩, by decide +kernel⟩
  exact (hpaths paths).complete ⟨"src"⟩ ["gen", "a.ts"] List.mem_cons_self
    ⟨hsource, .inr (by decide +kernel)⟩

/-- **A source is listed twice**, if it is named in two ways that are not the
same path. And a source that a pattern for what is included stands for is not
listed, since such patterns are for directories. -/
theorem sources_listed_twice :
    (¬ ∀ (d : Disk) (paths : List Path) (ignores : List String) (ignoreTests : Bool), d.root.Proper →
      ((ofPaths d paths ignores ignoreTests).files.map d.place?).Nodup) ∧
    ¬ ∀ (d : Disk) (base : Path) (includes ignores : List String) (ignoreTests : Bool), d.root.Proper →
      ∀ entry ∈ includes, ∀ found, Glob.find d (includePattern base entry) = .ok found →
        ∀ p ∈ found, d.isFile p = true → isSource p = true →
          ¬ (Exclusions.of base ignores ignoreTests).excludes p = true →
          ∃ f ∈ (ofDirectory d base includes ignores ignoreTests).files, f.same p = true := by
  refine ⟨fun hall => ?_, fun hall => ?_⟩
  · let paths : List Path := [⟨"./src/gen/a.ts"⟩, ⟨"src/gen/a.ts"⟩]
    have hfound : ((paths.map (ofPath generatedDisk [] true)).foldl append {}).files = paths := by
      decide +kernel
    have hfiles : (ofPaths generatedDisk paths [] true).files = paths := by
      rw [ofPaths, arranged, hfound, Path.sorted, List.mergeSort_of_pairwise (by decide +kernel)]
      decide +kernel
    have honce := hall generatedDisk paths [] true proper_generatedDisk
    rw [hfiles] at honce
    exact absurd honce (by decide +kernel)
  · have hfound : Glob.find generatedDisk (includePattern ⟨"."⟩ "src/gen/*.ts") = .ok [⟨"src/gen/a.ts"⟩] :=
      toOption_eq_some_iff.mp (by decide +kernel)
    have hlisted := hall generatedDisk ⟨"."⟩ ["src/gen/*.ts"] [] true proper_generatedDisk _
      List.mem_cons_self _ hfound _ List.mem_cons_self (by decide +kernel) (by decide +kernel)
      (by decide +kernel)
    exact absurd hlisted (by decide +kernel)

end Scan

end LocaleKeys
