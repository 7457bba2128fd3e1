/-
In what order a search finds files.

Names are looked at in their order, and a directory before what is in it. So in
a tree whose directories are in order (`FileTree.Sorted`) everything inside of
a directory is in the order of the paths (`increasing_everything`), and a
search that only ever goes on from paths that part finds what it finds in
order.

There are two ways to go on from a path and from one that goes on from it, too.
Two stars stand for all directories on the way, and the step behind them may
stand for one of these directories and for another one inside of it. Then all
that the rest of the pattern finds from the first directory comes before all
that it finds from the second, wherever the second one is among it. And a step
that stands for a dot finds again what is next to the directory, before it
looks inside. A search where neither finds files is untangled (`Untangled`),
and its files rise (`rises_filesFrom`): a file comes behind all that are in
front of it, unless it is one of them.
-/
import LocaleKeys.Proofs.Files.Ordering
import LocaleKeys.Proofs.Glob.Anchoring

set_option autoImplicit false

namespace LocaleKeys

/-! ## Trees in order

Listing a directory gives its entries by name, which is a property of the tree
here (`Sorted`) and of the walk in the program. A directory comes before what
is in it, and everything in one entry before the next entry. In the order of
paths, which compares step by step, that is increasing: the first comparison is
of a path with one that goes on from it, the second is decided by the two
names. `GoesOn` abstracts from the path that the listing started with, since
for the directory that is a dot nothing is shown in front. -/

namespace Path

/-- Names lead on from the path by one step more than `base`. -/
def GoesOn (p : Path) (base : List Step) : Prop :=
  ∀ name, IsEntryName name → (p.join name).text ≠ "" ∧ (p.join name).steps = base ++ [.down name]

/-- Any path but the empty one leads on by its own steps. -/
theorem goesOn_of_text_ne {p : Path} (hp : p.text ≠ "") : p.GoesOn p.steps := fun _ hname =>
  ⟨text_join_ne hp hname.isAbsolute, steps_join_name hp hname⟩

/-- A name alone is one step. -/
theorem steps_name {name : String} (hname : IsEntryName name) : (Path.mk name).steps = [.down name] := by
  have hempty : name ≠ "" := by
    rintro rfl
    exact absurd hname (by decide)
  have hdot : name ≠ "." := by
    rintro rfl
    exact absurd hname (by decide)
  rw [steps_of_pieces hempty (pieces_of_notMem hname.2), firstStep, if_neg hempty, if_neg hdot, stepOf,
    if_neg (by simpa using hname.1.2)]
  rfl

theorem join_empty {name : String} : (Path.mk "").join name = ⟨name⟩ := by
  simp [join]

/-- The empty path leads on by no steps, since a name that is joined to it
stands alone. -/
theorem goesOn_empty : (Path.mk "").GoesOn [] := by
  intro name hname
  rw [join_empty, steps_name hname]
  refine ⟨?_, rfl⟩
  rintro rfl
  exact absurd hname (by decide)

end Path

namespace FileTree

/-- In every directory the names increase. -/
inductive Sorted : FileTree → Prop where
  | file (data : FileData) : Sorted (.file data)
  | closed (data : DirectoryData) : Sorted (.closed data)
  | directory {entries : List (String × FileTree)} {data : DirectoryData}
    (hnames : entries.Pairwise fun e e' => e.1 < e'.1) (hbelow : ∀ e ∈ entries, Sorted e.2) :
    Sorted (.directory entries data)

theorem Sorted.empty {data : DirectoryData} : (FileTree.directory [] data).Sorted :=
  .directory .nil (by simp)

theorem Sorted.cons {name : String} {t : FileTree} {entries : List (String × FileTree)}
    {data : DirectoryData} (hfirst : ∀ e ∈ entries, name < e.1) (ht : t.Sorted)
    (h : (FileTree.directory entries data).Sorted) :
    (FileTree.directory ((name, t) :: entries) data).Sorted := by
  cases h with
  | directory hnames hbelow =>
    exact .directory (List.pairwise_cons.mpr ⟨hfirst, hnames⟩) (List.forall_mem_cons.mpr ⟨ht, hbelow⟩)

/-- What is inside of a tree in order is in order. -/
theorem Sorted.at? {t below : FileTree} (h : t.Sorted) {names : List String}
    (hat : t.at? names = some below) : below.Sorted := by
  induction names generalizing t with
  | nil => exact Option.some.inj hat ▸ h
  | cons name names ih =>
    obtain ⟨t', hchild, hrest⟩ := Option.bind_eq_some_iff.mp hat
    refine ih ?_ hrest
    cases h with
    | file data => exact absurd hchild (by simp [FileTree.child?])
    | closed data => exact absurd hchild (by simp [FileTree.child?])
    | directory hnames hbelow =>
      obtain ⟨front, rest, hentries, -⟩ := List.lookup_eq_some_iff.mp hchild
      exact hbelow (name, t') (by rw [hentries]; simp)

/-- What is inside of a directory goes on by the name of an entry. -/
theorem Proper.steps_inside_of {t : FileTree} (h : t.Proper) {p : Path} {base : List Path.Step}
    (hp : p.GoesOn base) :
    ∀ e ∈ t.inside p, ∃ name ∈ t.entries.map Prod.fst, ∃ more,
      e.1.steps = base ++ .down name :: more := by
  intro e he
  obtain ⟨name, hname, more, hnames, hpath⟩ := h.exists_names p e he
  obtain ⟨hfirst, hmore⟩ := List.forall_mem_cons.mp hnames
  obtain ⟨htext, hsteps⟩ := hp name hfirst
  refine ⟨name, hname, more.map .down, ?_⟩
  rw [hpath, List.foldl_cons, (Path.steps_foldl_join htext hmore).1, hsteps, List.append_assoc]
  rfl

/-- **Everything inside of a directory is in order.** An entry stands in front
of what is inside of it, since its path is the shorter one, and that in front
of the next entry, since the names decide first. -/
theorem Proper.increasing_inside {t : FileTree} (h : t.Proper) (hsorted : t.Sorted) {p : Path}
    {base : List Path.Step} (hp : p.GoesOn base) : Path.Increasing ((t.inside p).map Prod.fst) := by
  induction h generalizing p base with
  | file data => exact List.Pairwise.nil
  | closed data => exact List.Pairwise.nil
  | @directory entries data hnodup hnames hbelow ih =>
    cases hsorted with
    | directory hincreasing hsorted =>
      rw [inside]
      -- the entries are listed from the first on, and each is followed by what
      -- is inside of it
      induction entries with
      | nil => exact List.Pairwise.nil
      | cons e entries ih' =>
        obtain ⟨name, t⟩ := e
        obtain ⟨hname, hnames⟩ := List.forall_mem_cons.mp hnames
        obtain ⟨ht, hbelow⟩ := List.forall_mem_cons.mp hbelow
        obtain ⟨ih, ihs⟩ := List.forall_mem_cons.mp ih
        obtain ⟨htsorted, hsorted⟩ := List.forall_mem_cons.mp hsorted
        obtain ⟨hfirst, hincreasing⟩ := List.pairwise_cons.mp hincreasing
        have hnodup := (List.nodup_cons.mp hnodup).2
        obtain ⟨htext, hsteps⟩ := hp name hname
        have hjoin := Path.goesOn_of_text_ne htext
        rw [insideAll, List.map_append, Path.Increasing, List.pairwise_append]
        refine ⟨?_, ih' hnodup hnames hbelow ihs hincreasing hsorted, ?_⟩
        · rw [List.map_cons, List.pairwise_cons]
          refine ⟨fun q hq => ?_, ih htsorted hjoin⟩
          -- what is inside of the entry goes on from the entry itself
          obtain ⟨e, he, rfl⟩ := List.mem_map.mp hq
          obtain ⟨name', -, more, hmore⟩ := ht.steps_inside_of hjoin e he
          rw [Path.compare, hmore]
          exact Path.compareSteps_append_self _ (by simp)
        · intro q hq q' hq'
          obtain ⟨e, he, rfl⟩ := List.mem_map.mp hq
          obtain ⟨e', he', rfl⟩ := List.mem_map.mp hq'
          have hsteps' : ∃ more, e.1.steps = base ++ .down name :: more := by
            rcases List.mem_cons.mp he with rfl | he
            · exact ⟨[], hsteps⟩
            · obtain ⟨name', -, more, hmore⟩ := ht.steps_inside_of hjoin e he
              rw [hsteps, List.append_assoc] at hmore
              exact ⟨_, hmore⟩
          obtain ⟨more, hmore⟩ := hsteps'
          obtain ⟨name', hname', more', hmore'⟩ :=
            (@Proper.directory _ data hnodup hnames hbelow).steps_inside_of hp e' he'
          obtain ⟨entry, hentry, rfl⟩ := List.mem_map.mp hname'
          rw [Path.compare, hmore, hmore']
          exact Path.compareSteps_of_lt (Path.Step.compare_down_iff.mpr (hfirst entry hentry)) base more more'

end FileTree

theorem Disk.sorted_of_find? {d : Disk} (hsorted : d.root.Sorted) {p : Path} {t : FileTree}
    (h : d.find? p = some t) : t.Sorted := by
  obtain ⟨names, hat⟩ := exists_at?_of_find? h
  exact hsorted.at? hat

namespace Glob

/-! ## Names that a search goes on by

The steps of a path that was gone on from by names: those of the path, without
the dot that is not shown, and one for each name. So paths from one directory
compare as their names do. -/

section

variable {p : Path} {names more : List String}

/-- The steps that names lead on from. A dot is not shown. -/
def trunk (p : Path) : List Path.Step := if p.IsHere then [] else p.steps

/-- Names add one step each. -/
theorem steps_foldl_below (hp : p.text ≠ "") (hne : names ≠ [])
    (hnames : ∀ n ∈ names, Path.IsEntryName n) :
    (names.foldl below p).steps = trunk p ++ names.map .down := by
  obtain ⟨name, rest, rfl⟩ := List.exists_cons_of_ne_nil hne
  obtain ⟨hname, hrest⟩ := List.forall_mem_cons.mp hnames
  have htext := text_name_ne hp hname
  have hfirst : (below p name).steps = trunk p ++ [.down name] := by
    rw [trunk]
    by_cases hhere : p.IsHere
    · rw [if_pos hhere, below_of_isHere hhere, Path.steps_name hname]
      rfl
    · rw [if_neg hhere, below_of_not_isHere hhere, Path.steps_join_name hp hname]
  rw [List.foldl_cons, foldl_below_eq hrest htext (not_isHere_name hp hname),
    (Path.steps_foldl_join htext hrest).1, hfirst, List.append_assoc]
  rfl

/-- One name adds one step. -/
theorem steps_below (hp : p.text ≠ "") {name : String} (hname : Path.IsEntryName name) :
    (below p name).steps = trunk p ++ [.down name] := by
  show ([name].foldl below p).steps = trunk p ++ [name].map .down
  exact steps_foldl_below hp (by simp) (by simpa using hname)

/-- One way of names goes on from another if its path does. -/
theorem prefix_of_leads (hp : p.text ≠ "") (hne : names ≠ [])
    (hnames : ∀ n ∈ names, Path.IsEntryName n) (hne' : more ≠ []) (hmore : ∀ n ∈ more, Path.IsEntryName n)
    (h : (names.foldl below p).leads (more.foldl below p) = true) : names <+: more := by
  rw [Path.leads_iff, steps_foldl_below hp hne hnames, steps_foldl_below hp hne' hmore,
    List.prefix_append_right_inj] at h
  have hinjective : Function.Injective Path.Step.down := fun _ _ heq => Path.Step.down.inj heq
  exact (List.prefix_map_iff_of_injective hinjective).mp h

end

/-! ## Everything inside of a directory

What two stars are answered by, as a set and as an increasing list. Both are
had from what is known of trees, with the two ways in which paths are shown. -/

section

variable {d : Disk} (hproper : d.root.Proper) {p q : Path} (hp : p.text ≠ "")
include hproper hp

/-- Everything inside of a directory is what names lead to. -/
theorem mem_everything_iff_find? {t : FileTree} :
    (q, t) ∈ everything d p ↔ ∃ names, names ≠ [] ∧ (∀ n ∈ names, Path.IsEntryName n) ∧
      q = names.foldl below p ∧ d.find? q = some t := by
  constructor
  · intro h
    obtain ⟨front, name, hnames, hq, hfind⟩ := exists_names_of_mem_everything hproper hp h
    exact ⟨front ++ [name], by simp, hnames, hq, hfind⟩
  · rintro ⟨names, hne, hnames, rfl, hfind⟩
    obtain ⟨m, hm, rfl⟩ := Disk.find?_eq_some_iff.mp hfind
    rw [(goes_names hnames hp).locate] at hm
    obtain ⟨l, hl, hfollow⟩ := bind_eq_ok_iff.mp hm
    obtain ⟨t, ht⟩ := exists_mem_everything hproper hp hl hne hnames hfollow
    obtain ⟨-, -, -, -, hfind'⟩ := exists_names_of_mem_everything hproper hp ht
    rwa [← Option.some.inj (hfind.symm.trans hfind')] at ht

/-- It is listed in the order of the paths. -/
theorem increasing_everything (hsorted : d.root.Sorted) :
    Path.Increasing ((everything d p).map Prod.fst) := by
  rw [everything]
  cases hfind : d.find? p with
  | none => exact List.Pairwise.nil
  | some tree =>
    have htree := Disk.proper_of_find? hproper hfind
    have htsorted := Disk.sorted_of_find? hsorted hfind
    show Path.Increasing ((tree.inside _).map Prod.fst)
    by_cases hhere : p.IsHere
    · rw [if_pos (Path.same_dot_iff.mpr hhere)]
      exact htree.increasing_inside htsorted Path.goesOn_empty
    · rw [if_neg (mt Path.same_dot_iff.mp hhere)]
      exact htree.increasing_inside htsorted (Path.goesOn_of_text_ne hp)

end

/-! ## What is found goes on

Whatever the rest of a pattern finds from a path begins with the steps of this
path. Two paths that part therefore keep apart what is found from them, in
their own order. This fails for a dot, whose step is not kept, so `Onward`
carries that no dot is among the paths; behind the first name there is none any
more. -/

/-- `q` goes on from `p` and is no dot. -/
structure Onward (p q : Path) : Prop where
  text_ne : q.text ≠ ""
  not_isHere : ¬ q.IsHere
  steps : p.steps <+: q.steps

section

variable {p q r : Path}

theorem Onward.trans (h : Onward p q) (h' : Onward q r) : Onward p r :=
  ⟨h'.text_ne, h'.not_isHere, h.steps.trans h'.steps⟩

theorem Onward.self (h : Onward p q) : Onward q q := ⟨h.text_ne, h.not_isHere, List.prefix_rfl⟩

/-- Behind a name a path is no dot. -/
theorem onward_name (hp : p.text ≠ "") {name : String} (hname : Path.IsEntryName name) :
    Onward (below p name) (below p name) :=
  ⟨text_name_ne hp hname, not_isHere_name hp hname, List.prefix_rfl⟩

/-- Joining any piece goes on. -/
theorem Onward.join (h : Onward p p) {piece : String} (hslash : '/' ∉ piece.toList) :
    Onward p (p.join piece) where
  text_ne := Path.text_join_ne h.text_ne (Path.isAbsolute_of_notMem hslash)
  not_isHere := fun hhere =>
    h.not_isHere (Path.isHere_of_join h.text_ne (Path.isAbsolute_of_notMem hslash) hhere).1
  steps := by
    rw [Path.steps_join h.text_ne (Path.isAbsolute_of_notMem hslash)]
    exact List.prefix_append _ _

/-- So does going below, which joins where there is no dot. -/
theorem Onward.below (h : Onward p p) {piece : String} (hslash : '/' ∉ piece.toList) :
    Onward p (below p piece) := by
  rw [below_of_not_isHere h.not_isHere]
  exact h.join hslash

theorem Onward.foldl_below (h : Onward p p) {names : List String}
    (hnames : ∀ n ∈ names, Path.IsEntryName n) : Onward p (names.foldl Glob.below p) := by
  induction names generalizing p with
  | nil => exact h
  | cons name names ih =>
    obtain ⟨hname, hnames⟩ := List.forall_mem_cons.mp hnames
    have hfirst := h.below hname.2
    exact hfirst.trans (ih hfirst.self hnames)

end

section

variable {d : Disk} (hproper : d.root.Proper)
include hproper

/-- **A search only goes on.** Each step takes a path to one below it or keeps
it, so that what is found has the path of the beginning in front. -/
theorem onward_of_mem_search {steps : List Segment}
    (hplain : ∀ text, .plain text ∈ steps → '/' ∉ text.toList) {p q : Path} (hp : Onward p p)
    (h : q ∈ search d steps p) : Onward p q := by
  -- the induction is on how many steps there are, since two stars are searched
  -- with the step behind them
  induction hn : steps.length using Nat.strongRecOn generalizing steps p with
  | ind n ih =>
    subst hn
    have hbelow : ∀ (front) {rest p'}, steps = front ++ rest → front ≠ [] → Onward p p' →
        q ∈ search d rest p' → Onward p q := by
      rintro front rest p' rfl hfront hp' h'
      have hshorter : 0 < front.length := List.length_pos_of_ne_nil hfront
      exact hp'.trans (ih rest.length (by rw [List.length_append]; omega)
        (fun text hmem => hplain text (List.mem_append_right front hmem)) hp'.self h' rfl)
    match steps with
    | [] =>
      obtain rfl : q = p := List.mem_singleton.mp h
      exact hp
    | .plain name :: rest =>
      exact hbelow [.plain name] rfl (by simp) (hp.below (hplain name List.mem_cons_self))
        (mem_search_plain.mp h).2
    | .names tokens :: rest =>
      obtain ⟨entries, data, hfind, ⟨piece, hdots, hrest⟩ | ⟨name, t, hentry, -, hrest⟩⟩ :=
        mem_search_names.mp h
      · exact hbelow [.names tokens] rfl (by simp) (hp.join (slash_notMem_of_mem_dots hdots)) hrest
      · have htree := Disk.proper_of_find? hproper hfind
        have hname := htree.isEntryName_of_child? (htree.mem_entries_iff.mp hentry)
        exact hbelow [.names tokens] rfl (by simp) (hp.below hname.2) hrest
    | [.anyDepth] =>
      obtain ⟨t, ht, -⟩ := mem_search_last.mp h
      obtain ⟨names, -, hnames, rfl, -⟩ := (mem_everything_iff_find? hproper hp.text_ne).mp ht
      exact hp.foldl_below hnames
    | .anyDepth :: s :: rest =>
      obtain ⟨q', t, hq', -, hrest⟩ := mem_search_anyDepth.mp h
      obtain ⟨names, -, hnames, rfl, -⟩ := (mem_everything_iff_find? hproper hp.text_ne).mp hq'
      exact hbelow [.anyDepth, s] rfl (by simp) (hp.foldl_below hnames) hrest

end

/-! ## The files that are found

The list that is claimed to be in order is not that of the paths but of the
files among them. The equations of `search` carry over to it, one for each kind
of step. -/

/-- The files that the steps stand for, seen from `p`. -/
def filesFrom (d : Disk) (steps : List Segment) (p : Path) : List Path := (search d steps p).filter d.isFile

section

variable {d : Disk} {rest : List Segment} {p : Path}

/-- A plain step passes on what is found behind it. -/
theorem filesFrom_plain {name : String} :
    filesFrom d (.plain name :: rest) p
      = if leadsOn d p name (below p name) then filesFrom d rest (below p name) else [] := by
  rw [filesFrom, search]
  split <;> rfl

/-- Dots come first, and then the entries in their order. -/
theorem filesFrom_names {tokens : List Token} {entries : List (String × FileTree)}
    {data : DirectoryData} (hfind : d.find? p = some (.directory entries data)) :
    filesFrom d (.names tokens :: rest) p
      = ((dots tokens).flatMap fun name => filesFrom d rest (p.join name)) ++
        entries.flatMap fun e =>
          if admits tokens e.1.toList then filesFrom d rest (below p e.1) else [] := by
  rw [filesFrom, search, hfind]
  show ((dots tokens).flatMap (fun name => search d rest (p.join name)) ++ entries.flatMap
    (fun e => if admits tokens e.1.toList then search d rest (below p e.1) else [])).filter d.isFile = _
  rw [List.filter_append, List.filter_flatMap, List.filter_flatMap]
  congr 2
  funext e
  split <;> rfl

/-- Two stars look from everything inside, in its order. -/
theorem filesFrom_anyDepth {s : Segment} :
    filesFrom d (.anyDepth :: s :: rest) p
      = (everything d p).flatMap fun e =>
          if e.1.fileName?.any s.admits then filesFrom d rest e.1 else [] := by
  show ((everything d p).flatMap
    (fun e => if e.1.fileName?.any s.admits then search d rest e.1 else [])).filter d.isFile = _
  rw [List.filter_flatMap]
  congr 1
  funext e
  split <;> rfl

end

section

variable {d : Disk} (hproper : d.root.Proper) {p : Path} (hp : p.text ≠ "")
include hproper hp

/-- Two stars at the end stand for directories. -/
theorem filesFrom_last : filesFrom d [.anyDepth] p = [] := by
  refine List.filter_eq_nil_iff.mpr fun q hq => ?_
  obtain ⟨t, ht, hdirectory⟩ := mem_search_last.mp hq
  obtain ⟨-, -, -, -, hfind⟩ := (mem_everything_iff_find? hproper hp).mp ht
  rw [Disk.isFile, hfind, Option.any_some, FileTree.isFile, hdirectory]
  exact Bool.false_ne_true

/-- What two stars find further down they find from above, too. -/
theorem filesFrom_anyDepth_subset (rest : List Segment) {names : List String}
    (hnames : ∀ n ∈ names, Path.IsEntryName n) :
    filesFrom d (.anyDepth :: rest) (names.foldl below p) ⊆ filesFrom d (.anyDepth :: rest) p := by
  have hbase : (names.foldl below p).text ≠ "" := (goes_names (d := d) hnames hp).text_ne
  cases rest with
  | nil =>
    rw [filesFrom_last hproper hbase]
    exact List.nil_subset _
  | cons s rest =>
    intro q hq
    rw [filesFrom_anyDepth] at hq ⊢
    obtain ⟨⟨r, t⟩, hr, hq⟩ := List.mem_flatMap.mp hq
    obtain ⟨more, hne, hmore, hpath, hfind⟩ := (mem_everything_iff_find? hproper hbase).mp hr
    refine List.mem_flatMap.mpr ⟨(r, t), (mem_everything_iff_find? hproper hp).mpr ?_, hq⟩
    exact ⟨names ++ more, by simp [hne], List.forall_mem_append.mpr ⟨hnames, hmore⟩,
      by rw [hpath, List.foldl_append], hfind⟩

end

/-! ## Searches that are not tangled

Where does the order break? A step is searched from several paths one after the
other, and each of them contributes all its files before the next one does.
This is in order if the paths part. If one of them goes on from another, its
files would have to be among those of the other and not behind them, unless
they are the same files again, which is what two stars at the end of a step
list always give. `Untangled` asks for just this at every step; `Orderly` is a
condition on the pattern alone that guarantees it on any disk. -/

/-- Of the paths that two stars and the step behind them stand for, none from
which the rest finds files goes on from another one. -/
def Level (d : Disk) (s : Segment) (rest : List Segment) (p : Path) : Prop :=
  ∀ q ∈ search d [.anyDepth, s] p, ∀ q' ∈ search d [.anyDepth, s] p,
    filesFrom d rest q ≠ [] → filesFrom d rest q' ≠ [] → q.leads q' = true → q = q'

/-- **Files are found from paths that part.** At the end of a pattern, and in
front of two more stars, which stand for everything inside anyway, two stars
may stand for what they like. Everywhere else the paths that lead to files are
on a level. A dot of the directory itself, or two dots, lead to none. -/
def Untangled (d : Disk) : List Segment → Path → Prop
  | [], _ => True
  | .names tokens :: rest, p =>
    (∀ name ∈ dots tokens, filesFrom d rest (p.join name) = []) ∧
      ∀ q ∈ search d [.names tokens] p, Untangled d rest q
  | .anyDepth :: s :: rest, p =>
    (rest = [] ∨ rest.head? = some .anyDepth ∨ Level d s rest p) ∧
      ∀ q ∈ search d [.anyDepth, s] p, Untangled d rest q
  | s :: rest, p => ∀ q ∈ search d [s] p, Untangled d rest q

instance (d : Disk) (s : Segment) (rest : List Segment) (p : Path) : Decidable (Level d s rest p) :=
  inferInstanceAs (Decidable (∀ q ∈ search d [.anyDepth, s] p, ∀ q' ∈ search d [.anyDepth, s] p,
    filesFrom d rest q ≠ [] → filesFrom d rest q' ≠ [] → q.leads q' = true → q = q'))

instance decidableUntangled (d : Disk) : ∀ steps p, Decidable (Untangled d steps p)
  | [], _ => isTrue trivial
  | .names tokens :: rest, p =>
    have := decidableUntangled d rest
    inferInstanceAs (Decidable ((∀ name ∈ dots tokens, filesFrom d rest (p.join name) = []) ∧
      ∀ q ∈ search d [.names tokens] p, Untangled d rest q))
  | .anyDepth :: s :: rest, p =>
    have := decidableUntangled d rest
    inferInstanceAs (Decidable ((rest = [] ∨ rest.head? = some .anyDepth ∨ Level d s rest p) ∧
      ∀ q ∈ search d [.anyDepth, s] p, Untangled d rest q))
  | [.anyDepth], p =>
    inferInstanceAs (Decidable (∀ q ∈ search d [.anyDepth] p, True))
  | .plain name :: rest, p =>
    have := decidableUntangled d rest
    inferInstanceAs (Decidable (∀ q ∈ search d [.plain name] p, Untangled d rest q))

/-- No wildcard stands for a dot, and two stars stand in front of the last step
only, or with two stars again behind the next one. -/
def Orderly : List Segment → Prop
  | [] => True
  | .names tokens :: rest => dots tokens = [] ∧ Orderly rest
  | .anyDepth :: _ :: rest => (rest = [] ∨ rest.head? = some .anyDepth) ∧ Orderly rest
  | _ :: rest => Orderly rest

instance decidableOrderly : ∀ steps, Decidable (Orderly steps)
  | [] => isTrue trivial
  | .names tokens :: rest =>
    have := decidableOrderly rest
    inferInstanceAs (Decidable (dots tokens = [] ∧ Orderly rest))
  | .anyDepth :: _ :: rest =>
    have := decidableOrderly rest
    inferInstanceAs (Decidable ((rest = [] ∨ rest.head? = some .anyDepth) ∧ Orderly rest))
  | [.anyDepth] => isTrue trivial
  | .plain _ :: rest => decidableOrderly rest

/-- **Such steps are not tangled**, whatever is on the disk. The steps that
admit dots are excluded, and so are two stars with more behind the step that
they are searched with, which is all that tangling takes. -/
theorem Orderly.untangled {steps : List Segment} (h : Orderly steps) (d : Disk) (p : Path) :
    Untangled d steps p := by
  fun_induction Orderly steps generalizing p with
  | case1 => trivial
  | case2 tokens rest ih =>
    refine ⟨fun name hname => ?_, fun q _ => ih h.2 q⟩
    rw [h.1] at hname
    exact absurd hname List.not_mem_nil
  | case3 s rest ih => exact ⟨h.1.imp_right .inl, fun q _ => ih h.2 q⟩
  | case4 s rest hnames hstars ih =>
    cases s with
    | plain name => exact fun q _ => ih h q
    | names tokens => exact absurd rfl (hnames tokens)
    | anyDepth =>
      cases rest with
      | nil => exact fun _ _ => trivial
      | cons s rest => exact absurd rfl (hstars s rest rfl)

/-! ## Files in order

`Path.Rises` is closed under concatenation if each later file is greater than
all the earlier ones or among them. The lemmas show for each kind of step that
the lists it puts together are related in this way, and `rises_filesFrom`
assembles them along the pattern. -/

section

variable {d : Disk} (hproper : d.root.Proper) (hsorted : d.root.Sorted) {rest : List Segment}
  (hplain : ∀ text, .plain text ∈ rest → '/' ∉ text.toList) {p : Path} (hp : p.text ≠ "")
include hproper hplain

/-- What is found from paths that part is in their order. -/
theorem compare_of_mem_filesFrom {r r' : Path} (hr : Onward r r) (hr' : Onward r' r')
    (hlt : r.compare r' = .lt) (hparts : ¬ r.leads r' = true) :
    ∀ q ∈ filesFrom d rest r, ∀ q' ∈ filesFrom d rest r', q.compare q' = .lt := by
  intro q hq q' hq'
  have hfrom := onward_of_mem_search hproper hplain hr (List.mem_filter.mp hq).1
  have hfrom' := onward_of_mem_search hproper hplain hr' (List.mem_filter.mp hq').1
  exact Path.compare_of_prefix hlt hparts hfrom.steps hfrom'.steps

include hsorted hp

/-- The names in a directory are looked at in their order, and no two of them
lead to the same. -/
theorem rises_names {tokens : List Token}
    (hdots : ∀ name ∈ dots tokens, filesFrom d rest (p.join name) = [])
    (hrest : ∀ q ∈ search d [.names tokens] p, Path.Rises (filesFrom d rest q)) :
    Path.Rises (filesFrom d (.names tokens :: rest) p) := by
  -- where there is no directory that can be read nothing is found
  by_cases hopen : ∃ entries data, d.find? p = some (.directory entries data)
  · obtain ⟨entries, data, hfind⟩ := hopen
    have htree := Disk.proper_of_find? hproper hfind
    have hname : ∀ e ∈ entries, Path.IsEntryName e.1 := fun e he =>
      htree.isEntryName_of_child? (htree.mem_entries_iff.mp he)
    rw [filesFrom_names hfind, List.flatMap_eq_nil_iff.mpr hdots, List.nil_append]
    refine Path.Rises.flatMap (fun e he => ?_) ?_
    · split
      next hadmits =>
        exact hrest _ (mem_search_names.mpr
          ⟨entries, data, hfind, .inr ⟨e.1, e.2, he, hadmits, List.mem_singleton_self _⟩⟩)
      next => exact .nil
    · cases Disk.sorted_of_find? hsorted hfind with
      | directory hincreasing _ =>
        refine hincreasing.imp_of_mem fun {e e'} he he' hlt => .inr fun q hq q' hq' => ?_
        obtain ⟨-, hq⟩ := List.mem_ite_nil_right.mp hq
        obtain ⟨-, hq'⟩ := List.mem_ite_nil_right.mp hq'
        have hsteps := steps_below hp (hname e he)
        have hsteps' := steps_below hp (hname e' he')
        refine compare_of_mem_filesFrom hproper hplain (onward_name hp (hname e he))
          (onward_name hp (hname e' he')) ?_ ?_ q hq q' hq'
        · rw [Path.compare, hsteps, hsteps']
          exact Path.compareSteps_of_lt (Path.Step.compare_down_iff.mpr hlt) _ [] []
        · -- of two names none goes on from the other
          intro hleads
          rw [Path.leads_iff, hsteps, hsteps', List.prefix_append_right_inj] at hleads
          have hsame := Path.Step.down.inj (List.cons_prefix_cons.mp hleads).1
          exact absurd hlt (by rw [hsame]; exact String.lt_irrefl e'.1)
  · have hnone : filesFrom d (.names tokens :: rest) p = [] := by
      refine List.eq_nil_iff_forall_not_mem.mpr fun q hq => hopen ?_
      obtain ⟨entries, data, hfind, -⟩ := mem_search_names.mp (List.mem_filter.mp hq).1
      exact ⟨entries, data, hfind⟩
    rw [hnone]
    exact .nil

/-- Two stars stand for everything inside in order. Where the step behind them
stands for a path and for one that goes on from it, the second leads to nothing
new, or one of them leads to no files at all. -/
theorem rises_anyDepth {s : Segment}
    (hlevel : rest = [] ∨ rest.head? = some .anyDepth ∨ Level d s rest p)
    (hrest : ∀ q ∈ search d [.anyDepth, s] p, Path.Rises (filesFrom d rest q)) :
    Path.Rises (filesFrom d (.anyDepth :: s :: rest) p) := by
  have hfound : ∀ e ∈ everything d p, e.1.fileName?.any s.admits = true →
      e.1 ∈ search d [.anyDepth, s] p := fun e he hadmits =>
    mem_search_anyDepth.mpr ⟨e.1, e.2, he, hadmits, List.mem_singleton_self _⟩
  rw [filesFrom_anyDepth]
  refine Path.Rises.flatMap (fun e he => ?_) ?_
  · split
    next hadmits => exact hrest e.1 (hfound e he hadmits)
    next => exact .nil
  · refine (List.pairwise_map.mp (increasing_everything hproper hp hsorted)).imp_of_mem ?_
    intro e e' he he' hlt
    obtain ⟨names, hne, hnames, hpath, -⟩ := (mem_everything_iff_find? hproper hp).mp he
    obtain ⟨names', hne', hnames', hpath', -⟩ := (mem_everything_iff_find? hproper hp).mp he'
    -- either nothing is found from one of the two, or they part, or the second
    -- goes on from the first
    by_cases hadmits : e.1.fileName?.any s.admits = true ∧ e'.1.fileName?.any s.admits = true
    · obtain ⟨hadmits, hadmits'⟩ := hadmits
      rw [if_pos hadmits, if_pos hadmits']
      by_cases hleads : e.1.leads e'.1 = true
      · rcases hlevel with rfl | hmore | hlevel
        · -- the paths themselves are all that is found
          refine .inr fun q hq q' hq' => ?_
          rw [List.mem_singleton.mp (List.mem_filter.mp hq).1,
            List.mem_singleton.mp (List.mem_filter.mp hq').1]
          exact hlt
        · obtain ⟨rest', rfl⟩ := List.head?_eq_some_iff.mp hmore
          rw [hpath, hpath'] at hleads
          obtain ⟨more, rfl⟩ := prefix_of_leads hp hne hnames hne' hnames' hleads
          rw [List.foldl_append, ← hpath] at hpath'
          rw [hpath']
          have hbase : e.1.text ≠ "" := hpath ▸ (goes_names (d := d) hnames hp).text_ne
          exact .inl (filesFrom_anyDepth_subset hproper hbase rest'
            (List.forall_mem_append.mp hnames').2)
        · refine .inr fun q hq q' hq' => ?_
          have hsame := hlevel e.1 (hfound e he hadmits) e'.1 (hfound e' he' hadmits')
            (List.ne_nil_of_mem hq) (List.ne_nil_of_mem hq') hleads
          rw [hsame, Path.compare_eq_iff.mpr (Path.same_refl _)] at hlt
          exact absurd hlt (by decide)
      · have honward : ∀ names, names ≠ [] → (∀ n ∈ names, Path.IsEntryName n) →
            Onward (names.foldl below p) (names.foldl below p) := by
          rintro (- | ⟨name, more⟩) hne hnames
          · exact absurd rfl hne
          · obtain ⟨hname, hmore⟩ := List.forall_mem_cons.mp hnames
            exact ((onward_name hp hname).foldl_below hmore).self
        exact .inr (compare_of_mem_filesFrom hproper hplain (hpath ▸ honward names hne hnames)
          (hpath' ▸ honward names' hne' hnames') hlt hleads)
    · refine .inr fun q hq q' hq' => absurd ?_ hadmits
      exact ⟨(List.mem_ite_nil_right.mp hq).1, (List.mem_ite_nil_right.mp hq').1⟩

end

/-- **The files of a search that is not tangled rise.** Each of them comes
behind all that are in front of it, unless it is one of them. -/
theorem rises_filesFrom {d : Disk} (hproper : d.root.Proper) (hsorted : d.root.Sorted)
    {steps : List Segment} (hplain : ∀ text, .plain text ∈ steps → '/' ∉ text.toList) {p : Path}
    (hp : p.text ≠ "") (h : Untangled d steps p) : Path.Rises (filesFrom d steps p) := by
  -- the induction is on how many steps there are, since two stars are searched
  -- with the step behind them
  induction hn : steps.length using Nat.strongRecOn generalizing steps p with
  | ind n ih =>
    subst hn
    have hbelow : ∀ (front) {rest p'}, steps = front ++ rest → front ≠ [] → Path.text p' ≠ "" →
        Untangled d rest p' → Path.Rises (filesFrom d rest p') := by
      rintro front rest p' rfl hfront hp' h'
      have hshorter : 0 < front.length := List.length_pos_of_ne_nil hfront
      exact ih rest.length (by rw [List.length_append]; omega)
        (fun text hmem => hplain text (List.mem_append_right front hmem)) hp' h' rfl
    match steps with
    | [] => exact (Path.Rises.singleton p).filter d.isFile
    | .plain name :: rest =>
      rw [filesFrom_plain]
      split
      next hleads =>
        have hslash := hplain name List.mem_cons_self
        have hempty := ne_empty_of_leadsOn hleads
        exact hbelow [.plain name] rfl (by simp) (goes_below (d := d) hp hslash hempty).text_ne
          (h _ (mem_search_plain.mpr ⟨hleads, List.mem_singleton_self _⟩))
      next => exact .nil
    | .names tokens :: rest =>
      have hplain' : ∀ text, .plain text ∈ rest → '/' ∉ text.toList := fun text hmem =>
        hplain text (List.mem_cons_of_mem _ hmem)
      refine rises_names hproper hsorted hplain' hp h.1 fun q hq => ?_
      obtain ⟨way, -, hgoes, -⟩ := found_of_mem_search hproper (by simp) hp hq (by simp)
      exact hbelow [.names tokens] rfl (by simp) hgoes.text_ne (h.2 q hq)
    | [.anyDepth] =>
      rw [filesFrom_last hproper hp]
      exact .nil
    | .anyDepth :: s :: rest =>
      have hplain' : ∀ text, .plain text ∈ rest → '/' ∉ text.toList := fun text hmem =>
        hplain text (List.mem_cons_of_mem _ (List.mem_cons_of_mem s hmem))
      refine rises_anyDepth hproper hsorted hplain' hp h.1 fun q hq => ?_
      obtain ⟨r, t, hr, -, hq'⟩ := mem_search_anyDepth.mp hq
      obtain ⟨names, -, hnames, hpath, -⟩ := (mem_everything_iff_find? hproper hp).mp hr
      obtain rfl := (List.mem_singleton.mp hq').trans hpath
      exact hbelow [.anyDepth, s] rfl (by simp) (goes_names (d := d) hnames hp).text_ne (h.2 _ hq)

/-! ## Patterns

From lists of steps to patterns as they are written. A slash at the end of a
pattern keeps only directories, which leaves no file and hence nothing out of
order. -/

/-- What is searched for are pieces of the pattern. -/
theorem mem_pieces_of_mem_piecesOf {pattern piece : String} (h : piece ∈ piecesOf pattern) :
    piece ∈ (Path.mk pattern).pieces := by
  rw [piecesOf] at h
  split at h
  · split at h
    · exact List.mem_of_mem_drop (List.dropLast_subset _ h)
    · exact List.mem_of_mem_drop h
  · split at h
    · exact List.dropLast_subset _ h
    · exact h

/-- What is read of a pattern has no slash where it is looked for as it is. -/
theorem slash_notMem_of_segments {pattern : String} {steps : List Segment}
    (h : segments pattern = .ok steps) : ∀ text, .plain text ∈ steps → '/' ∉ text.toList := by
  intro text hmem
  obtain ⟨_, -, h⟩ := bind_eq_ok_iff.mp h
  obtain ⟨read, hread, h⟩ := bind_eq_ok_iff.mp h
  obtain rfl := Except.ok.inj h
  obtain ⟨piece, hpiece, hstep⟩ := (mem_iff_of_mapM hread).mp (mem_of_mem_merged hmem)
  obtain ⟨ts, -, hstep⟩ := map_eq_ok_iff.mp hstep
  rw [eq_of_ofTokens hstep]
  exact Path.slash_notMem_of_mem_pieces (p := ⟨pattern⟩) piece (mem_pieces_of_mem_piecesOf hpiece)

/-- **The files that an untangled pattern stands for rise.** What is asked of
the pattern is asked of its steps at the place where its search starts. -/
theorem rises_of_find {d : Disk} (hproper : d.root.Proper) (hsorted : d.root.Sorted) {pattern : String}
    {found : List Path} (hfound : find d pattern = .ok found)
    (h : ∀ steps, segments pattern = .ok steps → Untangled d steps (Path.mk pattern).start) :
    Path.Rises (found.filter d.isFile) := by
  obtain ⟨steps, hsteps, hfound⟩ := bind_eq_ok_iff.mp hfound
  have hstart : (Path.mk pattern).start.text ≠ "" := by
    rw [Path.start]
    split <;> decide
  have hrises := rises_filesFrom hproper hsorted (slash_notMem_of_segments hsteps) hstart (h steps hsteps)
  obtain rfl := Except.ok.inj hfound
  split
  · rw [List.filter_comm]
    exact hrises.filter _
  · exact hrises

end Glob

end LocaleKeys
