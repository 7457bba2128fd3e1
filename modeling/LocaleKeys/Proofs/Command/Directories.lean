/-
One directory, scanned in two ways.

The sources of a directory are looked for where the configuration includes it,
and where its path is named. Both ways look at the same sources
(`Scan.sourcesIn`), but each has its own idea of what is left out. By
configuration patterns are compared with paths as they are seen from the root
of the project, and not with what these go on by. Where a directory is named,
ignored paths are looked for in this directory instead of the project. So each
way leaves out what it should in so far as this makes no difference
(`scans_agree_iff`). It makes none for patterns that overlook a dot in front,
such as the usual ones (`scans_agree_of_overlooksDot`).
-/
import LocaleKeys.Proofs.Command.Scanning
import LocaleKeys.Proofs.Files.Naming

set_option autoImplicit false

namespace LocaleKeys

/-! ## A dot in front of a text

From the root `.` of a project every path is seen with a dot and a slash in
front. A pattern that begins with two stars can pass over them, unless what is
behind the stars could match the dot itself. `overlooksDot` is a test on the
first tokens that rules this out, and it is a sufficient one: the usual
patterns pass it. -/

namespace Glob

/-- The pattern starts with any number of steps, and what is behind them begins
with no dot, or with a dot that no slash follows. -/
def overlooksDot : List Token → Bool
  | .anyDepth :: .char c :: _ => c != '.'
  | .anyDepth :: .many :: .char '.' :: .char c :: _ => c != '/'
  | _ => false

/-- Of any number of steps a dot in front is one. -/
theorem admits_anyDepth_dotted {ts : List Token} {text : List Char}
    (h : admits ts ('.' :: '/' :: text) = true → admits ts text = true) :
    admits (.anyDepth :: ts) ('.' :: '/' :: text) = admits (.anyDepth :: ts) text := by
  have hsuffixes : suffixesOfSteps ('.' :: '/' :: text) = text :: suffixesOfSteps text := by
    simp [suffixesOfSteps]
  -- the steps are passed over up to the dot, or begin behind it like those of
  -- the text
  rw [admits, admits, hsuffixes, List.any_cons]
  cases hdotted : admits ts ('.' :: '/' :: text) with
  | true => rw [h hdotted]; rfl
  | false => rw [Bool.false_or]

/-- **Patterns that overlook a dot** in front of a text cannot tell whether
there is one. They begin with stars that may stand for the dot as well. -/
theorem admits_dotted {ts : List Token} (h : overlooksDot ts = true) (text : List Char) :
    admits ts ('.' :: '/' :: text) = admits ts text := by
  unfold overlooksDot at h
  -- the first form has a character other than a dot behind the stars, the
  -- second a star and then a dot
  split at h
  · rename_i c ts
    apply admits_anyDepth_dotted
    intro hadmits
    simp only [admits, Token.admits, Bool.and_eq_true, beq_iff_eq] at hadmits
    exact absurd hadmits.1.symm (by simpa using h)
  · rename_i c ts
    apply admits_anyDepth_dotted
    intro hadmits
    -- neither the dot nor the slash can be where the star ends
    simp only [admits, suffixes, List.any_cons, Token.admits, beq_self_eq_true, Bool.true_and] at hadmits
    have hc : ('/' == c) = false := by
      rw [beq_eq_false_iff_ne]
      exact fun heq => (by simpa using h : ¬ c = '/') heq.symm
    rw [hc] at hadmits
    simpa only [admits, Bool.false_and, Bool.false_or, show ('/' == '.') = false from rfl] using hadmits
  · exact absurd h (by simp)

end Glob

namespace Scan

/-! ## What is left out

Both ways of scanning use the same test (`Exclusions.excludes`) with different
bases. It is split here into its two halves, ignored paths and ignored
patterns. The first compares steps, and behind a base only the steps behind the
base matter. The second compares texts, so that it matters how the path is
written. -/

/-- One of the ignored paths leads where these steps lead. -/
def Listed (ignores : List String) (steps : List Path.Step) : Prop :=
  ∃ entry ∈ ignores, Glob.isPattern entry = false ∧ (Path.mk entry).way <+: steps

/-- One of the ignored patterns stands for the text. -/
def Matched (ignores : List String) (ignoreTests : Bool) (text : String) : Prop :=
  ∃ pattern ∈ ignores.filter Glob.isPattern ++ (if ignoreTests then testFilePatterns else []),
    Glob.isMatch pattern text = true

instance (ignores : List String) (steps : List Path.Step) : Decidable (Listed ignores steps) :=
  inferInstanceAs (Decidable (∃ entry ∈ ignores,
    Glob.isPattern entry = false ∧ (Path.mk entry).way <+: steps))

instance (ignores : List String) (ignoreTests : Bool) (text : String) :
    Decidable (Matched ignores ignoreTests text) :=
  inferInstanceAs (Decidable (∃ pattern ∈ ignores.filter Glob.isPattern
    ++ (if ignoreTests then testFilePatterns else []), Glob.isMatch pattern text = true))

/-- **What a scan leaves out** in a directory: ignored paths are looked for in
the directory, and patterns are compared with paths as they are found. -/
theorem excludes_iff {base p : Path} {steps : List Path.Step} {ignores : List String}
    {ignoreTests : Bool} (hbase : base.text ≠ "") (hp : p.steps = base.steps ++ steps)
    (hrelative : ∀ entry ∈ ignores, (Path.mk entry).isAbsolute = false) :
    (Exclusions.of base ignores ignoreTests).excludes p = true ↔
      Listed ignores steps ∨ Matched ignores ignoreTests p.text := by
  have hleads : ∀ entry ∈ ignores,
      ((base.join entry).leads p = true ↔ (Path.mk entry).way <+: steps) := by
    intro entry hentry
    rw [Path.leads, List.isPrefixOf_iff_prefix, Path.steps_join hbase (hrelative entry hentry), hp,
      List.prefix_append_right_inj]
  have hmatch : ∀ pattern, (∃ ts, tokens? pattern = some ts ∧ Glob.admits ts p.text.toList = true) ↔
      Glob.isMatch pattern p.text = true := by
    intro pattern
    rw [tokens?, Glob.isMatch]
    cases Glob.tokens pattern <;> simp [Except.toOption]
  rw [Exclusions.excludes, Exclusions.of, Bool.or_eq_true, List.any_eq_true, List.any_eq_true]
  dsimp only
  -- ignored paths, and then ignored patterns
  refine or_congr ?_ ?_
  · constructor
    · rintro ⟨q, hq, hq'⟩
      obtain ⟨entry, hentry, rfl⟩ := List.mem_map.mp hq
      obtain ⟨hmem, hplain⟩ := List.mem_filter.mp hentry
      exact ⟨entry, hmem, by simpa using hplain, (hleads entry hmem).mp hq'⟩
    · rintro ⟨entry, hmem, hplain, hprefix⟩
      refine ⟨_, List.mem_map.mpr ⟨entry, List.mem_filter.mpr ⟨hmem, ?_⟩, rfl⟩,
        (hleads entry hmem).mpr hprefix⟩
      rw [hplain]
      rfl
  · constructor
    · rintro ⟨ts, hts, hadmits⟩
      obtain ⟨pattern, hpattern, htokens⟩ := List.mem_filterMap.mp hts
      exact ⟨pattern, hpattern, (hmatch pattern).mp ⟨ts, htokens, hadmits⟩⟩
    · rintro ⟨pattern, hpattern, hadmits⟩
      obtain ⟨ts, htokens, hadmits⟩ := (hmatch pattern).mpr hadmits
      exact ⟨ts, List.mem_filterMap.mpr ⟨pattern, hpattern, htokens⟩, hadmits⟩

/-! ## Scans without repetitions

A scan is put in order at its end, which changes neither its files nor, if no
two of them are the same path, their number. -/

/-- Putting a scan in order makes no two files the same. -/
theorem apart_arranged {s : Scan} (h : Path.Apart s.files) : Path.Apart s.arranged.files :=
  ((List.mergeSort_perm s.files _).pairwise_iff (fun hne => by rwa [Path.same_comm])
    |>.mpr h).sublist (sublist_withoutRepeats _)

/-- If no two are the same to begin with, all of them stay. -/
theorem mem_arranged_iff {s : Scan} (h : Path.Apart s.files) {p : Path} :
    p ∈ s.arranged.files ↔ p ∈ s.files := by
  refine ⟨mem_of_mem_arranged, fun hp => ?_⟩
  obtain ⟨q, hq, hsame⟩ := exists_mem_arranged hp
  rwa [← h.eq_of_same (mem_of_mem_arranged hq) hp hsame]

/-! ## The sources of a directory

What both ways have in common: the sources below a directory, listed from the
tree. Seen from the root the same directory is found under another path, and
the paths of its sources begin with that one instead. All that is needed of a
source later is that it goes on from the directory by the names of entries, and
which steps these are. -/

/-- The sources in a directory, found from its path. -/
def sourcesIn (d : Disk) (dir : Path) : List Path :=
  (((d.find? dir).elim [] (·.inside dir)).filter fun e => e.2.isFile && isSource e.1).map (·.1)

section

variable {d : Disk} {dir : Path}

/-- What is found in a directory are its sources, but for those that are left
out. -/
theorem files_atPlace (hdirectory : d.isDirectory dir = true) (e : Exclusions) :
    (atPlace d e dir).files = (sourcesIn d dir).filter fun p => !e.excludes p := by
  obtain ⟨t, ht, hdirectory⟩ := Disk.isDirectory_iff.mp hdirectory
  have hfile : t.isFile = false := by rw [FileTree.isFile, hdirectory]; rfl
  rw [atPlace, sourcesIn, ht, Option.elim_some, List.filter_map, List.filter_filter]
  dsimp only
  rw [List.filter_cons_of_neg (by simp [hfile])]
  congr 1
  apply List.filter_congr
  intro e' _
  rw [Function.comp_apply, Bool.and_comm]

/-- A source is found in a directory unless it is left out. -/
theorem mem_atPlace_iff (hdirectory : d.isDirectory dir = true) {e : Exclusions} {p : Path} :
    p ∈ (atPlace d e dir).files ↔ p ∈ sourcesIn d dir ∧ ¬ e.excludes p = true := by
  rw [files_atPlace hdirectory, List.mem_filter, Bool.not_eq_true', Bool.not_eq_true]

variable (hproper : d.root.Proper) (hdirectory : d.isDirectory dir = true)
include hproper hdirectory

/-- No two sources of a directory have the same path. -/
theorem apart_sourcesIn (hdir : dir.text ≠ "") : Path.Apart (sourcesIn d dir) := by
  obtain ⟨t, ht, -⟩ := Disk.isDirectory_iff.mp hdirectory
  rw [sourcesIn, ht, Option.elim_some]
  exact ((Disk.proper_of_find? hproper ht).apart_inside hdir).sublist
    (List.filter_sublist.map Prod.fst)

/-- Of sources no two are found at the same path. -/
theorem apart_atPlace (hdir : dir.text ≠ "") (e : Exclusions) : Path.Apart (atPlace d e dir).files := by
  rw [files_atPlace hdirectory]
  exact (apart_sourcesIn hproper hdirectory hdir).sublist List.filter_sublist

/-- Sources in a directory are reached from there by names. -/
theorem exists_names_of_mem_sourcesIn {q : Path} (hq : q ∈ sourcesIn d dir) :
    ∃ names ≠ [], (∀ name ∈ names, Path.IsEntryName name) ∧ q = names.foldl Path.join dir := by
  obtain ⟨t, ht, -⟩ := Disk.isDirectory_iff.mp hdirectory
  rw [sourcesIn, ht, Option.elim_some] at hq
  obtain ⟨e, he, rfl⟩ := List.mem_map.mp hq
  obtain ⟨name, -, more, hnames, hpath⟩ :=
    (Disk.proper_of_find? hproper ht).exists_names dir e (List.mem_filter.mp he).1
  exact ⟨name :: more, List.cons_ne_nil name more, hnames, hpath⟩

/-- Sources of a relative directory have relative paths. -/
theorem relative_of_mem_sourcesIn (hdir : dir.Relative) {q : Path} (hq : q ∈ sourcesIn d dir) :
    q.Relative := by
  obtain ⟨names, -, hnames, rfl⟩ := exists_names_of_mem_sourcesIn hproper hdirectory hq
  exact hdir.foldl_join hnames

/-- What a source goes on by behind the directory. -/
theorem steps_of_mem_sourcesIn (hdir : dir.text ≠ "") {q : Path} (hq : q ∈ sourcesIn d dir) :
    q.steps = dir.steps ++ q.way.drop dir.way.length := by
  obtain ⟨names, -, hnames, rfl⟩ := exists_names_of_mem_sourcesIn hproper hdirectory hq
  obtain ⟨hsteps, hway⟩ := Path.steps_foldl_join hdir hnames
  rw [hsteps, hway, List.drop_left]

/-- **From the root of the project** the same sources are found, seen from
there. Only what is in front of their paths changes, and whether a file is a
source is told from its last name. -/
theorem sourcesIn_under {root : Path} (hroot : d.locate root = d.locate ⟨"."⟩) (hdir : dir.Relative) :
    sourcesIn d (dir.under root) = (sourcesIn d dir).map (·.under root) := by
  obtain ⟨t, ht, -⟩ := Disk.isDirectory_iff.mp hdirectory
  obtain ⟨hne, hfind⟩ := Disk.find?_under hroot hdir ht
  have hproper' := Disk.proper_of_find? hproper ht
  rw [sourcesIn, sourcesIn, hfind, ht, Option.elim_some, Option.elim_some,
    hproper'.inside_under hne hdir, List.filter_map, List.map_map, List.map_map]
  congr 1
  apply List.filter_congr
  intro e he
  -- the extension is that of the last name, wherever the path begins
  obtain ⟨name, -, more, hnames, hpath⟩ := hproper'.exists_names dir e he
  rw [Function.comp_apply, isSource, isSource, hpath,
    Path.extension?_under hne hdir (List.cons_ne_nil name more) hnames]

end

/-! ## Both ways

Each listing is the sources of the directory without those that are left out,
and the two conditions are now written side by side. They differ in two places.
Ignored paths are compared with the steps of the source behind the root in one,
and behind the directory in the other. Patterns are compared with the path as
seen from the root in one, and as it is written in the other. What should be
left out (`LeftOut`) takes the better half of each. -/

section

variable {d : Disk} {root dir : Path} {ignores : List String} (hproper : d.root.Proper)
  (hdir : dir.Relative) (hdirectory : d.isDirectory dir = true)
  (hrelative : ∀ entry ∈ ignores, (Path.mk entry).isAbsolute = false) (ignoreTests : Bool)
include hproper hdir hdirectory hrelative

/-- **Where the directory is named**, ignored paths are looked for behind it. A
literal entry is joined to the directory, so what is compared with it is the
way of the source without the way of the directory. -/
theorem mem_ofPaths_iff {p : Path} :
    p ∈ (ofPaths d [dir] ignores ignoreTests).files ↔ p ∈ sourcesIn d dir ∧
      ¬ (Listed ignores (p.way.drop dir.way.length) ∨ Matched ignores ignoreTests p.text) := by
  have hapart := apart_atPlace hproper hdirectory hdir.1 (Exclusions.of dir ignores ignoreTests)
  -- the scan is put in order once for the directory, and once more for all
  -- paths
  have hscan : (ofPaths d [dir] ignores ignoreTests).files
      = (atPlace d (Exclusions.of dir ignores ignoreTests) dir).arranged.arranged.files := by
    simp only [ofPaths, ofPath, hdirectory, if_true, ofDirectory, places, List.isEmpty_nil,
      List.map_cons, List.map_nil, List.foldl_cons, List.foldl_nil, append, List.nil_append,
      arranged]
  rw [hscan, mem_arranged_iff (apart_arranged hapart), mem_arranged_iff hapart,
    mem_atPlace_iff hdirectory]
  refine and_congr_right fun hp => not_congr ?_
  exact excludes_iff hdir.1 (steps_of_mem_sourcesIn hproper hdirectory hdir.1 hp) hrelative

/-- **Where the directory is included**, patterns are compared with paths as
seen from the root. Ignored paths are joined to the root as well here, so that
they are compared with the whole way of the source. -/
theorem mem_ofDirectory_iff (hroot : d.locate root = d.locate ⟨"."⟩)
    (hplain : Glob.isPattern dir.text = false) {p : Path} :
    p ∈ (ofDirectory d root [dir.text] ignores ignoreTests).files ↔ ∃ q ∈ sourcesIn d dir,
      p = q.under root ∧ ¬ (Listed ignores q.way ∨ Matched ignores ignoreTests (q.under root).text) := by
  obtain ⟨t, ht, htree⟩ := Disk.isDirectory_iff.mp hdirectory
  obtain ⟨hne, hfind⟩ := Disk.find?_under hroot hdir ht
  have hdirectory' : d.isDirectory (dir.under root) = true := by
    rw [Disk.isDirectory, hfind]
    exact htree
  -- the only place that is looked at is the directory, seen from the root
  have hplaces : places d root [dir.text] = [dir.under root] := by
    have hhas : d.has (root.join dir.text) = true := by
      rw [Disk.has, show root.join dir.text = dir.under root from rfl, hfind]
      rfl
    simp [places, places.place, hplain, hhas, Path.under]
  have hapart := apart_atPlace hproper hdirectory' (Path.text_under_ne hne hdir)
    (Exclusions.of root ignores ignoreTests)
  have hscan : (ofDirectory d root [dir.text] ignores ignoreTests).files
      = (atPlace d (Exclusions.of root ignores ignoreTests) (dir.under root)).arranged.files := by
    simp only [ofDirectory, hplaces, List.map_cons, List.map_nil, List.foldl_cons, List.foldl_nil,
      append, List.nil_append, arranged]
  have hexcludes : ∀ q ∈ sourcesIn d dir,
      ((Exclusions.of root ignores ignoreTests).excludes (q.under root) = true ↔
        Listed ignores q.way ∨ Matched ignores ignoreTests (q.under root).text) := fun q hq =>
    excludes_iff hne (Path.steps_under hne (relative_of_mem_sourcesIn hproper hdirectory hdir hq))
      hrelative
  rw [hscan, mem_arranged_iff hapart, mem_atPlace_iff hdirectory',
    sourcesIn_under hproper hdirectory hroot hdir, List.mem_map]
  constructor
  · rintro ⟨⟨q, hq, rfl⟩, hkept⟩
    exact ⟨q, hq, rfl, (not_congr (hexcludes q hq)).mp hkept⟩
  · rintro ⟨q, hq, rfl, hkept⟩
    exact ⟨⟨q, hq, rfl⟩, (not_congr (hexcludes q hq)).mpr hkept⟩

/-- Which sources are found where the directory is included. No two of them are
seen alike. -/
theorem under_mem_ofDirectory_iff (hroot : d.locate root = d.locate ⟨"."⟩)
    (hplain : Glob.isPattern dir.text = false) {q : Path} (hq : q ∈ sourcesIn d dir) :
    q.under root ∈ (ofDirectory d root [dir.text] ignores ignoreTests).files ↔
      ¬ (Listed ignores q.way ∨ Matched ignores ignoreTests (q.under root).text) := by
  rw [mem_ofDirectory_iff hproper hdir hdirectory hrelative ignoreTests hroot hplain]
  refine ⟨?_, fun hkept => ⟨q, hq, rfl, hkept⟩⟩
  rintro ⟨q', hq', heq, hkept⟩
  obtain ⟨t, ht, -⟩ := Disk.isDirectory_iff.mp hdirectory
  obtain ⟨hne, -⟩ := Disk.find?_under hroot hdir ht
  have hsteps : root.steps ++ q.way = root.steps ++ q'.way := by
    rw [← Path.steps_under hne (relative_of_mem_sourcesIn hproper hdirectory hdir hq), heq,
      Path.steps_under hne (relative_of_mem_sourcesIn hproper hdirectory hdir hq')]
  rwa [List.append_cancel_left hsteps, heq]

end

/-- What should be left out: a path that an ignored path leads to, or that a
pattern stands for, as it is written from the root of the project on. -/
def LeftOut (ignores : List String) (ignoreTests : Bool) (q : Path) : Prop :=
  Listed ignores q.way ∨ Matched ignores ignoreTests q.withoutDot.text

instance (ignores : List String) (ignoreTests : Bool) (q : Path) :
    Decidable (LeftOut ignores ignoreTests q) :=
  inferInstanceAs (Decidable (Listed ignores q.way ∨ Matched ignores ignoreTests q.withoutDot.text))

/-- **When both scans of a directory agree, and leave out what they should.**
By configuration ignored paths are looked for where they should be, and
patterns must not tell the path as it is seen from the root from the path
itself. Where the directory is named, it must make no difference that ignored
paths are looked for behind it. -/
theorem scans_agree_iff {d : Disk} {root dir : Path} {ignores : List String}
    (hproper : d.root.Proper) (hroot : d.locate root = d.locate ⟨"."⟩) (hdir : dir.Relative)
    (hplain : Glob.isPattern dir.text = false) (hdirectory : d.isDirectory dir = true)
    (hrelative : ∀ entry ∈ ignores, (Path.mk entry).isAbsolute = false) (ignoreTests : Bool) :
    let sources := sourcesIn d dir
    let byConfig := (ofDirectory d root [dir.text] ignores ignoreTests).files
    let named := (ofPaths d [dir] ignores ignoreTests).files
    let behind (q : Path) := q.way.drop dir.way.length
    (∀ p, p ∈ byConfig ↔ ∃ q ∈ sources, p = q.under root ∧
        ¬ (Listed ignores q.way ∨ Matched ignores ignoreTests (q.under root).text)) ∧
      (∀ p, p ∈ named ↔ p ∈ sources ∧
        ¬ (Listed ignores (behind p) ∨ Matched ignores ignoreTests p.text)) ∧
      ((∀ q ∈ sources, (q.under root ∈ byConfig ↔ q ∈ named) ∧
          (q ∈ named ↔ ¬ LeftOut ignores ignoreTests q)) ↔
        ∀ q ∈ sources,
          (Listed ignores q.way ∨ (Matched ignores ignoreTests (q.under root).text ↔
            Matched ignores ignoreTests q.withoutDot.text)) ∧
          (Listed ignores (behind q) ∨ Matched ignores ignoreTests q.text ↔
            LeftOut ignores ignoreTests q)) := by
  intro sources byConfig named behind
  refine ⟨fun p => mem_ofDirectory_iff hproper hdir hdirectory hrelative ignoreTests hroot hplain,
    fun p => mem_ofPaths_iff hproper hdir hdirectory hrelative ignoreTests,
    forall₂_congr fun q hq => ?_⟩
  have hseen := under_mem_ofDirectory_iff hproper hdir hdirectory hrelative ignoreTests hroot hplain hq
  -- each of the two listings is a filter of the same sources, so that they are
  -- compared file by file
  have hkept : q ∈ named ↔ ¬ (Listed ignores (behind q) ∨ Matched ignores ignoreTests q.text) :=
    (mem_ofPaths_iff hproper hdir hdirectory hrelative ignoreTests).trans (and_iff_right hq)
  rw [hseen, hkept, LeftOut, not_iff_not, not_iff_not]
  refine and_congr_left fun hbehind => ?_
  rw [hbehind]
  by_cases hlisted : Listed ignores q.way <;> simp [hlisted]

/-! ## A directory with one source

One disk serves for the witness and for the counterexamples. An ignored path
that is written from the root is looked for behind the directory and missed; a
pattern without stars in front does not fit the path as it is seen from the
root. -/

/-- In the directory `src` there is one source, in a directory of its own. -/
def generatedDisk : Disk :=
  ⟨.directory [("src", .directory [("gen",
    .directory [("a.ts", .file (.ofText "let t=useI18n();t('k')" 1))])])], []⟩

/-- Its names are those of entries, and no directory has one twice. -/
theorem proper_generatedDisk : generatedDisk.root.Proper :=
  .cons (by decide) (by decide) (.cons (by decide) (by decide)
    (.cons (by decide) (by decide) (.file _) .empty) .empty) .empty

/-- With an ignored path, the source is left out by configuration, but not
where its directory is named. -/
theorem scans_agree_iff_of_path :
    let named := (ofPaths generatedDisk [⟨"src"⟩] ["src/gen"] true).files
    (∀ p, p ∉ (ofDirectory generatedDisk ⟨"."⟩ ["src"] ["src/gen"] true).files) ∧
      ⟨"src/gen/a.ts"⟩ ∈ named := by
  intro named
  have hroot : generatedDisk.locate ⟨"."⟩ = generatedDisk.locate ⟨"."⟩ := rfl
  have hdir : Path.Relative ⟨"src"⟩ := by decide
  have hrelative : ∀ entry ∈ ["src/gen"], (Path.mk entry).isAbsolute = false := by decide
  obtain ⟨hbyConfig, hnamed, -⟩ := scans_agree_iff proper_generatedDisk hroot hdir (by decide)
    (by decide +kernel) hrelative true
  have hsources : sourcesIn generatedDisk ⟨"src"⟩ = [⟨"src/gen/a.ts"⟩] := by decide +kernel
  rw [hsources] at hbyConfig hnamed
  refine ⟨fun p hp => ?_, (hnamed _).mpr ⟨List.mem_cons_self, by decide +kernel⟩⟩
  obtain ⟨q, hq, -, hkept⟩ := (hbyConfig p).mp hp
  rw [List.mem_singleton.mp hq] at hkept
  exact absurd hkept (by decide +kernel)

/-- **The scans differ, and neither leaves out what it should.** An ignored
path is not looked for in the project where the directory is named, and a
pattern does not fit paths as they are seen from the root. -/
theorem scans_differ :
    (¬ ∀ (d : Disk) (dir : Path) (ignores : List String) (ignoreTests : Bool), d.root.Proper →
      dir.Relative → d.isDirectory dir = true →
      (∀ entry ∈ ignores, (Path.mk entry).isAbsolute = false) → ∀ q ∈ sourcesIn d dir,
        (q.under ⟨"."⟩ ∈ (ofDirectory d ⟨"."⟩ [dir.text] ignores ignoreTests).files ↔
          q ∈ (ofPaths d [dir] ignores ignoreTests).files)) ∧
    ¬ ∀ (d : Disk) (dir : Path) (ignores : List String) (ignoreTests : Bool), d.root.Proper →
      dir.Relative → d.isDirectory dir = true →
      (∀ entry ∈ ignores, (Path.mk entry).isAbsolute = false) → ∀ q ∈ sourcesIn d dir,
        (q.under ⟨"."⟩ ∈ (ofDirectory d ⟨"."⟩ [dir.text] ignores ignoreTests).files ↔
          ¬ LeftOut ignores ignoreTests q) := by
  have hsource : ⟨"src/gen/a.ts"⟩ ∈ sourcesIn generatedDisk ⟨"src"⟩ := by decide +kernel
  refine ⟨fun hall => ?_, fun hall => ?_⟩
  · have hsame := hall generatedDisk ⟨"src"⟩ ["src/gen"] true proper_generatedDisk (by decide)
      (by decide +kernel) (by decide) _ hsource
    exact absurd hsame (by decide +kernel)
  · have hright := hall generatedDisk ⟨"src"⟩ ["src/g*"] true proper_generatedDisk (by decide)
      (by decide +kernel) (by decide) _ hsource
    exact absurd hright (by decide +kernel)

/-! ## Patterns that overlook a dot

If all that is ignored are patterns of this kind, the two differences vanish,
and with them the conditions of the theorem. That is so for the usual
settings. -/

section

variable {ignores : List String}

/-- Test files are known by patterns that overlook a dot in front. -/
theorem overlooksDot_testFilePatterns : ∀ pattern ∈ testFilePatterns,
    (Glob.tokens pattern).toOption.all Glob.overlooksDot = true := by decide +kernel

/-- **Patterns that overlook a dot** stand for the same texts with and without
it. -/
theorem matched_dotted_iff
    (hpatterns : ∀ entry ∈ ignores, (Glob.tokens entry).toOption.all Glob.overlooksDot = true)
    (ignoreTests : Bool) (text : String) :
    Matched ignores ignoreTests ("./" ++ text) ↔ Matched ignores ignoreTests text := by
  have hmatch : ∀ pattern, (Glob.tokens pattern).toOption.all Glob.overlooksDot = true →
      Glob.isMatch pattern ("./" ++ text) = Glob.isMatch pattern text := by
    intro pattern hpattern
    rw [Glob.isMatch, Glob.isMatch]
    cases htokens : Glob.tokens pattern with
    | error fault => rfl
    | ok ts =>
      rw [htokens] at hpattern
      dsimp only
      rw [String.toList_append]
      exact Glob.admits_dotted hpattern text.toList
  refine exists_congr fun pattern => and_congr_right fun hpattern => ?_
  rw [hmatch pattern]
  rcases List.mem_append.mp hpattern with hpattern | hpattern
  · exact hpatterns pattern (List.mem_filter.mp hpattern).1
  · cases ignoreTests with
    | true => exact overlooksDot_testFilePatterns pattern hpattern
    | false => exact absurd hpattern (by simp)

/-- **With such patterns the scans agree**, and leave out what they should,
unless the directory is named with a dot in front. No literal entry may be
among the ignored ones, for these are what the two scans join to different
directories. -/
theorem scans_agree_of_overlooksDot {d : Disk} {dir : Path} (hproper : d.root.Proper)
    (hdir : dir.Relative) (hundotted : dir.pieces.head? ≠ some ".")
    (hplain : Glob.isPattern dir.text = false) (hdirectory : d.isDirectory dir = true)
    (hrelative : ∀ entry ∈ ignores, (Path.mk entry).isAbsolute = false)
    (hpatterns : ∀ entry ∈ ignores, Glob.isPattern entry = true ∧
      (Glob.tokens entry).toOption.all Glob.overlooksDot = true) (ignoreTests : Bool) :
    ∀ q ∈ sourcesIn d dir,
      (q.under ⟨"."⟩ ∈ (ofDirectory d ⟨"."⟩ [dir.text] ignores ignoreTests).files ↔
        ¬ LeftOut ignores ignoreTests q) ∧
      (q ∈ (ofPaths d [dir] ignores ignoreTests).files ↔ ¬ LeftOut ignores ignoreTests q) := by
  intro q hq
  -- there is no ignored path, and the path of a source is written from the
  -- root of the project on
  have hlisted : ∀ steps, ¬ Listed ignores steps := by
    rintro steps ⟨entry, hentry, hplain, -⟩
    rw [(hpatterns entry hentry).1] at hplain
    exact absurd hplain (by decide)
  have hundot : q.withoutDot = q := by
    obtain ⟨names, -, hnames, rfl⟩ := exists_names_of_mem_sourcesIn hproper hdirectory hq
    rw [← Path.head?_pieces_foldl_join hdir.1 hnames] at hundotted
    rw [Path.withoutDot]
    split
    · rename_i rest hpieces
      rw [hpieces] at hundotted
      exact absurd rfl hundotted
    · rfl
  have hseen : (q.under ⟨"."⟩).text = "./" ++ q.text := by
    rw [Path.under_text (by decide) (relative_of_mem_sourcesIn hproper hdirectory hdir hq),
      if_neg (by decide)]
    rfl
  rw [under_mem_ofDirectory_iff hproper hdir hdirectory hrelative ignoreTests rfl hplain hq,
    mem_ofPaths_iff hproper hdir hdirectory hrelative ignoreTests, and_iff_right hq, LeftOut, hundot,
    hseen, matched_dotted_iff (fun entry hentry => (hpatterns entry hentry).2)]
  simp only [hlisted, false_or, and_self]

/-- The usual settings ignore by such patterns. -/
example : ∀ entry ∈ ({} : Config).ignores, Glob.isPattern entry = true ∧
    (Glob.tokens entry).toOption.all Glob.overlooksDot = true := by decide +kernel

end

end Scan

end LocaleKeys
