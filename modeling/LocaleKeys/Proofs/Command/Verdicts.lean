/-
Verdicts: what the status of a check says.

A check may fail in five places: the configuration, the locale that is asked
for, the files of the locale, the reading of a source and its analysis. Each
failure takes its own way to the status, as a fault that ends the command, as a
load that is not fine, or as a count in the summary. They all end in the same
status, and so the three statuses are told apart by two questions
(`check_verdicts`): whether everything could be loaded and analysed, and if so,
whether a key is missing.

The answer is as good as what was looked at. What a scan skips is counted and
not judged, so the two questions settle the status where nothing is skipped,
and elsewhere they only bound it: a status that is not an error still says that
all sources that were found could be analysed. A session that is not enabled is
another matter. It loads nothing on purpose, and no key counts as missing in
it.
-/
import LocaleKeys.Proofs.Command.Analysing
import LocaleKeys.Proofs.Command.Opening
import LocaleKeys.Proofs.Command.Scanning

set_option autoImplicit false

namespace LocaleKeys

/-- How a check comes to its status. -/
theorem finish_checkSources (paths : List Path) (showResolved : Bool) (options : CommonOptions)
    (σ : Surroundings) :
    ((checkSources paths showResolved options).finish σ).1 =
      match Project.named σ.disk options with
      | .error _ => .error
      | .ok p =>
        match (p.session.start σ.disk 0).2 with
        | .error _ => .error
        | .ok load =>
          if load.isFine then
            statusOf ({ p with session := (p.session.start σ.disk 0).1 }.outcomes σ.disk
              (p.scan σ.disk paths).files)
          else .error := by
  have hworst : ∀ status : ExitStatus, status.worse .error = .error := by
    intro status
    cases status <;> rfl
  obtain ⟨err, hopened⟩ := Project.run_opened_eq options σ
  rw [Run.finish]
  cases hnamed : Project.named σ.disk options with
  | error fault =>
    rw [hnamed] at hopened
    rw [checkSources, Run.run_bind, hopened]
  | ok p =>
    rw [hnamed] at hopened
    rw [checkSources, Run.run_bind_of_ok hopened]
    dsimp only
    rcases hstart : p.session.start σ.disk 0 with ⟨s, fault | load⟩
    · have hfailed := Project.run_started_of_error (σ := { σ with err := err }) hstart
      rw [Run.run_bind, hfailed]
    · have hstart' : p.session.start ({ σ with err := err } : Surroundings).disk 0 = (s, .ok load) :=
        hstart
      obtain ⟨err', hstarted⟩ := Project.run_started hstart'
      obtain ⟨err'', hsources⟩ :=
        Project.run_sources { p with session := s } paths { σ with err := err' }
      rw [Run.run_bind_of_ok hstarted]
      dsimp only
      rw [Run.run_bind_of_ok hsources]
      -- a load that is not fine makes the status an error, whatever the
      -- sources say
      cases hfine : load.isFine with
      | true => rfl
      | false => exact hworst _

/-- **What can be checked**: the project that is named, where the files of the
locale can be loaded and all sources can be analysed. -/
structure Project.Checkable (p : Project) (d : Disk) (options : CommonOptions) (paths : List Path)
    (files : List Path) : Prop where
  named : p.Named d options
  loads : p.session.Loads d files
  analyses : ∀ path ∈ (p.scan d paths).files, p.session.Analyses d path

/-- What is scanned are sources, whether paths are named or not. -/
theorem Project.isSource_of_mem_scan {p : Project} {d : Disk} {paths : List Path} {path : Path}
    (h : path ∈ (p.scan d paths).files) : Scan.isSource path = true := by
  rw [scan] at h
  split at h
  · exact Scan.isSource_of_mem_ofDirectory d h
  · exact Scan.isSource_of_mem_ofPaths h

section

variable {p p' : Project} {d : Disk} {options : CommonOptions} {paths files files' : List Path}

/-- There is one project to check at most, and one list of files to load. -/
theorem Project.Checkable.unique (h : p.Checkable d options paths files)
    (h' : p'.Checkable d options paths files') : p = p' ∧ files = files' := by
  have hnamed := Project.named_eq_ok_iff.mpr h.named
  obtain rfl : p = p' := Except.ok.inj (hnamed.symm.trans (Project.named_eq_ok_iff.mpr h'.named))
  refine ⟨rfl, ?_⟩
  have hloads := h.loads
  have hloads' := h'.loads
  rw [Session.Loads] at hloads hloads'
  by_cases henabled : p.session.settings.enabled = true
  · rw [if_pos henabled] at hloads hloads'
    exact Except.ok.inj (hloads.1.symm.trans hloads'.1)
  · rw [if_neg henabled] at hloads hloads'
    exact hloads.trans hloads'.symm

end

section

variable {p : Project} {d : Disk} {path : Path} (hsource : Scan.isSource path = true)
include hsource

/-- What can be analysed does not change when the session starts. -/
theorem Project.exists_report?_started_iff :
    (∃ r, ({ p with session := (p.session.start d 0).1 }.outcome d path).report? = some r) ↔
      p.session.Analyses d path := by
  obtain ⟨hsettings, -, -⟩ := p.session.start_frame d 0
  rw [exists_report?_iff hsource, Session.Analyses, Session.Analyses, hsettings]

/-- When the session has started, a key is missing that no file of the locale
has. -/
theorem Project.exists_missing_started_iff {options : CommonOptions} (hnamed : p.Named d options)
    {files : List Path} (hfiles : p.session.Loads d files) :
    (∃ r, ({ p with session := (p.session.start d 0).1 }.outcome d path).report? = some r ∧
        r.missing ≠ []) ↔ p.session.Misses d files path := by
  obtain ⟨loaded, -, -, -, -, hcreate⟩ := hnamed
  obtain ⟨first, locales, -, hsession⟩ := Session.create_eq_ok hcreate
  have hstore : p.session.store = .fresh first := by rw [hsession]; rfl
  obtain ⟨hsettings, -, -⟩ := p.session.start_frame d 0
  rw [exists_missing_iff hsource, Session.Misses]
  dsimp only
  rw [hsettings]
  refine and_congr_right fun henabled => ?_
  simp only [Session.mem_messages_start hstore henabled hfiles, not_exists, not_and]

end

/-- **What comes out of the sources** of a project that has started: one cannot
be analysed, or all can and a key is missing, or none is. -/
theorem Project.statusOf_outcomes_cases {p : Project} {d : Disk} {options : CommonOptions}
    (hnamed : p.Named d options) {files : List Path} (hfiles : p.session.Loads d files)
    (paths : List Path) :
    let sources := (p.scan d paths).files
    let status := statusOf ({ p with session := (p.session.start d 0).1 }.outcomes d sources)
    (status = .error ∧ ∃ path ∈ sources, ¬ p.session.Analyses d path) ∨
      (∀ path ∈ sources, p.session.Analyses d path) ∧
        ((status = .failure ∧ ∃ path ∈ sources, p.session.Misses d files path) ∨
          (status = .success ∧ ∀ path ∈ sources, ¬ p.session.Misses d files path)) := by
  intro sources status
  have hreport := fun path (hpath : path ∈ sources) =>
    exists_report?_started_iff (p := p) (d := d) (isSource_of_mem_scan hpath)
  have hmissing := fun path (hpath : path ∈ sources) =>
    exists_missing_started_iff (isSource_of_mem_scan hpath) hnamed hfiles
  -- an outcome without a report is that of a source that cannot be analysed
  rcases statusOf_cases ({ p with session := (p.session.start d 0).1 }.outcomes d sources) with
    ⟨⟨o, ho, hfailed⟩, hstatus⟩ | ⟨hanalysed, hverdict⟩
  · obtain ⟨path, hpath, rfl⟩ := List.mem_map.mp ho
    refine .inl ⟨hstatus, path, hpath, fun hanalyses => ?_⟩
    obtain ⟨r, hr⟩ := (hreport path hpath).mpr hanalyses
    rw [hfailed] at hr
    exact absurd hr (by simp)
  · rw [outcomes, List.forall_mem_map] at hanalysed
    refine .inr ⟨fun path hpath => (hreport path hpath).mp (hanalysed path hpath), ?_⟩
    rcases hverdict with ⟨⟨o, ho, hverdict⟩, hstatus⟩ | ⟨hverdict, hstatus⟩
    · obtain ⟨path, hpath, rfl⟩ := List.mem_map.mp ho
      exact .inl ⟨hstatus, path, hpath, (hmissing path hpath).mp hverdict⟩
    · rw [outcomes, List.forall_mem_map] at hverdict
      refine .inr ⟨hstatus, fun path hpath hmisses => ?_⟩
      obtain ⟨r, hr, hne⟩ := (hmissing path hpath).mpr hmisses
      exact hne (hverdict path hpath r hr)

/-- **A check fails, or finds a missing key, or neither.** The three cases go
by the status, and each says what has come out of the project and its sources,
so that the status is decided by these alone. -/
theorem check_cases (paths : List Path) (showResolved : Bool) (options : CommonOptions)
    (σ : Surroundings) :
    (((checkSources paths showResolved options).finish σ).1 = .error ∧
        ¬ ∃ (p : Project) (files : List Path), p.Checkable σ.disk options paths files) ∨
      ∃ (p : Project) (files : List Path), p.Checkable σ.disk options paths files ∧
        ((((checkSources paths showResolved options).finish σ).1 = .failure ∧
            ∃ path ∈ (p.scan σ.disk paths).files, p.session.Misses σ.disk files path) ∨
          (((checkSources paths showResolved options).finish σ).1 = .success ∧
            ∀ path ∈ (p.scan σ.disk paths).files, ¬ p.session.Misses σ.disk files path)) := by
  rw [finish_checkSources]
  -- no other project is named, so that this one would have to be loaded and
  -- analysed
  have hnone : ∀ {p : Project}, Project.named σ.disk options = .ok p →
      (¬ ∃ files, p.session.Loads σ.disk files ∧
        ∀ path ∈ (p.scan σ.disk paths).files, p.session.Analyses σ.disk path) →
      ¬ ∃ (p : Project) (files : List Path), p.Checkable σ.disk options paths files := by
    rintro p hnamed hnot ⟨p', files, h⟩
    obtain rfl := Except.ok.inj (hnamed.symm.trans (Project.named_eq_ok_iff.mpr h.named))
    exact hnot ⟨files, h.loads, h.analyses⟩
  cases hnamed : Project.named σ.disk options with
  | error fault =>
    refine .inl ⟨rfl, ?_⟩
    rintro ⟨p, files, h⟩
    rw [Project.named_eq_ok_iff.mpr h.named] at hnamed
    exact absurd hnamed (by simp)
  | ok p =>
    dsimp only
    by_cases hloads : ∃ load, (p.session.start σ.disk 0).2 = .ok load ∧ load.isFine = true
    · obtain ⟨files, hfiles⟩ := Session.exists_loads_iff.mp hloads
      obtain ⟨load, hload, hfine⟩ := hloads
      rw [hload]
      dsimp only
      rw [if_pos hfine]
      have hp := Project.named_eq_ok_iff.mp hnamed
      rcases Project.statusOf_outcomes_cases hp hfiles paths with
        ⟨hstatus, path, hpath, hfailed⟩ | ⟨hanalyses, hverdict⟩
      · refine .inl ⟨hstatus, hnone hnamed ?_⟩
        rintro ⟨files', -, hanalyses⟩
        exact hfailed (hanalyses path hpath)
      · exact .inr ⟨p, files, ⟨hp, hfiles, hanalyses⟩, hverdict⟩
    · -- the files of the locale cannot be listed, or one of them cannot be loaded
      have hnot : ¬ ∃ files, p.session.Loads σ.disk files ∧
          ∀ path ∈ (p.scan σ.disk paths).files, p.session.Analyses σ.disk path := by
        rintro ⟨files, hfiles, -⟩
        exact hloads (Session.exists_loads_iff.mpr ⟨files, hfiles⟩)
      refine .inl ⟨?_, hnone hnamed hnot⟩
      cases hload : (p.session.start σ.disk 0).2 with
      | error fault => rfl
      | ok load => exact if_neg fun hfine => hloads ⟨load, hload, hfine⟩

/-- The three codes, each with what it says. -/
theorem code_checkSources_iff (paths : List Path) (showResolved : Bool) (options : CommonOptions)
    (σ : Surroundings) :
    let d := σ.disk
    let code := ((checkSources paths showResolved options).finish σ).1.code
    (code = 0 ↔ ∃ (p : Project) (files : List Path), p.Checkable d options paths files ∧
        ∀ path ∈ (p.scan d paths).files, ¬ p.session.Misses d files path) ∧
      (code = 1 ↔ ∃ (p : Project) (files : List Path), p.Checkable d options paths files ∧
        ∃ path ∈ (p.scan d paths).files, p.session.Misses d files path) ∧
      (code = 2 ↔ ¬ ∃ (p : Project) (files : List Path), p.Checkable d options paths files) := by
  intro d code
  rcases check_cases paths showResolved options σ with
    ⟨hstatus, hnone⟩ | ⟨p, files, hp, ⟨hstatus, path, hpath, hmisses⟩ | ⟨hstatus, hmisses⟩⟩
  -- of three codes, each rules out the other two
  · have hcode : code = 2 := congrArg ExitStatus.code hstatus
    refine ⟨iff_of_false (by omega) ?_, iff_of_false (by omega) ?_, iff_of_true hcode hnone⟩
    · rintro ⟨p, files, hp, -⟩
      exact hnone ⟨p, files, hp⟩
    · rintro ⟨p, files, hp, -⟩
      exact hnone ⟨p, files, hp⟩
  · have hcode : code = 1 := congrArg ExitStatus.code hstatus
    refine ⟨iff_of_false (by omega) ?_, iff_of_true hcode ⟨p, files, hp, path, hpath, hmisses⟩,
      iff_of_false (by omega) (not_not_intro ⟨p, files, hp⟩)⟩
    rintro ⟨p', files', hp', hnone⟩
    obtain ⟨rfl, rfl⟩ := hp.unique hp'
    exact hnone path hpath hmisses
  · have hcode : code = 0 := congrArg ExitStatus.code hstatus
    refine ⟨iff_of_true hcode ⟨p, files, hp, hmisses⟩, iff_of_false (by omega) ?_,
      iff_of_false (by omega) (not_not_intro ⟨p, files, hp⟩)⟩
    rintro ⟨p', files', hp', path, hpath, hsome⟩
    obtain ⟨rfl, rfl⟩ := hp.unique hp'
    exact hmisses path hpath hsome

/-- **The status of a check.** It is zero only if the project can be checked
and no source uses a key that is missing, one only if it can be checked and a
source does, and two if it cannot be checked. Where the scan skips nothing the
three are told apart by this alone. Here the locale that is asked for is the
current one, and the sources are those of the paths that are named. Nothing is
skipped just where everything at each of these paths can be looked at. -/
theorem check_verdicts (paths : List Path) (showResolved : Bool) (options : CommonOptions)
    (σ : Surroundings) :
    let d := σ.disk
    let code := ((checkSources paths showResolved options).finish σ).1.code
    (code = 0 → ∃ (p : Project) (files : List Path), p.Checkable d options paths files ∧
        ∀ path ∈ (p.scan d paths).files, ¬ p.session.Misses d files path) ∧
      (code = 1 → ∃ (p : Project) (files : List Path), p.Checkable d options paths files ∧
        ∃ path ∈ (p.scan d paths).files, p.session.Misses d files path) ∧
      ((¬ ∃ (p : Project) (files : List Path), p.Checkable d options paths files) → code = 2) ∧
      ∀ p : Project, p.Named d options →
        let scan := p.scan d paths
        (∀ locale, options.locale = some locale → p.session.locale = locale) ∧
          (scan.skipped = 0 →
            (code = 0 ↔ ∃ files, p.Checkable d options paths files ∧
                ∀ path ∈ scan.files, ¬ p.session.Misses d files path) ∧
              (code = 1 ↔ ∃ files, p.Checkable d options paths files ∧
                ∃ path ∈ scan.files, p.session.Misses d files path) ∧
              (code = 2 ↔ ¬ ∃ files, p.Checkable d options paths files)) ∧
          (paths ≠ [] →
            let ignores := p.config.ignores
            let ignoreTests := p.config.ignoreTestFiles
            (scan.skipped = 0 ↔ ∀ path ∈ paths, Scan.Opens d path) ∧
              (∀ f ∈ scan.files, ∃ path ∈ paths, Scan.usable d path = true ∧
                f ∈ (Scan.ofPath d ignores ignoreTests path).files) ∧
              ∀ path ∈ paths, ∀ f ∈ (Scan.ofPath d ignores ignoreTests path).files,
                ∃ f' ∈ scan.files, f'.same f = true) := by
  intro d code
  obtain ⟨hsuccess, hfailure, herror⟩ := code_checkSources_iff paths showResolved options σ
  refine ⟨hsuccess.mp, hfailure.mp, herror.mpr, fun p hp => ?_⟩
  intro scan
  -- no other project is checkable, so that the one that is named can be left
  -- out of the questions
  have honly : ∀ {Q : Project → List Path → Prop},
      (∃ (p' : Project) (files : List Path), p'.Checkable d options paths files ∧ Q p' files) ↔
        ∃ files, p.Checkable d options paths files ∧ Q p files := by
    intro Q
    refine ⟨?_, fun ⟨files, hfiles, hQ⟩ => ⟨p, files, hfiles, hQ⟩⟩
    rintro ⟨p', files, hfiles, hQ⟩
    obtain rfl : p' = p := Except.ok.inj
      ((Project.named_eq_ok_iff.mpr hfiles.named).symm.trans (Project.named_eq_ok_iff.mpr hp))
    exact ⟨files, hfiles, hQ⟩
  refine ⟨fun locale => hp.locale_eq, fun _ => ⟨hsuccess.trans honly, hfailure.trans honly, ?_⟩,
    fun hpaths => ?_⟩
  · have hnone := honly (Q := fun _ _ => True)
    simp only [and_true] at hnone
    exact herror.trans (not_congr hnone)
  -- where paths are named, the project is not scanned by its configuration
  · have hscan : scan = Scan.ofPaths d paths p.config.ignores p.config.ignoreTestFiles :=
      if_neg (by simpa using hpaths)
    rw [hscan]
    exact ⟨Scan.skipped_ofPaths_eq_zero_iff paths, Scan.mem_ofPaths d paths _ _⟩

/-- A source that uses a key. -/
def keySource : FileTree :=
  .directory [("a.ts", .file (.ofText "let t=useI18n();t('k')" 1))]

/-- A directory is named, and a locale is asked for that has no files. Nothing
is skipped, and the key of the source inside is missing. -/
theorem check_verdicts_of_directory :
    let d : Disk := ⟨.directory [("src", keySource)], []⟩
    let paths : List Path := [⟨"src"⟩]
    let options : CommonOptions := { locale := some "en-US" }
    ((checkSources paths false options).finish { disk := d }).1.code = 1 ∧
      ∃ (p : Project) (files : List Path), p.Checkable d options paths files ∧
        p.session.locale = "en-US" ∧ (p.scan d paths).skipped = 0 ∧
        ∃ path ∈ (p.scan d paths).files, p.session.Misses d files path := by
  intro d paths options
  have hcode : ((checkSources paths false options).finish { disk := d }).1.code = 1 := by
    decide +kernel
  have hopens : ∀ path ∈ paths, Scan.Opens d path := by
    intro path hpath
    obtain rfl : path = ⟨"src"⟩ := List.mem_singleton.mp hpath
    exact ⟨by decide +kernel, by decide +kernel⟩
  obtain ⟨-, hfailure, -, hnamed⟩ := check_verdicts paths false options { disk := d }
  obtain ⟨p, _, hp, -⟩ := hfailure hcode
  obtain ⟨hlocale, hverdicts, hscan⟩ := hnamed p hp.named
  have hskipped := (hscan (by decide)).1.mpr hopens
  obtain ⟨files, hfiles, hmisses⟩ := (hverdicts hskipped).2.1.mp hcode
  exact ⟨hcode, p, files, hfiles, hlocale "en-US" rfl, hskipped, hmisses⟩

/-- **A check may pass although something was not checked**: a path that is
named and leads nowhere, or all key uses of a session that is not enabled. -/
theorem check_passes_unchecked :
    (¬ ∀ (paths : List Path) (showResolved : Bool) (options : CommonOptions) (σ : Surroundings),
      ((checkSources paths showResolved options).finish σ).1.code = 0 →
      ∀ path ∈ paths, Scan.usable σ.disk path = true) ∧
    ¬ ∀ (paths : List Path) (showResolved : Bool) (options : CommonOptions) (σ : Surroundings),
      ((checkSources paths showResolved options).finish σ).1.code = 0 →
      ∀ p : Project, p.Named σ.disk options → ∀ path ∈ (p.scan σ.disk paths).files,
        ∀ o, σ.disk.Outlines path o →
          ∀ use ∈ o.keyUses p.session.settings (o.bindings p.session.settings),
            ∃ files, p.session.localeFiles σ.disk p.session.locale = .ok files ∧
              ∃ f ∈ files, ∃ m, p.session.loader.messages σ.disk f = .ok m ∧
                use.key (o.bindings p.session.settings) ∈ m := by
  refine ⟨fun hall => ?_, fun hall => ?_⟩
  -- nothing is at the path, and yet the code is zero
  · have husable := hall [⟨"gone.ts"⟩] false {} { disk := {} } (by decide +kernel) ⟨"gone.ts"⟩
      List.mem_cons_self
    exact absurd husable (by decide +kernel)
  · let d : Disk := ⟨.directory [(configFileName, .file (.ofText "\x7b\"enabled\":false\x7d" 1)),
      ("src", keySource)], []⟩
    let settings : Settings := { enabled := false }
    let p : Project := ⟨{ settings }, ⟨"."⟩,
      ⟨settings, ⟨"."⟩, jsonLoader, .polling, .fresh "zh-CN", none, 0⟩, false⟩
    have hp : p.Named d {} :=
      ⟨⟨{ settings }, some ⟨"./.i18nlensrc.json"⟩⟩, rfl, rfl, rfl, rfl, rfl⟩
    have hpath : ⟨"./src/a.ts"⟩ ∈ (p.scan d []).files := by decide +kernel
    obtain ⟨o, ho, hused⟩ : ∃ o, Outline.ofSource .ts "let t=useI18n();t('k')" = .ok o ∧
        (!(o.keyUses settings (o.bindings settings)).isEmpty) = true :=
      exists_ok_of_any (by decide +kernel)
    have houtlines : d.Outlines ⟨"./src/a.ts"⟩ o := ⟨_, .ts, rfl, by decide +kernel, ho⟩
    obtain ⟨use, huse⟩ := List.exists_mem_of_ne_nil _ (by simpa using hused)
    obtain ⟨files, hfiles, f, hf, -⟩ := hall [] false {} { disk := d } (by decide +kernel) p hp _ hpath
      o houtlines use huse
    -- there are no files of the locale
    obtain ⟨files', hfiles', hnone⟩ : ∃ files', p.session.localeFiles d p.session.locale = .ok files' ∧
        files'.isEmpty = true := exists_ok_of_any (by decide +kernel)
    obtain rfl := Except.ok.inj (hfiles.symm.trans hfiles')
    exact absurd hf (by simp [List.isEmpty_iff.mp hnone])

end LocaleKeys
