/-
What accepted patterns promise.

A configuration is accepted if its patterns can be read as they are written,
each of them as a whole and each template with an ordinary word for the locale.
They are used in another way: with the name of a locale spelled out, behind the
directory of the project, and step by step. The directory does no harm,
whatever its name (`Glob.stepsReadable_below`), and neither does the second
reading of what is left out, which is the first one over again. What acceptance
does not promise is that every step can be read. So a template or an included
pattern that was accepted can be used if and only if its own steps can be read,
and nothing else is asked of the locale, the directory or the files
(`accepted_patterns_usable_iff`).
-/
import LocaleKeys.Command.Scan
import LocaleKeys.Proofs.Glob.Steps

set_option autoImplicit false

namespace LocaleKeys

/-! ## What is accepted

A check stops at the first fault. That it was passed says that each of its
parts was, and nothing about their order is needed here. Of the checks on
settings only the one on templates matters for what follows, and of the one on
templates only that the placeholder is there: that the template could be read
with an ordinary word for the locale says nothing about other names. -/

/-- A template that is accepted has the placeholder. -/
theorem hasPlaceholder_of_checkTemplate {template : String} (h : checkTemplate template = .ok ()) :
    hasPlaceholder template = true := by
  cases hplaceholder : hasPlaceholder template with
  | true => rfl
  | false =>
    rw [checkTemplate, hplaceholder] at h
    exact absurd h (by simp)

/-- A pattern is accepted if it can be read as a whole. -/
theorem checkPattern_eq_ok_iff {field pattern : String} :
    checkPattern field pattern = .ok () ↔ ∃ ts, Glob.tokens pattern = .ok ts := by
  rw [checkPattern]
  cases Glob.tokens pattern <;> simp

/-- Settings that are accepted have only templates that are. -/
theorem Settings.checkTemplate_of_check {s : Settings} (h : s.check = .ok ()) :
    ∀ template ∈ s.localePaths, checkTemplate template = .ok () := by
  rw [check] at h
  -- locales, hooks and keys are checked in front of the templates
  split at h
  · exact absurd h (by simp)
  split at h
  · exact absurd h (by simp)
  split at h
  · exact absurd h (by simp)
  exact forM_eq_ok_iff.mp h

/-- A configuration that is accepted has settings that are, and nothing is left
out by what is no pattern. -/
theorem Config.check_eq_ok {c : Config} (h : c.check = .ok ()) :
    c.settings.check = .ok () ∧ ∀ pattern ∈ c.ignores, ∃ ts, Glob.tokens pattern = .ok ts := by
  rw [check] at h
  obtain ⟨_, hsettings, h⟩ := bind_eq_ok_iff.mp h
  obtain ⟨_, hignores, -⟩ := bind_eq_ok_iff.mp h
  refine ⟨hsettings, fun pattern hpattern => ?_⟩
  exact checkPattern_eq_ok_iff.mp (forM_eq_ok_iff.mp hignores pattern hpattern)

/-! ## Templates

A template is turned into the pattern that is searched for: the name of the
locale is put in, with its special characters spelled out, and a relative one
is put behind the directory. Both a relative and an absolute pattern can be
searched for if and only if the steps of the template can be read, since the
directory contributes only steps that can be. -/

/-- **The files of a template can be listed** if and only if its steps can be
read, where the name of the locale stands for itself. The root that is put in
front is escaped, and so it can be read, whatever it is. -/
theorem exists_filesOfTemplate_iff {template : String} (h : hasPlaceholder template = true) (d : Disk)
    (locale : String) (root : Path) :
    (∃ files, filesOfTemplate d template locale root = .ok files) ↔
      Glob.StepsReadable (Text.replaced template localePlaceholder (Glob.escape locale)) := by
  obtain ⟨pattern, hpattern, hsteps⟩ : ∃ pattern, expandTemplate template locale root = .ok pattern ∧
      (Glob.StepsReadable pattern ↔
        Glob.StepsReadable (Text.replaced template localePlaceholder (Glob.escape locale))) := by
    rw [expandTemplate, h]
    -- whether the template is absolute is seen after the locale is put in
    by_cases habsolute : (Path.mk
        (Text.replaced template localePlaceholder (Glob.escape locale))).isAbsolute = true
    · exact ⟨_, if_pos habsolute, Iff.rfl⟩
    · exact ⟨_, if_neg habsolute, Glob.stepsReadable_below⟩
  rw [← hsteps, ← Glob.exists_find_iff (d := d)]
  -- a search that fails is the only way in which the listing fails
  constructor
  · rintro ⟨files, hfiles⟩
    obtain ⟨pattern', hpattern', hfiles⟩ := bind_eq_ok_iff.mp hfiles
    obtain rfl := Except.ok.inj (hpattern.symm.trans hpattern')
    cases hfound : Glob.find d pattern with
    | ok found => exact ⟨found, rfl⟩
    | error fault =>
      rw [hfound] at hfiles
      exact absurd hfiles throw_ne_ok
  · rintro ⟨found, hfound⟩
    refine ⟨found.filter d.isFile, bind_eq_ok_iff.mpr ⟨pattern, hpattern, ?_⟩⟩
    rw [hfound]
    rfl

/-- The files of a locale can be listed if and only if those of every template
can. -/
theorem exists_localeFiles_iff {d : Disk} {templates : List String} {locale : String} {root : Path} :
    (∃ files, localeFiles d templates locale root = .ok files) ↔
      ∀ template ∈ templates, ∃ files, filesOfTemplate d template locale root = .ok files := by
  rw [← exists_mapM_eq_ok_iff]
  constructor
  · rintro ⟨files, h⟩
    obtain ⟨found, hfound, -⟩ := bind_eq_ok_iff.mp h
    exact ⟨found, hfound⟩
  · rintro ⟨found, hfound⟩
    exact ⟨_, bind_eq_ok_iff.mpr ⟨found, hfound, rfl⟩⟩

/-! ## Included and ignored patterns

An entry for sources is searched for if it looks like a pattern, and what
cannot be searched for leads nowhere. That loses the fault without a word, so
it is said here which of two equal answers was given. Patterns for what is left
out are read a second time, and those that cannot be read are dropped; none is,
since all of them were accepted. -/

namespace Scan

/-- The pattern that an entry is in the directory `base`. -/
def includePattern (base : Path) (entry : String) : String :=
  expandTemplate.withoutSlashes (Glob.escape base.text) ++ "/" ++ entry

/-- Where an included pattern leads to: to the directories that it stands for,
and nowhere if it cannot be searched for. -/
theorem place_of_isPattern {entry : String} (h : Glob.isPattern entry = true) (d : Disk) (base : Path) :
    places.place d base entry = match Glob.find d (includePattern base entry) with
      | .ok found => found.filter d.isDirectory
      | .error _ => [] := by
  rw [places.place, if_pos h]
  cases hfound : Glob.find d (includePattern base entry) <;>
    simp only [includePattern, expandTemplate.withoutSlashes] at hfound <;> simp only [hfound]

/-- Where every text is a pattern, none is dropped. -/
theorem map_some_filterMap_tokens? {patterns : List String}
    (h : ∀ pattern ∈ patterns, (tokens? pattern).isSome = true) :
    (patterns.filterMap tokens?).map some = patterns.map tokens? := by
  induction patterns with
  | nil => rfl
  | cons pattern patterns ih =>
    obtain ⟨hpattern, hpatterns⟩ := List.forall_mem_cons.mp h
    obtain ⟨ts, hts⟩ := Option.isSome_iff_exists.mp hpattern
    rw [List.filterMap_cons_some hts, List.map_cons, List.map_cons, ih hpatterns, hts]

end Scan

/-! ## The whole configuration

The three parts are put together for any configuration that is accepted. The
condition is one on the texts of the configuration alone: no disk, directory or
locale can make an accepted pattern useless if its steps can be read. -/

/-- **Accepted patterns can be used if and only if their steps can be read.**
For every locale, directory and disk, the files of the locale can be listed if
and only if the steps of all templates can be read, with the name of the locale
in them. An included pattern is searched for if and only if its steps can be
read. And no pattern for what is left out is dropped. -/
theorem accepted_patterns_usable_iff {c : Config} (h : c.check = .ok ()) :
    (∀ (d : Disk) (locale : String) (root : Path),
      (∃ files, localeFiles d c.settings.localePaths locale root = .ok files) ↔
        ∀ template ∈ c.settings.localePaths,
          Glob.StepsReadable (Text.replaced template localePlaceholder (Glob.escape locale))) ∧
    (∀ (d : Disk) (base : Path), ∀ entry ∈ c.includes, Glob.isPattern entry = true →
      ((∃ found, Glob.find d (Scan.includePattern base entry) = .ok found ∧
          Scan.places.place d base entry = found.filter d.isDirectory) ↔
        Glob.StepsReadable entry)) ∧
    ∀ (base : Path) (ignoreTests : Bool),
      (Scan.Exclusions.of base c.ignores ignoreTests).patterns.map some
        = (c.ignores.filter Glob.isPattern ++ if ignoreTests then testFilePatterns else []).map
            Scan.tokens? := by
  obtain ⟨hsettings, hignores⟩ := Config.check_eq_ok h
  refine ⟨fun d locale root => ?_, fun d base entry _ hentry => ?_, fun base ignoreTests => ?_⟩
  · rw [exists_localeFiles_iff]
    apply forall₂_congr
    intro template htemplate
    have haccepted := Settings.checkTemplate_of_check hsettings template htemplate
    exact exists_filesOfTemplate_iff (hasPlaceholder_of_checkTemplate haccepted) d locale root
  · have hfind : (∃ found, Glob.find d (Scan.includePattern base entry) = .ok found) ↔
        Glob.StepsReadable entry := Glob.exists_find_iff.trans Glob.stepsReadable_below
    rw [← hfind, Scan.place_of_isPattern hentry]
    constructor
    · rintro ⟨found, hfound, -⟩
      exact ⟨found, hfound⟩
    · rintro ⟨found, hfound⟩
      exact ⟨found, hfound, by rw [hfound]⟩
  · -- what is left out was read when it was accepted, and the names of test files are patterns
    have hread : ∀ pattern ∈ c.ignores.filter Glob.isPattern ++
        (if ignoreTests then testFilePatterns else []), (Scan.tokens? pattern).isSome = true := by
      intro pattern hpattern
      rcases List.mem_append.mp hpattern with hpattern | hpattern
      · obtain ⟨ts, hts⟩ := hignores pattern (List.mem_filter.mp hpattern).1
        rw [Scan.tokens?, hts]
        rfl
      · have htests : ∀ pattern ∈ testFilePatterns, (Scan.tokens? pattern).isSome = true := by
          decide +kernel
        cases ignoreTests with
        | true => exact htests pattern hpattern
        | false => exact absurd hpattern (by simp)
    exact Scan.map_some_filterMap_tokens? hread

/-- Brackets in a template, in an included pattern, in the name of a locale and
in that of the directory. -/
theorem accepted_patterns_usable_of_brackets :
    let c : Config :=
      { settings :=
          { supportedLocales := ["zh[Hant]"], localePaths := ["[a-c]*/**/" ++ localePlaceholder] }
        includes := ["app/[!x]*"] }
    c.check = .ok () ∧
      (∃ files, localeFiles {} c.settings.localePaths "zh[Hant]" ⟨"/work[1]/"⟩ = .ok files) ∧
      ∃ found, Glob.find {} (Scan.includePattern ⟨"/work[1]/"⟩ "app/[!x]*") = .ok found := by
  intro c
  have haccepted : c.check = .ok () := rfl
  obtain ⟨htemplates, hincludes, -⟩ := accepted_patterns_usable_iff haccepted
  refine ⟨haccepted, (htemplates {} _ _).mpr (by decide +kernel), ?_⟩
  obtain ⟨found, hfound, -⟩ := (hincludes {} ⟨"/work[1]/"⟩ "app/[!x]*" List.mem_cons_self
    (by decide +kernel)).mpr (by decide +kernel)
  exact ⟨found, hfound⟩

/-- **Brackets with a slash in them are accepted, but of no use.** Neither can
the files of a locale be listed by such a template, nor is such an included
pattern searched for. -/
theorem bracketed_slash_unusable :
    (¬ ∀ c : Config, c.check = .ok () →
      ∀ (d : Disk), ∀ locale ∈ c.settings.supportedLocales, ∀ root : Path,
        ∃ files, localeFiles d c.settings.localePaths locale root = .ok files) ∧
    ¬ ∀ c : Config, c.check = .ok () →
      ∀ (d : Disk) (base : Path), ∀ entry ∈ c.includes, Glob.isPattern entry = true →
        ∃ found, Glob.find d (Scan.includePattern base entry) = .ok found := by
  let c : Config :=
    { settings :=
        { supportedLocales := ["en"], localePaths := ["a[/]" ++ localePlaceholder ++ ".json"] }
      includes := ["a[/]*"] }
  -- a bracket with a slash in it is one token to the check, and two steps to
  -- the search
  have haccepted : c.check = .ok () := rfl
  refine ⟨fun hall => ?_, fun hall => ?_⟩
  · have hlisted := exists_localeFiles_iff.mp (hall c haccepted {} "en" List.mem_cons_self ⟨"."⟩)
    have hread := (exists_filesOfTemplate_iff (by decide +kernel) {} "en" ⟨"."⟩).mp
      (hlisted _ List.mem_cons_self)
    exact absurd hread (by decide +kernel)
  · have hfound := hall c haccepted {} ⟨"."⟩ "a[/]*" List.mem_cons_self (by decide +kernel)
    exact absurd (Glob.exists_find_iff.mp hfound) (by decide +kernel)

end LocaleKeys
