/-
Opening and starting a project.

Options name a project: the configuration that is found says what it is, and a
locale that is asked for has to be one of the supported ones. Opening is to
find this project, or to say why there is none (`Project.run_opened_eq`,
`Project.named_eq_ok_iff`). Its session starts finely if the files of the
locale can be listed and loaded, and has then the keys of these files
(`Session.exists_loads_iff`, `Session.mem_messages_start`).
-/
import LocaleKeys.Proofs.Command.Agreement
import LocaleKeys.Proofs.Dictionary.Requests

set_option autoImplicit false

namespace LocaleKeys

namespace Session

/-! ## Starting

A session starts by loading the files of its locale. Three things may go wrong:
the files cannot be listed, one of them cannot be read, or one cannot be
parsed. The first ends the start, and the others are faults of a load that is
not fine. `Loads` says that none of them happens, and which files there are; a
session that is not enabled has no files and starts finely. -/

/-- The files of the current locale are these, and each of them can be loaded.
A session that is not enabled has none. -/
def Loads (s : Session) (d : Disk) (files : List Path) : Prop :=
  if s.settings.enabled = true then
    s.localeFiles d s.locale = .ok files ∧ ∀ f ∈ files, ∃ m, s.loader.messages d f = .ok m
  else files = []

/-- A load is fine if every file could be loaded. -/
theorem isFine_iff (s : Store) (loader : Loader) (d : Disk) (locale : String) (files : List Path) :
    (s.loadAll loader d locale files).2.isFine = true ↔
      ∀ f ∈ files, ∃ m, loader.messages d f = .ok m := by
  obtain ⟨-, hfaults, -⟩ := s.report_loadAll loader d locale files
  rw [LoadReport.isFine, hfaults, List.isEmpty_iff, List.filterMap_eq_nil_iff]
  apply forall₂_congr
  intro f _
  rw [Loader.fault?, Loader.messages]
  cases loader d f with
  | ok value => simp [Except.map]
  | error fault => simp [Except.map]

/-- A session that is enabled loads the files of its locale, if they can be
listed. -/
theorem start_loads {s : Session} {d : Disk} (henabled : s.settings.enabled = true) {files : List Path}
    (hfiles : s.localeFiles d s.locale = .ok files) :
    (s.start d 0).2 = .ok (s.store.loadAll s.loader d s.locale files).2 := by
  have hselected : (s.select d s.locale).2 = .ok ⟨s.locale, files⟩ := by
    rw [select, hfiles]
    rfl
  rw [start, if_pos henabled, activate]
  dsimp only
  rw [hselected]
  rfl

/-- **A session starts finely** if and only if all that it needs can be loaded.
A session that is not enabled loads nothing and needs nothing, and in one that
is, the files have to be listed and each of them loaded. -/
theorem exists_loads_iff {s : Session} {d : Disk} :
    (∃ load, (s.start d 0).2 = .ok load ∧ load.isFine = true) ↔ ∃ files, s.Loads d files := by
  by_cases henabled : s.settings.enabled = true
  · simp only [Loads, if_pos henabled]
    -- without a list of files there is no load, and with one it is the load of
    -- these files
    cases hfiles : s.localeFiles d s.locale with
    | error fault =>
      refine iff_of_false ?_ fun ⟨files, h, _⟩ => nomatch h
      rintro ⟨load, hload, -⟩
      exact nomatch (start_eq_error 0 henabled hfiles).symm.trans hload
    | ok files =>
      rw [start_loads henabled hfiles]
      constructor
      · rintro ⟨load, hload, hfine⟩
        obtain rfl := Except.ok.inj hload
        exact ⟨files, rfl, (isFine_iff _ _ _ _ _).mp hfine⟩
      · rintro ⟨files', hfiles', hloaded⟩
        obtain rfl := Except.ok.inj hfiles'
        exact ⟨_, rfl, (isFine_iff _ _ _ _ _).mpr hloaded⟩
  · simp only [Loads, if_neg henabled]
    rw [start, if_neg henabled]
    exact iff_of_true ⟨{}, rfl, rfl⟩ ⟨[], rfl⟩

/-- **Which keys a new session has** when it has started: those of the files of
its locale. -/
theorem mem_messages_start {s : Session} {first : String} (hstore : s.store = .fresh first) {d : Disk}
    (henabled : s.settings.enabled = true) {files : List Path} (hfiles : s.Loads d files)
    (key : String) :
    key ∈ (s.start d 0).1.messages ↔ ∃ f ∈ files, ∃ m, s.loader.messages d f = .ok m ∧ key ∈ m := by
  rw [Loads, if_pos henabled] at hfiles
  have hrun := (start_eq_ok 0 henabled hfiles.1).1
  obtain ⟨-, -, hlocale⟩ := s.start_frame d 0
  obtain ⟨n, hcoherent⟩ : ∃ n, (s.start d 0).1.store.Coherent (s.start d 0).1.locale n := by
    rw [hrun, hstore]
    exact ⟨_, Store.coherent_run first _ _⟩
  rw [mem_messages_iff hcoherent, hlocale, hrun, Store.run_singleton, Store.perform,
    Store.contributionsOf_commit, hstore, Store.contributionsOf_fresh, Contributions.mem_merged_iff]
  constructor
  · rintro ⟨f, hf, hkey⟩
    obtain ⟨hlisted, hloaded⟩ := Contributions.mem_files_of_evaluate.mp hf
    exact ⟨f.1, hlisted, f.2, hloaded, hkey⟩
  · rintro ⟨f, hlisted, m, hloaded, hkey⟩
    exact ⟨(f, m), Contributions.mem_files_of_evaluate.mpr ⟨hlisted, hloaded⟩, hkey⟩

end Session

/-! ## Opening

Opening is the part of a command that prints at most a complaint, about a
project without a configuration. `named` is what it computes otherwise, as a
function of the disk and the options, and `Named` is the same as a predicate:
which configuration counts, and how a locale that is asked for changes the
settings. -/

namespace Project

/-- The project that options name: it is configured as the configuration says
that is found, and if a locale is asked for, this is one of the supported
locales and comes first. -/
def Named (d : Disk) (options : CommonOptions) (p : Project) : Prop :=
  ∃ loaded, loadConfig d (options.root.getD ⟨"."⟩) = .ok loaded ∧
    p.root = loaded.root (options.root.getD ⟨"."⟩) ∧ p.verbose = options.verbose ∧
    (match options.locale with
      | none => p.config = loaded.config
      | some locale => locale ∈ loaded.config.settings.supportedLocales ∧
        p.config = { loaded.config with settings := { loaded.config.settings with
          supportedLocales := rotatedTo locale loaded.config.settings.supportedLocales } }) ∧
    Session.create p.config.settings p.root jsonLoader .polling = .ok p.session

/-- The project that options name, or why there is none. -/
def named (d : Disk) (options : CommonOptions) : Except CommandFault Project :=
  match loadConfig d (options.root.getD ⟨"."⟩) with
  | .error fault => .error (.config fault)
  | .ok loaded => do
    let settings ← match options.locale with
      | some locale => loaded.config.settings.selectLocale locale
      | none => .ok loaded.config.settings
    let root := loaded.root (options.root.getD ⟨"."⟩)
    let session ← (Session.create settings root jsonLoader .polling).mapError .config
    return ⟨{ loaded.config with settings }, root, session, options.verbose⟩

/-- To open a project is to find the one that is named. -/
theorem run_opened_eq (options : CommonOptions) (σ : Surroundings) :
    ∃ err, (opened options).run σ = (named σ.disk options, { σ with err := err }) := by
  rw [opened, named, Run.run_bind_of_ok (show Run.disk.run σ = (.ok σ.disk, σ) from rfl)]
  cases loadConfig σ.disk (options.root.getD ⟨"."⟩) with
  | error fault => exact ⟨σ.err, rfl⟩
  | ok loaded =>
    rw [Run.run_bind_of_ok (show (Run.ofConfig (.ok loaded)).run σ = (.ok loaded, σ) from rfl)]
    dsimp only
    have hcreated : ∀ (settings : Settings) (σ : Surroundings), ((do
        let session ← Run.ofConfig
          (Session.create settings (loaded.root (options.root.getD ⟨"."⟩)) jsonLoader .polling)
        return ⟨{ loaded.config with settings }, loaded.root (options.root.getD ⟨"."⟩), session,
          options.verbose⟩ : Run Project)).run σ
        = ((do
        let session ← (Session.create settings (loaded.root (options.root.getD ⟨"."⟩)) jsonLoader
          .polling).mapError .config
        return ⟨{ loaded.config with settings }, loaded.root (options.root.getD ⟨"."⟩), session,
          options.verbose⟩ : Except CommandFault Project), σ) := by
      intro settings σ
      cases Session.create settings _ jsonLoader .polling <;> rfl
    -- whether something is complained of first makes no difference to what
    -- follows
    split
    all_goals
      cases options.locale with
      | none => exact ⟨_, hcreated _ _⟩
      | some locale =>
        dsimp only
        cases loaded.config.settings.selectLocale locale with
        | error fault => exact ⟨_, rfl⟩
        | ok settings => exact ⟨_, hcreated _ _⟩

/-- **What options name** is what is found. This turns the program that opens a
project into the conditions that it checks one after the other. -/
theorem named_eq_ok_iff {d : Disk} {options : CommonOptions} {p : Project} :
    named d options = .ok p ↔ p.Named d options := by
  have hcreated : ∀ (loaded : LoadedConfig) (settings : Settings), (do
      let session ← (Session.create settings (loaded.root (options.root.getD ⟨"."⟩)) jsonLoader
        .polling).mapError .config
      return ⟨{ loaded.config with settings }, loaded.root (options.root.getD ⟨"."⟩), session,
        options.verbose⟩ : Except CommandFault Project) = .ok p ↔
      p.config = { loaded.config with settings } ∧ p.root = loaded.root (options.root.getD ⟨"."⟩) ∧
        p.verbose = options.verbose ∧
        Session.create p.config.settings p.root jsonLoader .polling = .ok p.session := by
    intro loaded settings
    obtain ⟨config, root, session, verbose⟩ := p
    constructor
    · intro h
      obtain ⟨session', hsession, h⟩ := bind_eq_ok_iff.mp h
      obtain ⟨rfl, rfl, rfl, rfl⟩ := Project.mk.inj (Except.ok.inj h)
      exact ⟨rfl, rfl, rfl, mapError_eq_ok_iff.mp hsession⟩
    · rintro ⟨rfl, rfl, rfl, hsession⟩
      exact bind_eq_ok_iff.mpr ⟨session, mapError_eq_ok_iff.mpr hsession, rfl⟩
  -- the parts of the predicate come in another order
  have hturned : ∀ {a b c e : Prop}, a ∧ b ∧ c ∧ e ↔ b ∧ c ∧ a ∧ e := by
    intro a b c e
    exact and_left_comm.trans (and_congr_right' and_left_comm)
  -- the two ways to come by the settings end in the same creation of the
  -- session
  rw [named, Named]
  cases loadConfig d (options.root.getD ⟨"."⟩) with
  | error fault =>
    refine iff_of_false (by simp) ?_
    rintro ⟨loaded, h, -⟩
    exact absurd h (by simp)
  | ok loaded =>
    simp only [Except.ok.injEq, exists_eq_left']
    cases options.locale with
    | none =>
      refine (hcreated loaded loaded.config.settings).trans ?_
      exact hturned
    | some locale =>
      dsimp only
      rw [Settings.selectLocale]
      by_cases hmember : locale ∈ loaded.config.settings.supportedLocales
      · rw [if_pos (List.contains_iff_mem.mpr hmember), and_iff_right hmember]
        refine (hcreated loaded _).trans ?_
        exact hturned
      · rw [if_neg fun h => hmember (List.contains_iff_mem.mp h)]
        refine iff_of_false (fun h => by cases h) ?_
        rintro ⟨-, -, ⟨h, -⟩, -⟩
        exact hmember h

/-- Rotated to a locale, this locale comes first. -/
theorem head?_rotatedTo {locale : String} {locales : List String} (h : locale ∈ locales) :
    (rotatedTo locale locales).head? = some locale := by
  have hrest : (locales.dropWhile (· != locale)).head? = some locale := by
    induction locales with
    | nil => exact absurd h (by simp)
    | cons first locales ih =>
      rw [List.dropWhile_cons]
      by_cases hfirst : first = locale
      · rw [hfirst, bne_self_eq_false, if_neg Bool.false_ne_true, List.head?_cons]
      · rw [if_pos (bne_iff_ne.mpr hfirst)]
        exact ih (List.mem_of_ne_of_mem (Ne.symm hfirst) h)
  rw [rotatedTo, List.head?_append, hrest]
  rfl

/-- The locale that is asked for is the current one. -/
theorem Named.locale_eq {d : Disk} {options : CommonOptions} {p : Project} (h : p.Named d options)
    {locale : String} (hasked : options.locale = some locale) : p.session.locale = locale := by
  obtain ⟨loaded, -, -, -, hconfig, hcreate⟩ := h
  rw [hasked] at hconfig
  obtain ⟨hmember, hconfig⟩ := hconfig
  obtain ⟨first, locales, hlocales, hsession⟩ := Session.create_eq_ok hcreate
  have hfirst : p.config.settings.supportedLocales.head? = some locale := by
    rw [hconfig]
    exact head?_rotatedTo hmember
  rw [hlocales] at hfirst
  rw [hsession]
  exact Option.some.inj hfirst

end Project

/-- A project whose session does not start cannot be started. -/
theorem Project.run_started_of_error {p : Project} {σ : Surroundings} {s : Session} {fault : ConfigFault}
    (h : p.session.start σ.disk 0 = (s, .error fault)) :
    p.started.run σ = (.error (.config fault), σ) := by
  rw [started, Run.run_bind_of_ok (show Run.disk.run σ = (.ok σ.disk, σ) from rfl), h]
  rfl

end LocaleKeys
