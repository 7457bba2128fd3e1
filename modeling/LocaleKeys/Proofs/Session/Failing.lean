/-
Moves that fail.

A session moves on in a fixed order: the next locale becomes current, the
watcher is taken away, the files are listed, and only then is anything loaded.
The one part that may fail is the listing. So a move that fails has moved, and
nothing is watched behind it; but nothing was loaded either, so that whatever
was published is still there as it was (`Session.switch_eq_error_iff`).

That nothing else can fail needs the session to be one that was created, for
then there is a next locale. Settings are never changed, whichever calls
overlap (`Overlap.Does.frame`), so that the same list of locales is gone
through in every state that can be reached.
-/
import LocaleKeys.Proofs.Session.Newest

set_option autoImplicit false

namespace LocaleKeys

namespace Session

/-- **A move fails** if and only if the session is enabled and the files of the
next locale cannot be listed. By then this locale is current and the watcher
has been taken away; all else is as it was. -/
theorem switch_eq_error_iff {s s' : Session} {next : String}
    (hnext : Store.nextLocale? s.settings.supportedLocales s.locale = some next) {d : Disk} {now : Nat}
    {fault : ConfigFault} :
    s.switch d now = (s', .error fault) ↔
      s.settings.enabled = true ∧ s.localeFiles d next = .error fault ∧
        s' = { s with store := s.store.setLocale next, watcher := none } := by
  let moved : Session := { s with store := s.store.setLocale next }
  have hcycle : s.cycle = .ok (moved, next) := by
    rw [locale] at hnext
    rw [cycle, Store.cycle, hnext]
    rfl
  rw [switch, selectNext, hcycle]
  dsimp only
  -- moving on is what every such call does first, and what comes then depends
  -- on whether the session is enabled
  by_cases henabled : s.settings.enabled = true
  · rw [if_pos henabled, select, show moved.localeFiles d next = s.localeFiles d next from rfl]
    dsimp only
    cases s.localeFiles d next with
    | error fault' =>
      constructor
      · intro h
        obtain ⟨rfl, hfault⟩ := Prod.mk.inj h
        obtain rfl := Except.error.inj hfault
        exact ⟨henabled, rfl, rfl⟩
      · rintro ⟨-, hfault, rfl⟩
        obtain rfl := Except.error.inj hfault
        rfl
    | ok files =>
      -- files that were listed are loaded, and loading them does not fail
      refine iff_of_false (fun h => by cases (Prod.mk.inj h).2) ?_
      rintro ⟨-, hfault, -⟩
      exact absurd hfault (by simp)
  · rw [if_neg henabled]
    refine iff_of_false (fun h => by cases (Prod.mk.inj h).2) ?_
    rintro ⟨henabled', -⟩
    exact henabled henabled'

/-- What is published does not change the directory of the project. -/
theorem root_take (s : Session) (locale : String) (e : Option Evaluated) :
    (s.take locale e).root = s.root := by
  rcases e with - | ⟨p, - | m⟩
  · rfl
  · rfl
  · rfl

end Session

namespace Overlap

/-- No step changes the settings or the directory of the project. -/
theorem Does.frame {o o' : Overlap} {step : Happening} (h : o.Does step o') :
    o'.session.settings = o.session.settings ∧ o'.session.root = o.session.root := by
  cases h with
  | idle => exact ⟨rfl, rfl⟩
  | start d henabled => exact ⟨rfl, rfl⟩
  | switch d next hnext henabled => exact ⟨rfl, rfl⟩
  | move d next hnext hdisabled => exact ⟨rfl, rfl⟩
  | commit i outcome c hcall hnew => exact ⟨rfl, rfl⟩
  | install i now c hcall hcommitted hcurrent => exact ⟨rfl, rfl⟩
  | discard i now c hcall hcommitted hother => exact ⟨rfl, rfl⟩
  | kept u w hwatcher =>
    exact ⟨(o.session.take_frame w.locale (w.yielded? u)).1, o.session.root_take _ _⟩
  | stray i u w hretired =>
    exact ⟨(o.session.take_frame w.locale (w.yielded? u)).1, o.session.root_take _ _⟩
  | shutDown => exact ⟨rfl, rfl⟩

theorem frame_run (o : Overlap) (steps : List Happening) :
    (o.run steps).session.settings = o.session.settings ∧
      (o.run steps).session.root = o.session.root := by
  induction steps using List.reverseRecOn with
  | nil => exact ⟨rfl, rfl⟩
  | append_singleton steps step ih =>
    rw [run_append, run_singleton]
    obtain ⟨hsettings, hroot⟩ := ((o.run steps).does_perform step).frame
    exact ⟨hsettings.trans ih.1, hroot.trans ih.2⟩

/-- **What a failed move leaves.** In every state of a session, whichever calls
overlap, a move fails if and only if the session is enabled and the files of
the next locale cannot be listed. What is left then is the session as it was
before, with the same dictionaries and contributions and without an
announcement, but that the next locale is current and no watcher is installed
any more. -/
theorem failed_switch_iff {settings : Settings} {root : Path} {loader : Loader} {source : WatchSource}
    {s₀ : Session} (hcreate : Session.create settings root loader source = .ok s₀)
    (steps : List Happening) (d : Disk) (now : Nat) (s' : Session) (fault : ConfigFault) :
    let s := (run { session := s₀ } steps).session
    s.switch d now = (s', .error fault) ↔
      settings.enabled = true ∧
        ∃ next, Store.nextLocale? settings.supportedLocales s.locale = some next ∧
          localeFiles d settings.localePaths next root = .error fault ∧
          s' = { s with store := s.store.setLocale next, watcher := none } := by
  intro s
  obtain ⟨hsettings, hroot⟩ : s.settings = settings ∧ s.root = root := by
    obtain ⟨hsettings, hroot⟩ := frame_run { session := s₀ } steps
    obtain ⟨first, locales, -, rfl⟩ := Session.create_eq_ok hcreate
    exact ⟨hsettings, hroot⟩
  -- the current locale is one of those that are gone through, and so there is
  -- a next one
  have hmember : s.locale ∈ settings.supportedLocales :=
    (inStep_run (inStep_create hcreate) steps).member
  obtain ⟨next, hnext⟩ : ∃ next, Store.nextLocale? settings.supportedLocales s.locale = some next :=
    ⟨_, Store.nextLocale?_eq_following hmember⟩
  have hlisted : s.localeFiles d next = localeFiles d settings.localePaths next root := by
    rw [Session.localeFiles, hsettings, hroot]
  rw [Session.switch_eq_error_iff (hsettings ▸ hnext), hlisted, hsettings]
  constructor
  · rintro ⟨henabled, hfiles, hs'⟩
    exact ⟨henabled, next, hnext, hfiles, hs'⟩
  · rintro ⟨henabled, next', hnext', hfiles, hs'⟩
    obtain rfl := Option.some.inj (hnext.symm.trans hnext')
    exact ⟨henabled, hfiles, hs'⟩

/-- A project of two locales, one of which has a slash in its name. The
template can be read for the one without, and cannot for the other. -/
def slashedLocale : Settings :=
  { supportedLocales := ["e", "a/b"], localePaths := ["[" ++ localePlaceholder ++ "].json"] }

/-- The project of two locales is loaded and watched. Then the session moves on
to the locale that has a slash in its name, and fails. -/
theorem failed_switch_of_slash :
    let d : Disk := ⟨.directory [("e.json", .file (.ofText "\x7b\"a\":\"1\"\x7d" 1))], []⟩
    let s₀ : Session := ⟨slashedLocale, ⟨"."⟩, jsonLoader, .polling, .fresh "e", none, 0⟩
    let s := (run { session := s₀ } [.start d, .commit 0 (jsonLoader.messages d), .install 0 0]).session
    Session.create slashedLocale ⟨"."⟩ jsonLoader .polling = .ok s₀ ∧ s.watcher.isSome = true ∧
      s.announced = 1 ∧
      ∃ fault, s.switch d 0
        = ({ s with store := s.store.setLocale "a/b", watcher := none }, .error fault) := by
  intro d s₀ s
  have hcreate : Session.create slashedLocale ⟨"."⟩ jsonLoader .polling = .ok s₀ := rfl
  refine ⟨hcreate, by decide +kernel, by decide +kernel, ?_⟩
  obtain ⟨fault, hfiles⟩ : ∃ fault,
      localeFiles d slashedLocale.localePaths "a/b" ⟨"."⟩ = .error fault := ⟨_, rfl⟩
  exact ⟨fault, (failed_switch_iff hcreate _ d 0 _ fault).mpr
    ⟨rfl, "a/b", by decide +kernel, hfiles, rfl⟩⟩

/-- **A move that fails changes the session.** It has led to another locale,
and it has taken the watcher away. Both happen before the files of the next
locale are listed, which is what fails. -/
theorem failed_switch_changes :
    (¬ ∀ (settings : Settings) (root : Path) (loader : Loader) (source : WatchSource) (s₀ : Session),
      Session.create settings root loader source = .ok s₀ →
      ∀ (steps : List Happening) (d : Disk) (now : Nat) (s' : Session) (fault : ConfigFault),
        (run { session := s₀ } steps).session.switch d now = (s', .error fault) →
        s'.locale = (run { session := s₀ } steps).session.locale) ∧
    ¬ ∀ (settings : Settings) (root : Path) (loader : Loader) (source : WatchSource) (s₀ : Session),
      Session.create settings root loader source = .ok s₀ →
      ∀ (steps : List Happening) (d : Disk) (now : Nat) (s' : Session) (fault : ConfigFault),
        (run { session := s₀ } steps).session.switch d now = (s', .error fault) →
        s'.watcher = (run { session := s₀ } steps).session.watcher := by
  let s₀ : Session := ⟨slashedLocale, ⟨"."⟩, jsonLoader, .polling, .fresh "e", none, 0⟩
  let steps : List Happening := [.start {}, .commit 0 (jsonLoader.messages {}), .install 0 0]
  let s := (run { session := s₀ } steps).session
  have hcreate : Session.create slashedLocale ⟨"."⟩ jsonLoader .polling = .ok s₀ := rfl
  obtain ⟨fault, hfiles⟩ : ∃ fault,
      localeFiles {} slashedLocale.localePaths "a/b" ⟨"."⟩ = .error fault := ⟨_, rfl⟩
  have hfails : s.switch {} 0
      = ({ s with store := s.store.setLocale "a/b", watcher := none }, .error fault) := by
    -- the move fails because the pattern of the next locale cannot be read
    obtain ⟨hsettings, hroot⟩ : s.settings = slashedLocale ∧ s.root = ⟨"."⟩ :=
      frame_run { session := s₀ } steps
    refine (Session.switch_eq_error_iff (by decide +kernel)).mpr ⟨by rw [hsettings]; rfl, ?_, rfl⟩
    rw [Session.localeFiles, hsettings, hroot]
    exact hfiles
  refine ⟨fun hall => ?_, fun hall => ?_⟩
  · have hlocale : "a/b" = s.locale := hall _ _ _ _ s₀ hcreate steps {} 0 _ fault hfails
    exact absurd hlocale (by decide +kernel)
  · have hwatcher : none = s.watcher := hall _ _ _ _ s₀ hcreate steps {} 0 _ fault hfails
    exact absurd hwatcher (by decide +kernel)

end Overlap

end LocaleKeys
