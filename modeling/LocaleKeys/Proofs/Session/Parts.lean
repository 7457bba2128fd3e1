/-
What each part of a call does.

A call that makes a locale active selects it, publishes what was loaded, and
installs a watcher. Each part changes little of the session, and what it leaves
alone is what arguments about whole calls and about calls that overlap go by.

The three kinds of calls, to start, to move on and to move on twice at once,
differ in what comes before and not in the parts. So what holds of a session
through every call is shown for the parts, once, and carried over to the calls
(`Session.calls_keep`).
-/
import LocaleKeys.Proofs.Files.Sameness
import LocaleKeys.Proofs.Outcomes
import LocaleKeys.Session.Basic

set_option autoImplicit false

namespace LocaleKeys

/-! ## The files of a locale

What is listed for a locale are files that were there, no two of them the same.
Both are needed later: a poller remembers one stamp for each file, and a path
that is no file would have none. -/

/-- Patterns stand for files that are there, one after the other. -/
theorem isFile_of_mem_mapM {d : Disk} {locale : String} {root : Path} {templates : List String}
    {found : List (List Path)}
    (h : templates.mapM (filesOfTemplate d · locale root) = .ok found) :
    ∀ p ∈ found.flatten, d.isFile p = true := by
  induction templates generalizing found with
  | nil =>
    obtain rfl := Except.ok.inj h
    simp
  | cons template templates ih =>
    rw [List.mapM_cons] at h
    obtain ⟨files, hfirst, h⟩ := bind_eq_ok_iff.mp h
    obtain ⟨rest, hrest, h⟩ := bind_eq_ok_iff.mp h
    obtain rfl := Except.ok.inj h
    intro p hp
    rcases List.mem_append.mp hp with hp | hp
    · -- a template stands for files only
      obtain ⟨pattern, -, hfiles⟩ := bind_eq_ok_iff.mp hfirst
      split at hfiles
      · obtain rfl := Except.ok.inj hfiles
        exact (List.mem_filter.mp hp).2
      · exact absurd hfiles throw_ne_ok
    · exact ih hrest p hp

/-- The files of the activation are files on the disk, and no two of them are
the same. -/
structure Activation.Listed (a : Activation) (d : Disk) : Prop where
  apart : Path.Apart a.files
  isFile : ∀ p ∈ a.files, d.isFile p = true

namespace Session

/-- A session at its start: the first locale is current, and nothing was loaded
yet. -/
theorem create_eq_ok {settings : Settings} {root : Path} {loader : Loader} {source : WatchSource}
    {s : Session} (h : create settings root loader source = .ok s) :
    ∃ first locales, settings.supportedLocales = first :: locales ∧
      s = { settings, root, loader, source, store := { current := first } } := by
  rw [create] at h
  obtain ⟨_, -, h⟩ := bind_eq_ok_iff.mp h
  cases hlocales : settings.supportedLocales with
  | nil =>
    rw [hlocales] at h
    exact absurd h throw_ne_ok
  | cons first locales =>
    rw [hlocales] at h
    exact ⟨first, locales, rfl, (Except.ok.inj h).symm⟩

/-- Moving on changes the current locale and nothing else. -/
theorem cycle_eq_ok {s s' : Session} {next : String} (h : s.cycle = .ok (s', next)) :
    Store.nextLocale? s.settings.supportedLocales s.locale = some next ∧
      s' = { s with store := s.store.setLocale next } := by
  rw [cycle, Store.cycle] at h
  rw [locale]
  cases hnext : Store.nextLocale? s.settings.supportedLocales s.store.current with
  | none => rw [hnext] at h; exact absurd h (by simp)
  | some next' =>
    rw [hnext] at h
    obtain ⟨rfl, rfl⟩ := Prod.mk.inj (Except.ok.inj h)
    exact ⟨rfl, rfl⟩

/-- What is selected is an activation of the locale, with its files as they are
on the disk. -/
theorem select_eq_ok {s : Session} {d : Disk} {locale : String} {a : Activation}
    (h : (s.select d locale).2.toOption = some a) : a.locale = locale ∧ a.Listed d := by
  rw [select, localeFiles, LocaleKeys.localeFiles] at h
  cases hfound : s.settings.localePaths.mapM (filesOfTemplate d · locale s.root) with
  | error fault =>
    rw [hfound] at h
    exact absurd h (by simp [bind, Except.bind, Except.map, Except.toOption])
  | ok found =>
    rw [hfound] at h
    obtain rfl := Option.some.inj h
    exact ⟨rfl, Path.apart_distinct _,
      fun p hp => isFile_of_mem_mapM hfound p (Path.mem_of_mem_distinct hp)⟩

section

variable (s : Session) (d : Disk) (now : Nat)

/-- No part of a call changes how files are loaded. -/
theorem loader_finish (a : Activation) : (s.finish d now a).1.loader = s.loader := by
  rw [finish]
  dsimp only
  rw [install]
  split <;> rfl

/-! ## Calls as they go on

A selection ends with an activation or without one. The equations here take
both together, with `Option.elim` over what is pending, so that a call can be
followed without splitting cases at each part. -/

/-- Making a locale active is to select it, and to go on if its files could be
listed. -/
theorem activate_eq (locale : String) :
    (s.activate d now locale).1
      = (s.select d locale).2.toOption.elim (s.select d locale).1
          fun a => ((s.select d locale).1.finish d now a).1 := by
  rw [activate]
  dsimp only
  cases (s.select d locale).2 with
  | error fault => rfl
  | ok a => rfl

/-- What goes on when the next locale was selected. -/
def pending? : Except ConfigFault (String × Option Activation) → Option Activation
  | .error _ => none
  | .ok (_, a) => a

/-- Who waits has files to load. -/
theorem waits_iff (selected : Except ConfigFault (String × Option Activation)) :
    waits selected = true ↔ ∃ a, pending? selected = some a ∧ a.files ≠ [] := by
  rcases selected with fault | ⟨next, - | a⟩
  · simp [waits, pending?]
  · simp [waits, pending?]
  · simp [waits, pending?]

/-- To go on behind a selection is to end the call that is pending, if there is
one. -/
theorem finishNext_eq (selected : Except ConfigFault (String × Option Activation)) :
    (s.finishNext d now selected).1
      = (pending? selected).elim s fun a => (s.finish d now a).1 := by
  rcases selected with fault | ⟨next, - | a⟩
  · rfl
  · rfl
  · rfl

/-- Selecting the next locale is to move on and to select it, in a session that
is enabled. -/
theorem selectNext_cases :
    (∃ fault, s.cycle = .error fault ∧ (s.selectNext d).1 = s ∧
        pending? (s.selectNext d).2 = none) ∨
      ∃ s' next, s.cycle = .ok (s', next) ∧
        ((s.settings.enabled = true ∧ (s.selectNext d).1 = (s'.select d next).1 ∧
            pending? (s.selectNext d).2 = (s'.select d next).2.toOption) ∨
          (¬ s.settings.enabled = true ∧ (s.selectNext d).1 = s' ∧
            pending? (s.selectNext d).2 = none)) := by
  rw [selectNext]
  cases hcycle : s.cycle with
  | error fault => exact .inl ⟨fault, rfl, rfl, rfl⟩
  | ok moved =>
    obtain ⟨s', next⟩ := moved
    obtain ⟨-, rfl⟩ := cycle_eq_ok hcycle
    refine .inr ⟨_, next, rfl, ?_⟩
    dsimp only
    by_cases henabled : s.settings.enabled = true
    · rw [if_pos henabled]
      refine .inl ⟨henabled, rfl, ?_⟩
      dsimp only
      cases (select _ d next).2 with
      | error fault => rfl
      | ok a => rfl
    · rw [if_neg henabled]
      exact .inr ⟨henabled, rfl, rfl⟩

/-- Two joined moves of which the first waits for its files have both selected
a locale before either goes on. -/
theorem switchTwice_of_waits (h : waits (s.selectNext d).2 = true) :
    (s.switchTwice d now).1
      = (((((s.selectNext d).1.selectNext d).1.finishNext d now (s.selectNext d).2).1).finishNext d now
          ((s.selectNext d).1.selectNext d).2).1 := by
  rw [switchTwice]
  dsimp only
  rw [if_pos h]

/-- Two joined moves of which the first has nothing to wait for come one after
the other. -/
theorem switchTwice_of_not_waits (h : ¬ waits (s.selectNext d).2 = true) :
    (s.switchTwice d now).1 = ((s.switch d now).1.switch d now).1 := by
  rw [switchTwice]
  dsimp only
  rw [if_neg h]
  rfl

/-- **What the parts of calls keep, whole calls keep.** The parts are to take
the watcher away, to move on, and to finish with files that are on the disk. -/
theorem calls_keep {P : Session → Prop} (hselect : ∀ s, P s → P { s with watcher := none })
    (hmove : ∀ s s' next, P s → s.cycle = .ok (s', next) →
      if s.settings.enabled then P { s' with watcher := none } else P s')
    (hfinish : ∀ s a, P s → a.Listed d → P (s.finish d now a).1) (h : P s) :
    P (s.start d now).1 ∧ P (s.switch d now).1 ∧ P (s.switchTwice d now).1 := by
  have hpending : ∀ s (pending : Option Activation), P s → (∀ a, pending = some a → a.Listed d) →
      P (pending.elim s fun a => (s.finish d now a).1) := by
    intro s pending hs hlisted
    cases pending with
    | none => exact hs
    | some a => exact hfinish s a hs (hlisted a rfl)
  -- to select the next locale is to move on, and then to take the watcher away
  -- if the session is enabled
  have hnext : ∀ s, P s → P (s.selectNext d).1 ∧
      ∀ a, pending? (s.selectNext d).2 = some a → a.Listed d := by
    intro s hs
    rcases s.selectNext_cases d with ⟨fault, -, hsession, hnone⟩ |
      ⟨s', next, hcycle, ⟨henabled, hsession, hselected⟩ | ⟨hdisabled, hsession, hnone⟩⟩
    · rw [hsession, hnone]
      exact ⟨hs, fun a ha => absurd ha (by simp)⟩
    · rw [hsession, hselected]
      have hmoved := hmove s s' next hs hcycle
      rw [if_pos henabled] at hmoved
      exact ⟨hmoved, fun a ha => (select_eq_ok ha).2⟩
    · rw [hsession, hnone]
      have hmoved := hmove s s' next hs hcycle
      rw [if_neg hdisabled] at hmoved
      exact ⟨hmoved, fun a ha => absurd ha (by simp)⟩
  have hswitch : ∀ s, P s → P (s.switch d now).1 := by
    intro s hs
    rw [switch]
    dsimp only
    rw [finishNext_eq]
    exact hpending _ _ (hnext s hs).1 (hnext s hs).2
  refine ⟨?_, hswitch s h, ?_⟩
  · rw [start]
    split
    · rw [activate_eq]
      exact hpending _ _ (hselect s h) fun a ha => (select_eq_ok ha).2
    · exact h
  · by_cases hwaits : waits (s.selectNext d).2 = true
    · -- both calls have listed their files before the first one goes on
      rw [s.switchTwice_of_waits d now hwaits, finishNext_eq, finishNext_eq]
      obtain ⟨hfirst, hlisted⟩ := hnext s h
      obtain ⟨hsecond, hlisted'⟩ := hnext _ hfirst
      exact hpending _ _ (hpending _ _ hsecond hlisted) hlisted'
    · rw [s.switchTwice_of_not_waits d now hwaits]
      exact hswitch _ (hswitch s h)

/-- There is a next locale if there is one at all. -/
theorem exists_nextLocale?_of_ne_nil {supported : List String} (h : supported ≠ []) (current : String) :
    ∃ next, Store.nextLocale? supported current = some next := by
  rw [Store.nextLocale?]
  cases supported.findIdx? (· == current) with
  | none => exact ⟨_, List.head?_eq_some_head h⟩
  | some i =>
    exact ⟨_, List.getElem?_eq_getElem (Nat.mod_lt _ (List.length_pos_iff.mpr h))⟩

/-- **A call begins by taking the watcher away**, and so it makes no difference
which one was there. The session has to be enabled and to have locales to move
on to. -/
theorem calls_unwatched (henabled : s.settings.enabled = true)
    (hsupported : s.settings.supportedLocales ≠ []) :
    (start { s with watcher := none } d now).1 = (s.start d now).1 ∧
      (switch { s with watcher := none } d now).1 = (s.switch d now).1 ∧
      (switchTwice { s with watcher := none } d now).1 = (s.switchTwice d now).1 := by
  have hnext : selectNext { s with watcher := none } d = s.selectNext d := by
    obtain ⟨next, hnext⟩ := exists_nextLocale?_of_ne_nil hsupported s.store.current
    simp only [selectNext, cycle, Store.cycle, hnext, Option.map_some, henabled, if_true]
    rfl
  refine ⟨?_, ?_, ?_⟩
  · rw [start, start, if_pos henabled, if_pos henabled]
    rfl
  · rw [switch, switch, hnext]
  · rw [switchTwice, switchTwice, hnext]

/-- Selecting a locale does not change how files are loaded. -/
theorem loader_selectNext : (s.selectNext d).1.loader = s.loader := by
  rcases s.selectNext_cases d with ⟨fault, -, hsession, -⟩ |
    ⟨s', next, hcycle, ⟨-, hsession, -⟩ | ⟨-, hsession, -⟩⟩
  · rw [hsession]
  · rw [hsession, (cycle_eq_ok hcycle).2]
    rfl
  · rw [hsession, (cycle_eq_ok hcycle).2]

end

end Session

end LocaleKeys
