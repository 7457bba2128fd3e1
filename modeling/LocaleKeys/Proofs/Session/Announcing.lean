/-
Announcements, counted against versions.

Publishing is the store's affair, and announcing is that of whoever has
published: a call at its end, and a reload. Whoever listens looks at the
dictionary of the current locale. So what is announced should be exactly what
is published there, and that it is comes down to two comparisons. A call
announces if its locale is current, which is when its publishing is to be seen
(`Session.finish_counts`); and a reload, which announces in any case, is one
for the current locale, because the watcher is (`Overlap.Sound`).

Across a step the locale may change, so that the count is about the locale at
its end (`Session.Accounts`). One step does not come out: of two joined moves
the first may have nothing to wait for. Then it has ended, and announced what
it has published, before the second move leads on to another locale
(`Session.Overtaken`). Such a step is two moves in turn, and each of them comes
out.

Both numbers only grow, so the statement is about their differences and nothing
is said of what they were before. That makes accounts of several steps add up,
as long as they are about one locale (`Session.Accounts.trans`).
-/
import LocaleKeys.Proofs.Session.Following
import LocaleKeys.Proofs.Session.Timeline

set_option autoImplicit false

namespace LocaleKeys

namespace Store

/-- To publish takes the version of the one locale up by one. -/
theorem version_publish (s : Store) (locale other : String) (c : Contributions) (m : Messages) :
    (s.publish locale c m).version other
      = s.version other + if locale = other then 1 else 0 := by
  rw [version, dictionary?_publish]
  by_cases h : locale = other
  · subst h
    rw [if_pos rfl, if_pos rfl]
    rfl
  · rw [if_neg h, if_neg h]
    rfl

theorem version_congr {s s' : Store} (h : s'.published = s.published) (locale : String) :
    s'.version locale = s.version locale := by
  rw [version, version, dictionary?, dictionary?, h]

end Store

namespace Session

/-- From `s` to `s'` as many changes were announced as the version of the
dictionary has gone up that is looked at in `s'`. -/
def Accounts (s s' : Session) : Prop :=
  ∃ n, s'.announced = s.announced + n ∧
    s'.store.version s'.locale = s.store.version s'.locale + n

/-- From `s` to `s'` nothing was published and nothing announced. -/
def Quiet (s s' : Session) : Prop :=
  s'.announced = s.announced ∧ s'.store.published = s.store.published

section

variable {s s' s'' : Session}

/-- What comes behind a quiet step accounts for both. -/
theorem Quiet.accounts_trans (h : s.Quiet s') (h' : s'.Accounts s'') : s.Accounts s'' := by
  obtain ⟨n, hannounced, hversion⟩ := h'
  rw [h.1] at hannounced
  rw [Store.version_congr h.2] at hversion
  exact ⟨n, hannounced, hversion⟩

/-- Where nothing happens, nothing is announced and nothing published. -/
theorem Accounts.refl (s : Session) : s.Accounts s := ⟨0, rfl, rfl⟩

/-- A quiet step comes out. -/
theorem Quiet.accounts (h : s.Quiet s') : s.Accounts s' := h.accounts_trans (.refl s')

/-- While the locale stays, one account goes on with the next. -/
theorem Accounts.trans (h : s.Accounts s') (h' : s'.Accounts s'') (hlocale : s''.locale = s'.locale) :
    s.Accounts s'' := by
  obtain ⟨n, hannounced, hversion⟩ := h
  obtain ⟨k, hannounced', hversion'⟩ := h'
  rw [hlocale] at hversion'
  refine ⟨n + k, by omega, ?_⟩
  rw [hlocale]
  omega

end

/-! ## Calls

A call on its own publishes once, and its locale is either current at the end
or not. In the first case one change is announced and one version published
that is looked at, and in the second neither. So a call always comes out,
whatever has failed in it. -/

section

variable (s : Session) (d : Disk) (now : Nat)

/-- To select a locale publishes and announces nothing. -/
theorem quiet_selectNext : s.Quiet (s.selectNext d).1 := by
  rcases s.selectNext_cases d with ⟨fault, -, hsession, -⟩ |
    ⟨s', next, hcycle, ⟨-, hsession, -⟩ | ⟨-, hsession, -⟩⟩
  · rw [hsession]
    exact ⟨rfl, rfl⟩
  · rw [hsession, (cycle_eq_ok hcycle).2]
    exact ⟨rfl, rfl⟩
  · rw [hsession, (cycle_eq_ok hcycle).2]
    exact ⟨rfl, rfl⟩

/-- **The end of a call** publishes for its own locale, and announces that if
the locale is current. A call that was overtaken publishes as well, since its
messages are still those of its locale. -/
theorem finish_counts (a : Activation) :
    (s.finish d now a).1.locale = s.locale ∧
      (s.finish d now a).1.announced = s.announced + (if a.locale = s.locale then 1 else 0) ∧
      ∀ locale, (s.finish d now a).1.store.version locale
        = s.store.version locale + if a.locale = locale then 1 else 0 := by
  have hversion : ∀ locale, (s.store.commit a.locale (Store.evaluate s.loader d a.files)).1.version
      locale = s.store.version locale + if a.locale = locale then 1 else 0 :=
    fun locale => s.store.version_publish a.locale locale _ _
  rw [finish]
  dsimp only
  rw [install, show (s.commit a (Store.evaluate s.loader d a.files)).1.locale = s.locale from rfl]
  by_cases hcurrent : a.locale = s.locale
  · rw [if_pos hcurrent, if_pos (beq_iff_eq.mpr hcurrent.symm)]
    exact ⟨rfl, rfl, hversion⟩
  · have hother : ¬ (s.locale == a.locale) = true := fun h => hcurrent (eq_of_beq h).symm
    rw [if_neg hcurrent, if_neg hother]
    exact ⟨rfl, rfl, hversion⟩

/-- The end of a call comes out. -/
theorem accounts_finish (a : Activation) : s.Accounts (s.finish d now a).1 := by
  obtain ⟨hlocale, hannounced, hversion⟩ := s.finish_counts d now a
  exact ⟨_, hannounced, by rw [hlocale]; exact hversion s.locale⟩

/-- What is pending behind a selection goes on in the locale that was selected. -/
theorem accounts_finishNext (selected : Except ConfigFault (String × Option Activation)) :
    s.Accounts (s.finishNext d now selected).1 ∧
      (s.finishNext d now selected).1.locale = s.locale := by
  rw [finishNext_eq]
  cases pending? selected with
  | none => exact ⟨.refl s, rfl⟩
  | some a => exact ⟨s.accounts_finish d now a, (s.finish_counts d now a).1⟩

/-- To start a session comes out. -/
theorem accounts_start : s.Accounts (s.start d now).1 := by
  rw [start]
  split
  · have hquiet : s.Quiet (s.select d s.locale).1 := ⟨rfl, rfl⟩
    rw [activate_eq]
    cases (s.select d s.locale).2.toOption with
    | none => exact hquiet.accounts
    | some a => exact hquiet.accounts_trans (accounts_finish _ d now a)
  · exact .refl s

/-- A single move comes out. -/
theorem accounts_switch : s.Accounts (s.switch d now).1 :=
  (s.quiet_selectNext d).accounts_trans (accounts_finishNext _ d now _).1

/-! ### Joined calls

Two moves that are begun at once select one after the other, and then the first
one goes on to its end. If it has files to load it lets the second one select
meanwhile. If it has none it does not wait at all, and that is the case which
does not come out. -/

/-- The first of two joined moves has no files to wait for, and the second
leads on to another locale. -/
def Overtaken : Prop :=
  ∃ a, pending? (s.selectNext d).2 = some a ∧ a.files = [] ∧
    (s.switchTwice d now).1.locale ≠ a.locale

/-- Who waits has files, and is not overtaken. -/
theorem Overtaken.not_waits {s : Session} {d : Disk} {now : Nat} (h : s.Overtaken d now) :
    ¬ waits (s.selectNext d).2 = true := by
  intro hwaits
  obtain ⟨a, ha, hnone, -⟩ := h
  obtain ⟨a', ha', hfiles⟩ := (waits_iff _).mp hwaits
  obtain rfl := Option.some.inj (ha.symm.trans ha')
  exact hfiles hnone

/-- What is pending behind a move is the locale that has become current. -/
theorem locale_selectNext {a : Activation} (h : pending? (s.selectNext d).2 = some a) :
    (s.selectNext d).1.locale = a.locale := by
  rcases s.selectNext_cases d with ⟨fault, -, -, hnone⟩ |
    ⟨s', next, hcycle, ⟨-, hsession, hselected⟩ | ⟨-, -, hnone⟩⟩
  · rw [hnone] at h
    exact absurd h (by simp)
  · obtain ⟨-, rfl⟩ := cycle_eq_ok hcycle
    rw [hselected] at h
    rw [hsession, (select_eq_ok h).1]
    rfl
  · rw [hnone] at h
    exact absurd h (by simp)

/-- A move that has something pending publishes for the locale that it leads
to, and announces it. -/
theorem switch_counts {a : Activation} (h : pending? (s.selectNext d).2 = some a) :
    (s.switch d now).1.locale = a.locale ∧
      (s.switch d now).1.announced = s.announced + 1 ∧
      ∀ locale, (s.switch d now).1.store.version locale
        = s.store.version locale + if a.locale = locale then 1 else 0 := by
  have hlocale := s.locale_selectNext d h
  obtain ⟨hannounced, hpublished⟩ := s.quiet_selectNext d
  rw [switch]
  dsimp only
  rw [finishNext_eq, h, Option.elim_some]
  obtain ⟨hlocale', hannounced', hversion'⟩ := finish_counts (s.selectNext d).1 d now a
  rw [hlocale, if_pos rfl, hannounced] at hannounced'
  refine ⟨hlocale'.trans hlocale, hannounced', fun locale => ?_⟩
  rw [hversion', Store.version_congr hpublished]

/-- A move that has nothing pending is quiet. -/
theorem quiet_switch (h : pending? (s.selectNext d).2 = none) : s.Quiet (s.switch d now).1 := by
  rw [switch]
  dsimp only
  rw [finishNext_eq, h]
  exact s.quiet_selectNext d

/-- **Joined moves.** If the first move waits, both have selected before
anything is published, and what is counted from then on belongs to one locale.
If it does not wait, the moves come in turn, and the first has announced
something that the second does not look at exactly if it is overtaken. -/
theorem accounts_switchTwice :
    (¬ s.Overtaken d now → s.Accounts (s.switchTwice d now).1) ∧
      (s.Overtaken d now → ∃ n, (s.switchTwice d now).1.announced = s.announced + n + 1 ∧
        (s.switchTwice d now).1.store.version (s.switchTwice d now).1.locale
          = s.store.version (s.switchTwice d now).1.locale + n) := by
  -- whether the first move waits decides in which order the two are done
  by_cases hwaits : waits (s.selectNext d).2 = true
  · refine ⟨fun _ => ?_, fun hovertaken => ?_⟩
    · rw [s.switchTwice_of_waits d now hwaits]
      have hquiet := s.quiet_selectNext d
      have hquiet' := (s.selectNext d).1.quiet_selectNext d
      obtain ⟨hfirst, -⟩ :=
        accounts_finishNext ((s.selectNext d).1.selectNext d).1 d now (s.selectNext d).2
      obtain ⟨hsecond, hlocale⟩ := accounts_finishNext
        (((s.selectNext d).1.selectNext d).1.finishNext d now (s.selectNext d).2).1 d now
        ((s.selectNext d).1.selectNext d).2
      exact hquiet.accounts_trans (hquiet'.accounts_trans (hfirst.trans hsecond hlocale))
    · exact absurd hwaits hovertaken.not_waits
  · have hturns := s.switchTwice_of_not_waits d now hwaits
    obtain ⟨n, hannounced, hversion⟩ := accounts_switch (s.switch d now).1 d now
    rw [Overtaken, hturns]
    cases hpending : pending? (s.selectNext d).2 with
    | none =>
      refine ⟨fun _ => ?_, fun ⟨a, ha, _⟩ => absurd ha (by simp)⟩
      exact (s.quiet_switch d now hpending).accounts_trans ⟨n, hannounced, hversion⟩
    | some a =>
      have hfiles : a.files = [] := by
        by_contra hfiles
        exact hwaits ((waits_iff _).mpr ⟨a, hpending, hfiles⟩)
      obtain ⟨hlocale, hannounced', hversion'⟩ := s.switch_counts d now hpending
      rw [hversion'] at hversion
      rw [hannounced'] at hannounced
      refine ⟨fun hovertaken => ?_, ?_⟩
      · -- the second move has come back to the locale of the first
        have hback : ((s.switch d now).1.switch d now).1.locale = a.locale := by
          by_contra hother
          exact hovertaken ⟨a, rfl, hfiles, hother⟩
        rw [if_pos hback.symm] at hversion
        exact ⟨1 + n, by omega, by omega⟩
      · rintro ⟨a', ha', -, hother⟩
        obtain rfl := Option.some.inj ha'
        rw [if_neg (Ne.symm hother)] at hversion
        exact ⟨n, by omega, by omega⟩

end

/-! ## Keeping up

A reload publishes for the locale of its watcher and announces in any case.
That the two belong together is not looked at by the program; it holds because
no watcher is ever installed for a locale that is not current, and none
survives a move. -/

section

variable {s : Session} (d : Disk)

/-- A reload for the current locale announces what it publishes. -/
theorem accounts_reload {w : Watcher} (hlocale : w.locale = s.locale) (t : Reload) :
    s.Accounts (s.reload d w t) := by
  rw [reload, Store.reload]
  cases s.loader.messages d t.path with
  | error fault => exact .refl s
  | ok m =>
    refine ⟨1, rfl, ?_⟩
    have hversion := s.store.version_publish w.locale s.locale
      ((s.store.contributionsOf w.locale).change t.path m
        ((s.store.dictionary? w.locale).elim ∅ (·.messages))).1
      ((s.store.contributionsOf w.locale).change t.path m
        ((s.store.dictionary? w.locale).elim ∅ (·.messages))).2
    rw [if_pos hlocale] at hversion
    exact hversion

/-- **While time passes** the locale stays and so does the watcher's, and every
reload that is done comes out. Looks publish nothing, and a reload publishes
for the locale of its watcher, which is the current one. -/
theorem accounts_run (hfollows : ∀ w, s.watcher = some w → w.locale = s.locale) (now stop : Nat) :
    s.Accounts (s.run d now stop) ∧ (s.run d now stop).locale = s.locale := by
  have hkept : (s.run d now stop).locale = s.locale ∧
      (∀ w, (s.run d now stop).watcher = some w → w.locale = (s.run d now stop).locale) ∧
      s.Accounts (s.run d now stop) := by
    refine runUpTo_keeps
      (P := fun s' => s'.locale = s.locale ∧ (∀ w, s'.watcher = some w → w.locale = s'.locale) ∧
        s.Accounts s')
      (fun s' due hs hdue _ => ?_) _ ⟨rfl, hfollows, .refl s⟩
    obtain ⟨hlocale, hfollows', haccounts⟩ := hs
    obtain ⟨w, hw, ⟨poller, -, -, hact⟩ | ⟨t, -, hact⟩⟩ := act_cases hdue d
    · rw [hact]
      refine ⟨hlocale, fun w' hw' => ?_, haccounts⟩
      obtain rfl := Option.some.inj hw'
      exact (w.look_frame d due _).1.trans (hfollows' w hw)
    · rw [hact]
      obtain ⟨-, -, hlocale', hwatcher⟩ := s'.reload_frame d w t
      refine ⟨hlocale'.trans hlocale, fun w' hw' => ?_,
        haccounts.trans (accounts_reload d (hfollows' w hw) t) hlocale'⟩
      rw [hwatcher] at hw'
      obtain rfl := Option.some.inj hw'
      exact (hfollows' w hw).trans hlocale'.symm
  exact ⟨hkept.2.2, hkept.1⟩

end

/-! ## Sessions whose watcher follows the locale

The hypothesis of `accounts_run` is an invariant of overlaps. A session on its
own is such an overlap in which nothing overlaps, so that the invariant is
taken over from there, call by call, and not proved a second time. -/

/-- The session is that of a sound overlap. -/
def Sound (s : Session) : Prop := ∃ o : Overlap, o.session = s ∧ o.Sound ∧ o.Accounted

theorem Sound.follows {s : Session} (h : s.Sound) {w : Watcher} (hw : s.watcher = some w) :
    w.locale = s.locale := by
  obtain ⟨o, rfl, hsound, -⟩ := h
  exact hsound.follows w hw

/-- Whatever is a run of steps of an overlap leaves a sound session. -/
theorem Sound.of_run {o : Overlap} (hsound : o.Sound) (haccounted : o.Accounted)
    (steps : List Happening) : (o.run steps).session.Sound :=
  ⟨o.run steps, rfl, Overlap.sound_run hsound steps, haccounted.run steps⟩

/-- A session at its start has no watcher and no calls under way. -/
theorem sound_create {settings : Settings} {root : Path} {loader : Loader} {source : WatchSource}
    {s : Session} (h : create settings root loader source = .ok s) : s.Sound := by
  obtain ⟨first, locales, -, rfl⟩ := create_eq_ok h
  exact ⟨.fresh settings root loader source first, rfl, Overlap.sound_fresh _ _ _ _ _,
    Overlap.accounted_fresh _ _ _ _ _⟩

section

variable {s : Session} (h : s.Sound) (d : Disk) (now : Nat)
include h

/-- To start keeps it, being a run of parts. -/
theorem Sound.start : (s.start d now).1.Sound := by
  obtain ⟨o, rfl, hsound, haccounted⟩ := h
  rw [← Overlap.run_start]
  exact .of_run hsound haccounted _

theorem Sound.switch : (s.switch d now).1.Sound := by
  obtain ⟨o, rfl, hsound, haccounted⟩ := h
  rw [← Overlap.run_switch]
  exact .of_run hsound haccounted _

theorem Sound.switchTwice : (s.switchTwice d now).1.Sound := by
  by_cases hwaits : waits (s.selectNext d).2 = true
  · obtain ⟨o, rfl, hsound, haccounted⟩ := h
    rw [← Overlap.run_switchTwice o d now hwaits]
    exact .of_run hsound haccounted _
  · rw [s.switchTwice_of_not_waits d now hwaits]
    exact (h.switch d now).switch d now

theorem Sound.shutDown : s.shutDown.Sound := by
  obtain ⟨o, rfl, hsound, haccounted⟩ := h
  exact .of_run hsound haccounted [.shutDown]

theorem Sound.receive (p : Path) : (s.receive now p).Sound := by
  obtain ⟨o, rfl, hsound, haccounted⟩ := h
  rw [← Overlap.session_perform_heard]
  exact .of_run hsound haccounted [.kept (.heard now p)]

theorem Sound.run (stop : Nat) : (s.run d now stop).Sound := by
  obtain ⟨o, rfl, hsound, haccounted⟩ := h
  obtain ⟨us, hus⟩ := Overlap.exists_run_passing haccounted d now stop
  rw [← hus]
  exact .of_run hsound haccounted _

end

end Session

/-! ## Steps

Everything that can be done with a session, from outside or by itself, is put
together here. Time that passes behind a step is part of the statement, because
a listener may look at any moment and not just when a call has returned. -/

/-- A step of a session that is also told of changes from outside. -/
inductive Step where
  | deed (deed : Deed)
  /-- The session is told that a file has changed. -/
  | told (p : Path)

namespace Moment

/-- The moment behind a step. -/
def take (m : Moment) : Step → Moment
  | .deed deed => m.perform deed
  | .told p => { m with session := m.session.receive m.now p }

/-- The moment behind steps that are taken one after the other. -/
def walk (m : Moment) (steps : List Step) : Moment := steps.foldl take m

/-- Right behind a step, or when some time has passed since. -/
def Behind (m : Moment) (step : Step) (m' : Moment) : Prop :=
  m' = m.take step ∨ ∃ ms, m' = (m.take step).perform (.advance ms)

/-- A step keeps the session sound. -/
theorem sound_take {m : Moment} (h : m.session.Sound) (step : Step) : (m.take step).session.Sound := by
  cases step with
  | told p => exact h.receive m.now p
  | deed deed =>
    cases deed with
    | start => exact h.start m.disk m.now
    | switch => exact h.switch m.disk m.now
    | switchTwice => exact h.switchTwice m.disk m.now
    | shutDown => exact h.shutDown
    | write p data => exact h
    | remove p => exact h
    | advance ms => exact h.run m.disk m.now (m.now + ms)
    | analyse doc => exact h

theorem sound_walk {m : Moment} (h : m.session.Sound) (steps : List Step) :
    (m.walk steps).session.Sound := by
  induction steps generalizing m with
  | nil => exact h
  | cons step steps ih => exact ih (sound_take h step)

/-- Two joined moves, of which the first is overtaken. -/
def Overtaken (m : Moment) : Step → Prop
  | .deed .switchTwice => m.session.Overtaken m.disk m.now
  | _ => False

/-- A step that is not overtaken comes out. -/
theorem accounts_take {m : Moment} (h : m.session.Sound) {step : Step} (hstep : ¬ m.Overtaken step) :
    m.session.Accounts (m.take step).session := by
  cases step with
  | told p => exact .refl m.session
  | deed deed =>
    cases deed with
    | start => exact m.session.accounts_start m.disk m.now
    | switch => exact m.session.accounts_switch m.disk m.now
    | switchTwice => exact (m.session.accounts_switchTwice m.disk m.now).1 hstep
    | shutDown => exact .refl m.session
    | write p data => exact .refl m.session
    | remove p => exact .refl m.session
    | advance ms =>
      exact (Session.accounts_run m.disk (fun w => h.follows) m.now (m.now + ms)).1
    | analyse doc => exact .refl m.session

/-- **What is announced is what is published, and seen.** Across every step of
a session, whether time passes behind it or not, as many changes are announced
as the version of the dictionary goes up whose locale is current at the end.
The one exception are two joined moves of which the first has no files to wait
for and the second leads on to another locale: they are two moves in turn, of
which each comes out, and the first has announced one change more. -/
theorem announced_as_published {settings : Settings} {root : Path} {loader : Loader}
    {source : WatchSource} {s : Session} (hcreate : Session.create settings root loader source = .ok s)
    (d : Disk) (steps : List Step) (step : Step) :
    let m := walk ⟨s, d, 0⟩ steps
    ∀ m', m.Behind step m' →
      (¬ m.Overtaken step → m.session.Accounts m'.session) ∧
        (m.Overtaken step → m.take step = (m.take (.deed .switch)).take (.deed .switch) ∧
          ∃ n, m'.session.announced = m.session.announced + n + 1 ∧
            m'.session.store.version m'.session.locale
              = m.session.store.version m'.session.locale + n) := by
  intro m m' hbehind
  have hsound : m.session.Sound := sound_walk (Session.sound_create hcreate) steps
  -- a pause comes out and keeps the locale, so that the step is what has to be
  -- looked at
  have hpause : (m.take step).session.Accounts m'.session ∧
      m'.session.locale = (m.take step).session.locale := by
    rcases hbehind with rfl | ⟨ms, rfl⟩
    · exact ⟨.refl _, rfl⟩
    · exact Session.accounts_run _ (fun w => (sound_take hsound step).follows) _ _
  obtain ⟨hafter, hlocale⟩ := hpause
  refine ⟨fun hstep => (accounts_take hsound hstep).trans hafter hlocale, fun hstep => ?_⟩
  match step, hstep with
  | .deed .switchTwice, hstep =>
    obtain ⟨n, hannounced, hversion⟩ := (m.session.accounts_switchTwice m.disk m.now).2 hstep
    obtain ⟨k, hannounced', hversion'⟩ := hafter
    have hturns := m.session.switchTwice_of_not_waits m.disk m.now
      (Session.Overtaken.not_waits hstep)
    refine ⟨?_, n + k, ?_, ?_⟩
    · rw [take, perform, hturns]
      rfl
    · rw [hannounced', show (m.take (.deed .switchTwice)).session.announced
        = m.session.announced + n + 1 from hannounced]
      omega
    · rw [hversion', hlocale, show (m.take (.deed .switchTwice)).session.store.version
        (m.take (.deed .switchTwice)).session.locale
        = m.session.store.version (m.take (.deed .switchTwice)).session.locale + n from hversion]
      omega

/-- A file is written over and the session is told of it: when the file has
rested, one change is announced and one version is published. -/
theorem announced_as_published_of_told :
    let settings : Settings :=
      { supportedLocales := ["en"], localePaths := [localePlaceholder ++ ".json"] }
    let s : Session := ⟨settings, ⟨"."⟩, jsonLoader, .handedIn, .fresh "en", none, 0⟩
    let d : Disk := ⟨.directory [("en.json", .file (.ofText "\x7b\"a\":\"1\"\x7d" 1))], []⟩
    let steps : List Step :=
      [.deed .start, .deed (.write ⟨"en.json"⟩ (.ofText "\x7b\"a\":\"2\"\x7d" 2))]
    let m := walk ⟨s, d, 0⟩ steps
    let m' := (m.take (.told ⟨"en.json"⟩)).perform (.advance 300)
    Session.create settings ⟨"."⟩ jsonLoader .handedIn = .ok s ∧ m.Behind (.told ⟨"en.json"⟩) m' ∧
      ¬ m.Overtaken (.told ⟨"en.json"⟩) ∧ m'.session.announced = 2 ∧
      m.session.Accounts m'.session := by
  intro settings s d steps m m'
  have hcreate : Session.create settings ⟨"."⟩ jsonLoader .handedIn = .ok s := rfl
  have hbehind : m.Behind (.told ⟨"en.json"⟩) m' := .inr ⟨300, rfl⟩
  have hstep : ¬ m.Overtaken (.told ⟨"en.json"⟩) := id
  refine ⟨hcreate, hbehind, hstep, by decide +kernel, ?_⟩
  exact (announced_as_published hcreate d steps _ m' hbehind).1 hstep

/-- **A step may announce more than is seen.** Without any files, the first of
two joined moves ends at once and announces its own publishing; the second
leads back, and what is seen at the end has gone up by one version only. -/
theorem joined_moves_announce_twice :
    ¬ ∀ (settings : Settings) (root : Path) (loader : Loader) (source : WatchSource) (s : Session),
      Session.create settings root loader source = .ok s →
      ∀ (d : Disk) (steps : List Step) (step : Step) (m' : Moment),
        Behind (walk ⟨s, d, 0⟩ steps) step m' →
        (walk ⟨s, d, 0⟩ steps).session.Accounts m'.session := by
  intro hall
  let settings : Settings :=
    { supportedLocales := ["en", "zh"], localePaths := [localePlaceholder ++ ".json"] }
  let s : Session := ⟨settings, ⟨"."⟩, jsonLoader, .polling, .fresh "en", none, 0⟩
  let m' : Moment := take ⟨s, {}, 0⟩ (.deed .switchTwice)
  obtain ⟨n, hannounced, hversion⟩ :=
    hall settings ⟨"."⟩ jsonLoader .polling s rfl {} [] (.deed .switchTwice) m' (.inl rfl)
  have htwo : m'.session.announced = 2 := by decide +kernel
  have hone : m'.session.store.version m'.session.locale = 1 := by decide +kernel
  have hnone : s.store.version m'.session.locale = 0 := by decide +kernel
  have hn : 2 = 0 + n := htwo.symm.trans hannounced
  have hn' : 1 = s.store.version m'.session.locale + n := hone.symm.trans hversion
  omega

end Moment

end LocaleKeys
