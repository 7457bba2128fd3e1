/-
Sessions: the dictionaries of a project, kept up to date while its sources are
worked on.

Making a locale the active one takes time, and other things may happen
meanwhile. So it is done in parts: first the locale is chosen, the watcher of
the one before is taken away and the files are listed; then the files are
loaded; and at the end a watcher is installed, unless another locale has become
current since.
-/
import LocaleKeys.Dictionary.Store
import LocaleKeys.LocaleFiles
import LocaleKeys.Watch.Watcher

set_option autoImplicit false

namespace LocaleKeys

/-- The dictionaries of a project and their upkeep (`I18nEngine`). -/
structure Session where
  settings : Settings
  root : Path
  loader : Loader
  source : WatchSource
  store : Store
  watcher : Option Watcher := none
  /-- How often it was announced that the dictionary has changed. -/
  announced : Nat := 0

/-- A locale that is becoming active, with its files. -/
structure Activation where
  locale : String
  files : List Path
deriving Repr, DecidableEq, Inhabited

namespace Session

/-- The session at its start (`I18nEngine::new`). The first locale is current. -/
def create (settings : Settings) (root : Path) (loader : Loader) (source : WatchSource) :
    Except ConfigFault Session := do
  settings.check
  match settings.supportedLocales with
  | [] => throw .noLocales
  | first :: _ => return { settings, root, loader, source, store := { current := first } }

/-- The locale that is looked at. -/
def locale (s : Session) : String := s.store.current

/-- The files of a locale (`I18nEngine::locale_files`). -/
def localeFiles (s : Session) (d : Disk) (locale : String) : Except ConfigFault (List Path) :=
  LocaleKeys.localeFiles d s.settings.localePaths locale s.root

/-- The change of a dictionary is announced. -/
def announce (s : Session) : Session := { s with announced := s.announced + 1 }

/-! ## Making a locale active

The parts of a call and the calls that are made of them. Each part is done at
once, and other things may happen between two parts only. -/

/-- The watcher is taken away, and the files of the locale are listed. -/
def select (s : Session) (d : Disk) (locale : String) : Session × Except ConfigFault Activation :=
  ({ s with watcher := none }, (s.localeFiles d locale).map (⟨locale, ·⟩))

/-- What was loaded is published. -/
def commit (s : Session) (a : Activation) (evaluated : List Evaluated) : Session × LoadReport :=
  let (store, report) := s.store.commit a.locale evaluated
  ({ s with store }, report)

/-- The watcher of the locale is installed, if the locale is current. -/
def install (s : Session) (now : Nat) (a : Activation) : Session :=
  if s.locale == a.locale then
    let interval := s.settings.pollIntervalMs.toNat
    { s with watcher := some (.install s.source now interval a.locale a.files) }.announce
  else s

/-- Loads the files of a locale, publishes them and installs the watcher. -/
def finish (s : Session) (d : Disk) (now : Nat) (a : Activation) : Session × LoadReport :=
  let (s, report) := s.commit a (Store.evaluate s.loader d a.files)
  (s.install now a, report)

/-- Goes on with a locale whose files could be listed. -/
def finishIf {α : Type} (s : Session) (d : Disk) (now : Nat)
    (selected : Except ConfigFault Activation) (answer : LoadReport → α) :
    Session × Except ConfigFault α :=
  match selected with
  | .error fault => (s, .error fault)
  | .ok a =>
    let (s, report) := s.finish d now a
    (s, .ok (answer report))

/-- Makes a locale active (`I18nEngine::activate`). -/
def activate (s : Session) (d : Disk) (now : Nat) (locale : String) :
    Session × Except ConfigFault LoadReport :=
  let (s, selected) := s.select d locale
  s.finishIf d now selected id

/-- Loads the current locale and begins to watch its files
(`I18nEngine::start`). -/
def start (s : Session) (d : Disk) (now : Nat) : Session × Except ConfigFault LoadReport :=
  if s.settings.enabled then s.activate d now s.locale else (s, .ok {})

/-- The next locale becomes current. -/
def cycle (s : Session) : Except ConfigFault (Session × String) :=
  match s.store.cycle s.settings.supportedLocales with
  | some (store, next) => .ok ({ s with store }, next)
  | none => .error .noLocales

/-- The first part of moving on to the next locale. There is no second part if
the session is not enabled. -/
def selectNext (s : Session) (d : Disk) :
    Session × Except ConfigFault (String × Option Activation) :=
  match s.cycle with
  | .error fault => (s, .error fault)
  | .ok (s, next) =>
    if s.settings.enabled then
      let (s, selected) := s.select d next
      (s, selected.map fun a => (next, some a))
    else (s, .ok (next, none))

/-- The second part of moving on to the next locale. -/
def finishNext (s : Session) (d : Disk) (now : Nat)
    (selected : Except ConfigFault (String × Option Activation)) :
    Session × Except ConfigFault String :=
  match selected with
  | .error fault => (s, .error fault)
  | .ok (next, none) => (s, .ok next)
  | .ok (next, some a) => ((s.finish d now a).1, .ok next)

/-- Moves on to the next locale (`I18nEngine::switch_locale`). -/
def switch (s : Session) (d : Disk) (now : Nat) : Session × Except ConfigFault String :=
  let (s, selected) := s.selectNext d
  s.finishNext d now selected

/-- A locale was selected that has files to load. Whoever goes on with it has
to wait for them. -/
def waits : Except ConfigFault (String × Option Activation) → Bool
  | .ok (_, some a) => !a.files.isEmpty
  | _ => false

/-- Moves on twice, where the second move begins as soon as the first one waits
for its files. A first move that has no files to wait for ends before the
second one begins. This is one way in which two joined moves may go. Another
one, in which the first has its files before the second selects its locale, is
two moves one after the other; any others are made of the parts of moves, as
they overlap in `Overlap.run`. -/
def switchTwice (s : Session) (d : Disk) (now : Nat) :
    Session × Except ConfigFault String × Except ConfigFault String :=
  let (s, first) := s.selectNext d
  if waits first then
    let (s, second) := s.selectNext d
    let (s, first) := s.finishNext d now first
    let (s, second) := s.finishNext d now second
    (s, first, second)
  else
    let (s, first) := s.finishNext d now first
    let (s, second) := s.switch d now
    (s, first, second)

/-- Ends watching (`I18nEngine::shutdown`). The dictionaries stay. -/
def shutDown (s : Session) : Session := { s with watcher := none }

/-! ## Keeping up

What a session does by itself while time passes. It looks for what is due first
and does it, until nothing is due any more by the end of the time. -/

/-- A file is said to have changed. -/
def receive (s : Session) (now : Nat) (p : Path) : Session :=
  { s with watcher := s.watcher.map (·.receive now s.settings.debounceMs.toNat p) }

/-- A reload whose rest is over is done, and a change is announced if there is
one. -/
def reload (s : Session) (d : Disk) (w : Watcher) (t : Reload) : Session :=
  let (store, fault) := s.store.reload s.loader d w.locale t.path
  let reloads := (w.reloads.expire t.generation).finish t.generation
  let s := { s with store, watcher := some { w with reloads } }
  if fault.isNone then s.announce else s

/-- Does what is due by the time `now` and comes first: a look at the files, or
a reload. -/
def act (s : Session) (d : Disk) (now : Nat) : Session :=
  match s.watcher with
  | none => s
  | some w =>
    if w.looksBy now then
      { s with watcher := some (w.look d now s.settings.debounceMs.toNat) }
    else
      match w.reloads.dueBy? now with
      | none => s
      | some t => s.reload d w t

/-- When there is something to do next. -/
def nextDue? (s : Session) : Option Nat := s.watcher.bind (·.nextDue?)

/-- Does what is due up to the time `stop`. The first argument is a bound on
how much that is. -/
def runUpTo : Nat → Session → Disk → (stop : Nat) → Session
  | 0, s, _, _ => s
  | n + 1, s, d, stop =>
    match s.nextDue? with
    | none => s
    | some t => if t ≤ stop then runUpTo n (s.act d t) d stop else s

/-- How much can be due between two times: at each of them a look at the files
and a reload for each of these, and besides the reloads that are under way. -/
def dueBound (s : Session) (now stop : Nat) : Nat :=
  match s.watcher with
  | none => 0
  | some w => (stop + 1 - now) * (w.files.length + 1) + w.reloads.live.length

/-- Does what is due from `now` up to the time `stop`, while the files stay as
they are. -/
def run (s : Session) (d : Disk) (now stop : Nat) : Session :=
  runUpTo (s.dueBound now stop) s d stop

end Session

end LocaleKeys
