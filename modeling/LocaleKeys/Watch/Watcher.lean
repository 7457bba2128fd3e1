/-
Watchers: the upkeep of the dictionary of one locale.

A watcher hears of changes to the files of its locale, either from a poller of
its own or from outside, and keeps account of the reloads that follow.
-/
import LocaleKeys.Watch.Poller
import LocaleKeys.Watch.Reloads

set_option autoImplicit false

namespace LocaleKeys

/-- Where a watcher hears of changes. -/
inductive WatchSource where
  | polling
  | handedIn
deriving Repr, DecidableEq, Inhabited

/-- The upkeep of the dictionary of one locale (`LocaleWatcher`). -/
structure Watcher where
  locale : String
  files : List Path
  poller : Option Poller
  reloads : Reloads := {}
deriving Repr, DecidableEq, Inhabited

namespace Watcher

/-- The watcher that is installed now (`LocaleWatcher::spawn`). A poller of its
own has yet to have its first turn. -/
def install (source : WatchSource) (now interval : Nat) (locale : String) (files : List Path) : Watcher :=
  ⟨locale, files, if source = .polling then Poller.install now interval files else none, {}⟩

/-- A file has changed. -/
def receive (w : Watcher) (now rest : Nat) (p : Path) : Watcher :=
  { w with reloads := w.reloads.receive now rest p }

/-- The poller looks at the files. -/
def look (w : Watcher) (d : Disk) (now rest : Nat) : Watcher :=
  match w.poller with
  | none => w
  | some poller =>
    let (poller, changes) := poller.look d
    changes.foldl (fun w c => w.receive now rest c.path) { w with poller := some poller }

/-- When there is something to do next. -/
def nextDue? (w : Watcher) : Option Nat :=
  ((w.poller.map (·.next)).toList ++ (w.reloads.live.filter (!·.loading)).map (·.due)).min?

/-- The poller is due at the time `now`. -/
def looksBy (w : Watcher) (now : Nat) : Bool := w.poller.any (·.next ≤ now)

end Watcher

end LocaleKeys
