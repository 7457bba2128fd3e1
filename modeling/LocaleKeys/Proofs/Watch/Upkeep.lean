/-
What happens to a watcher, one thing at a time.

A session keeps up with changes by looking at files and by doing reloads as a
whole. Where several activities overlap that is too coarse: while a file is
being loaded other things go on, and the watcher may be taken away before the
file is there. So a reload has two ends here, the end of the rest and the end
of the loading, and what was loaded is published only at the second one and
only if the reload is still under way. At the end the parts are put together
again: a session's own ways to keep up are steps of this kind
(`Session.receive_eq_keep`, `Session.reload_eq_keep`).
-/
import LocaleKeys.Proofs.Watch.Looking
import LocaleKeys.Session.Basic

set_option autoImplicit false

namespace LocaleKeys

/-- Something that happens to a watcher. -/
inductive Upkeep where
  /-- A change of a file is heard of. -/
  | heard (now : Nat) (p : Path)
  /-- The poller looks at the files. -/
  | looked (d : Disk) (now : Nat)
  /-- A file has rested for long enough and begins to be loaded. -/
  | rested (generation : Nat)
  /-- A file that was being loaded has come to its end. -/
  | loaded (generation : Nat) (outcome : Except LoadFault Messages)

namespace Watcher

/-- The reload of a generation, if its file is being loaded. -/
def loading? (w : Watcher) (generation : Nat) : Option Reload :=
  w.reloads.live.find? fun t => t.generation == generation && t.loading

/-- The watcher behind a step, where files rest for the given time. -/
def after (w : Watcher) (rest : Nat) : Upkeep → Watcher
  | .heard now p => w.receive now rest p
  | .looked d now => w.look d now rest
  | .rested generation => { w with reloads := w.reloads.expire generation }
  | .loaded generation _ =>
    if (w.loading? generation).isSome then { w with reloads := w.reloads.finish generation } else w

/-- What a step hands on to be published. -/
def yielded? (w : Watcher) : Upkeep → Option Evaluated
  | .heard _ _ | .looked _ _ | .rested _ => none
  | .loaded generation outcome => (w.loading? generation).map fun t => (t.path, outcome)

/-- The watcher that is no longer needed. -/
def shutDown (w : Watcher) : Watcher := { w with reloads := w.reloads.shutDown }

/-- Nothing is done any more. -/
def IsShutDown (w : Watcher) : Prop := w.reloads.closed = true ∧ w.reloads.live = []

/-- A watcher that is shut down has nothing under way and takes nothing in. -/
theorem isShutDown_shutDown (w : Watcher) : w.shutDown.IsShutDown := ⟨rfl, rfl⟩

section

variable (w : Watcher) (rest : Nat)

/-- A watcher stays with its locale. -/
theorem locale_after (u : Upkeep) : (w.after rest u).locale = w.locale := by
  cases u with
  | heard now p => rfl
  | looked d now => exact (w.look_frame d now rest).1
  | rested generation => rfl
  | loaded generation outcome =>
    rw [after]
    split <;> rfl

end

/-! ## The account of the reloads

Every step of a watcher is one of the steps of its reloads, so that the account
is kept by what was shown of those. -/

/-- A look keeps the account. -/
theorem owned_look {w : Watcher} (h : w.reloads.Owned) (d : Disk) (now rest : Nat) :
    (w.look d now rest).reloads.Owned := by
  cases hpoller : w.poller with
  | none =>
    rw [look_of_none hpoller]
    exact h
  | some poller =>
    rw [look_eq hpoller]
    exact h.receiveAll now rest _

/-- Whatever happens to a watcher, its reloads stay accounted for. -/
theorem owned_after {w : Watcher} (h : w.reloads.Owned) (rest : Nat) (u : Upkeep) :
    (w.after rest u).reloads.Owned := by
  cases u with
  | heard now p => exact h.receive now rest p
  | looked d now => exact owned_look h d now rest
  | rested generation => exact h.expire generation
  | loaded generation outcome =>
    rw [after]
    split
    · exact h.finish generation
    · exact h

/-! ## Watchers that are shut down

The reloads are closed, and none is under way. From there on nothing that
happens to the watcher can begin one, and no outcome has a reload to belong to,
so that the state is one that a watcher does not leave. -/

/-- No change is taken in. -/
theorem IsShutDown.receive {w : Watcher} (h : w.IsShutDown) (now rest : Nat) (p : Path) :
    w.receive now rest p = w := by
  rw [Watcher.receive, Reloads.receive, h.1]
  rfl

/-- A look begins nothing. -/
theorem IsShutDown.look {w : Watcher} (h : w.IsShutDown) (d : Disk) (now rest : Nat) :
    (w.look d now rest).IsShutDown := by
  cases hpoller : w.poller with
  | none =>
    rw [look_of_none hpoller]
    exact h
  | some poller =>
    rw [look_eq hpoller, IsShutDown, Reloads.receiveAll_of_closed now rest _ h.1]
    exact h

/-- Without reloads under way, none is being loaded. -/
theorem IsShutDown.loading?_eq_none {w : Watcher} (h : w.IsShutDown) (generation : Nat) :
    w.loading? generation = none := by
  rw [loading?, h.2]
  rfl

/-- **A watcher that is shut down stays so**, whatever happens to it, and it
hands nothing on. -/
theorem IsShutDown.after {w : Watcher} (h : w.IsShutDown) (rest : Nat) (u : Upkeep) :
    (w.after rest u).IsShutDown ∧ w.yielded? u = none := by
  cases u with
  | heard now p => exact ⟨by rw [Watcher.after, h.receive]; exact h, rfl⟩
  | looked d now => exact ⟨h.look d now rest, rfl⟩
  | rested generation =>
    refine ⟨⟨h.1, ?_⟩, rfl⟩
    rw [Watcher.after, Reloads.expire, h.2]
    rfl
  | loaded generation outcome =>
    rw [Watcher.after, yielded?, h.loading?_eq_none]
    exact ⟨h, rfl⟩

end Watcher

namespace Session

/-- Publishes what a watcher of the locale has handed on, and announces it
unless it has a fault. -/
def take (s : Session) (locale : String) : Option Evaluated → Session
  | none => s
  | some e =>
    let (store, fault) := s.store.commitReload locale e
    let s := { s with store }
    if fault.isNone then s.announce else s

/-- How long files rest. -/
def rest (s : Session) : Nat := s.settings.debounceMs.toNat

/-- The session behind a step of its watcher `w`. -/
def keep (s : Session) (w : Watcher) (u : Upkeep) : Session :=
  { s.take w.locale (w.yielded? u) with watcher := some (w.after s.rest u) }

/-- What is published changes neither the settings, nor the watcher, nor which
locale is current. -/
theorem take_frame (s : Session) (locale : String) (e : Option Evaluated) :
    (s.take locale e).settings = s.settings ∧ (s.take locale e).watcher = s.watcher ∧
      (s.take locale e).locale = s.locale := by
  rcases e with - | ⟨p, - | m⟩
  · exact ⟨rfl, rfl, rfl⟩
  · exact ⟨rfl, rfl, rfl⟩
  · exact ⟨rfl, rfl, rfl⟩

/-! ## The parts put together

The session that runs does a reload in one piece, since it has nothing else to
do meanwhile. In the parts it is two steps, between which anything may come;
without anything in between they are the same, and this ties what is proved of
the parts to the program. -/

theorem receive_eq_keep (s : Session) {w : Watcher} (h : s.watcher = some w) (now : Nat)
    (p : Path) : s.receive now p = s.keep w (.heard now p) := by
  rw [receive, h]
  rfl

theorem look_eq_keep (s : Session) (w : Watcher) (d : Disk) (now : Nat) :
    { s with watcher := some (w.look d now s.settings.debounceMs.toNat) }
      = s.keep w (.looked d now) := rfl

/-- The reload whose rest is over is the one that is being loaded. -/
theorem loading?_after_rested {w : Watcher} (h : w.reloads.Owned) {t : Reload}
    (ht : t ∈ w.reloads.live) (rest : Nat) :
    (w.after rest (.rested t.generation)).loading? t.generation
      = some { t with loading := true } := by
  rw [Watcher.loading?]
  cases hfound : (w.after rest (.rested t.generation)).reloads.live.find?
      fun t' => t'.generation == t.generation && t'.loading with
  | none =>
    have hmem : { t with loading := true } ∈ (w.after rest (.rested t.generation)).reloads.live :=
      List.mem_map.mpr ⟨t, ht, by simp⟩
    exact absurd (List.find?_eq_none.mp hfound _ hmem) (by simp)
  | some t' =>
    -- whatever is found was under way before, and its generation makes it `t`
    obtain ⟨t₀, ht₀, rfl⟩ := List.mem_map.mp (List.mem_of_find?_eq_some hfound)
    have hgeneration := (Bool.and_eq_true_iff.mp
      (List.find?_some (p := fun t' : Reload => t'.generation == t.generation && t'.loading)
        hfound)).1
    have hgeneration₀ : t₀.generation = t.generation := by
      split at hgeneration <;> exact eq_of_beq hgeneration
    rw [h.reload_eq ht₀ ht hgeneration₀, if_pos (beq_self_eq_true _)]

/-- The end of a loading that is under way. -/
theorem keep_loaded (s : Session) {w : Watcher} {generation : Nat} {t : Reload}
    (h : w.loading? generation = some t) (outcome : Except LoadFault Messages) :
    s.keep w (.loaded generation outcome)
      = { s.take w.locale (some (t.path, outcome)) with
          watcher := some { w with reloads := w.reloads.finish generation } } := by
  rw [keep, Watcher.yielded?, Watcher.after, h]
  rfl

/-- **A reload as a whole** is the end of its rest and the end of its loading.
In between it is marked as being loaded, and the file is read on the disk of
that moment. -/
theorem reload_eq_keep (s : Session) (d : Disk) {w : Watcher} (h : w.reloads.Owned) {t : Reload}
    (ht : t ∈ w.reloads.live) :
    s.reload d w t
      = (s.keep w (.rested t.generation)).keep (w.after s.rest (.rested t.generation))
          (.loaded t.generation (s.loader.messages d t.path)) := by
  rw [keep_loaded _ (loading?_after_rested h ht s.rest), reload, Store.reload]
  cases s.loader.messages d t.path with
  | ok m => rfl
  | error fault => rfl

end Session

end LocaleKeys
