/-
Calls that overlap.

Making a locale active takes time. A call first selects its locale, which takes
the watcher away and lists the files; later it publishes what was loaded; and
at last it installs a watcher, unless another locale is current by then.
Between these parts anything may happen: parts of other calls, whatever happens
to the watcher that is there, and to those that were taken away before.

An overlap is a session with the calls that are under way and the watchers that
were taken away. Every part of a call is one step of it (`Overlap.perform`),
and each step does what the session itself does in this part. What a step can
do is said once (`Overlap.Does`), and whoever claims that all steps keep
something goes through that list. A call on its own is the run of its parts
(`Overlap.run_start`, `Overlap.run_switch`), and two calls that are joined are
a run in which both select before either loads (`Overlap.run_switchTwice`),
unless the first of them has nothing to load. Whatever a session does while
time passes is a run as well (`Overlap.exists_run_passing`).
-/
import LocaleKeys.Proofs.Dictionary.Runs
import LocaleKeys.Proofs.Session.Running
import LocaleKeys.Proofs.Watch.Upkeep

set_option autoImplicit false

namespace LocaleKeys

/-- A call that makes a locale active, after it has selected the locale. -/
structure Call where
  activation : Activation
  /-- How often the session had moved on to a next locale when this one was
  selected. -/
  moves : Nat
  /-- The files were published. -/
  committed : Bool := false
deriving Repr, DecidableEq, Inhabited

/-- A session whose calls overlap. -/
structure Overlap where
  session : Session
  /-- The calls that are under way. -/
  calls : List Call := []
  /-- How often the session has moved on to a next locale. -/
  moves : Nat := 0
  /-- The watchers that were taken away. -/
  retired : List Watcher := []

/-- A step of a session whose calls overlap. -/
inductive Happening where
  /-- A call of `start` selects the current locale. -/
  | start (d : Disk)
  /-- A call of `switch` selects the next locale. -/
  | switch (d : Disk)
  /-- A call publishes what came out for its files. -/
  | commit (call : Nat) (outcome : Path → Except LoadFault Messages)
  /-- A call installs its watcher, if its locale is current. -/
  | install (call now : Nat)
  /-- Something happens to the watcher. -/
  | kept (u : Upkeep)
  /-- Something happens to a watcher that was taken away. -/
  | stray (watcher : Nat) (u : Upkeep)
  | shutDown

namespace Overlap

/-- A session in which nothing has happened yet. -/
def fresh (settings : Settings) (root : Path) (loader : Loader) (source : WatchSource)
    (current : String) : Overlap :=
  { session := { settings, root, loader, source, store := .fresh current } }

/-- The watcher is shut down and put with those that were taken away. -/
def retire (o : Overlap) : Overlap :=
  { o with retired := o.retired ++ (o.session.watcher.map (·.shutDown)).toList }

/-- A call selects a locale. If its files can be listed, the call is under way
from now on. -/
def selecting (o : Overlap) (d : Disk) (locale : String) : Overlap :=
  let (s, selected) := o.session.select d locale
  { o.retire with
    session := s
    calls := o.calls ++ (selected.toOption.map fun a => { activation := a, moves := o.moves }).toList }

/-- The session behind a step. A step that is not possible changes nothing. -/
def perform (o : Overlap) : Happening → Overlap
  | .start d => if o.session.settings.enabled then o.selecting d o.session.locale else o
  | .switch d =>
    match o.session.cycle with
    | .error _ => o
    | .ok (s, next) =>
      let o := { o with session := s, moves := o.moves + 1 }
      if s.settings.enabled then o.selecting d next else o
  | .commit i outcome =>
    match o.calls[i]? with
    | none => o
    | some c =>
      if c.committed then o
      else
        let evaluated := c.activation.files.map fun p => (p, outcome p)
        { o with
          session := (o.session.commit c.activation evaluated).1
          calls := o.calls.set i { c with committed := true } }
  | .install i now =>
    match o.calls[i]? with
    | none => o
    | some c =>
      if c.committed then
        let o' := if o.session.locale == c.activation.locale then o.retire else o
        { o' with
          session := o.session.install now c.activation
          calls := o.calls.eraseIdx i }
      else o
  | .kept u =>
    match o.session.watcher with
    | none => o
    | some w => { o with session := o.session.keep w u }
  | .stray i u =>
    match o.retired[i]? with
    | none => o
    | some w =>
      { o with
        session := o.session.take w.locale (w.yielded? u)
        retired := o.retired.set i (w.after o.session.rest u) }
  | .shutDown => { o.retire with session := o.session.shutDown }

/-- The session behind steps that are done one after the other. -/
def run (o : Overlap) (steps : List Happening) : Overlap := steps.foldl perform o

@[simp] theorem run_append (o : Overlap) (steps steps' : List Happening) :
    o.run (steps ++ steps') = (o.run steps).run steps' :=
  List.foldl_append

@[simp] theorem run_singleton (o : Overlap) (h : Happening) : o.run [h] = o.perform h := rfl

/-! ## What a step does

`perform` looks into lists and options on its way, and most of its branches
come to nothing. `Does` lists what is left, with what is known in each case,
and it is the only place where these branches are gone through. Every invariant
of overlaps is one `cases` on it. -/

/-- The session has moved on to the next locale. -/
def moved (o : Overlap) (next : String) : Overlap :=
  { o with
    session := { o.session with store := o.session.store.setLocale next }
    moves := o.moves + 1 }

/-- What a step can do. -/
inductive Does (o : Overlap) : Happening → Overlap → Prop where
  /-- The step is not possible. -/
  | idle (step : Happening) : Does o step o
  | start (d : Disk) (henabled : o.session.settings.enabled = true) :
    Does o (.start d) (o.selecting d o.session.locale)
  | switch (d : Disk) (next : String)
    (hnext : Store.nextLocale? o.session.settings.supportedLocales o.session.locale = some next)
    (henabled : o.session.settings.enabled = true) :
    Does o (.switch d) ((o.moved next).selecting d next)
  /-- A session that is not enabled moves on and loads nothing. -/
  | move (d : Disk) (next : String)
    (hnext : Store.nextLocale? o.session.settings.supportedLocales o.session.locale = some next)
    (hdisabled : ¬ o.session.settings.enabled = true) : Does o (.switch d) (o.moved next)
  | commit (i : Nat) (outcome : Path → Except LoadFault Messages) (c : Call)
    (hcall : o.calls[i]? = some c) (hnew : c.committed = false) :
    Does o (.commit i outcome)
      { o with
        session := (o.session.commit c.activation
          (c.activation.files.map fun p => (p, outcome p))).1
        calls := o.calls.set i { c with committed := true } }
  | install (i now : Nat) (c : Call) (hcall : o.calls[i]? = some c)
    (hcommitted : c.committed = true) (hcurrent : o.session.locale = c.activation.locale) :
    Does o (.install i now)
      { o.retire with
        session := { o.session with
          watcher := some (.install o.session.source now o.session.settings.pollIntervalMs.toNat
            c.activation.locale c.activation.files)
          announced := o.session.announced + 1 }
        calls := o.calls.eraseIdx i }
  /-- Another locale is current by now. -/
  | discard (i now : Nat) (c : Call) (hcall : o.calls[i]? = some c)
    (hcommitted : c.committed = true) (hother : o.session.locale ≠ c.activation.locale) :
    Does o (.install i now) { o with calls := o.calls.eraseIdx i }
  | kept (u : Upkeep) (w : Watcher) (hwatcher : o.session.watcher = some w) :
    Does o (.kept u) { o with session := o.session.keep w u }
  | stray (i : Nat) (u : Upkeep) (w : Watcher) (hretired : o.retired[i]? = some w) :
    Does o (.stray i u)
      { o with
        session := o.session.take w.locale (w.yielded? u)
        retired := o.retired.set i (w.after o.session.rest u) }
  | shutDown : Does o .shutDown { o.retire with session := o.session.shutDown }

/-- **A step does one of these things.** The function decides by cases what a
step comes to, and the relation names them, so that whatever is proved of steps
goes by these names. -/
theorem does_perform (o : Overlap) (step : Happening) : o.Does step (o.perform step) := by
  cases step with
  | start d =>
    rw [perform]
    by_cases henabled : o.session.settings.enabled = true
    · rw [if_pos henabled]
      exact .start d henabled
    · rw [if_neg henabled]
      exact .idle _
  | switch d =>
    rw [perform]
    cases hcycle : o.session.cycle with
    | error fault => exact .idle _
    | ok selected =>
      obtain ⟨s, next⟩ := selected
      obtain ⟨hnext, rfl⟩ := Session.cycle_eq_ok hcycle
      dsimp only
      by_cases henabled : o.session.settings.enabled = true
      · rw [if_pos henabled]
        exact .switch d next hnext henabled
      · rw [if_neg henabled]
        exact .move d next hnext henabled
  | commit i outcome =>
    rw [perform]
    cases hcall : o.calls[i]? with
    | none => exact .idle _
    | some c =>
      dsimp only
      by_cases hcommitted : c.committed = true
      · rw [if_pos hcommitted]
        exact .idle _
      · rw [if_neg hcommitted]
        exact .commit i outcome c hcall (by simpa using hcommitted)
  | install i now =>
    rw [perform]
    cases hcall : o.calls[i]? with
    | none => exact .idle _
    | some c =>
      dsimp only
      by_cases hcommitted : c.committed = true
      · rw [if_pos hcommitted, Session.install]
        -- both the watcher that is there and the call's own depend on whether
        -- its locale is current
        by_cases hcurrent : o.session.locale = c.activation.locale
        · rw [if_pos (beq_iff_eq.mpr hcurrent), if_pos (beq_iff_eq.mpr hcurrent)]
          exact .install i now c hcall hcommitted hcurrent
        · rw [if_neg (by simpa using hcurrent), if_neg (by simpa using hcurrent)]
          exact .discard i now c hcall hcommitted hcurrent
      · rw [if_neg hcommitted]
        exact .idle _
  | kept u =>
    rw [perform]
    cases hwatcher : o.session.watcher with
    | none => exact .idle _
    | some w => exact .kept u w hwatcher
  | stray i u =>
    rw [perform]
    cases hretired : o.retired[i]? with
    | none => exact .idle _
    | some w => exact .stray i u w hretired
  | shutDown => exact .shutDown

/-! ## Calls as wholes

A session does a call in one go, and an overlap does it in parts. That the
second is a refinement of the first has to be shown, or what is proved of
overlaps would not be about the sessions that run: a call without anything in
between ends in the same session. -/

/-- The rest of a call, as it goes if nothing comes in between. -/
def ending (s : Session) (d : Disk) (now : Nat) (call : Nat) : List Happening :=
  [.commit call (s.loader.messages d), .install call now]

section

variable (o : Overlap) (d : Disk) (now : Nat)

/-- A call that is not there does not end. -/
theorem run_ending_of_none {s : Session} {call : Nat} (h : o.calls[call]? = none) :
    o.run (ending s d now call) = o := by
  rw [ending, run, List.foldl_cons, List.foldl_cons, List.foldl_nil]
  have hcommit : o.perform (.commit call (s.loader.messages d)) = o := by rw [perform, h]
  rw [hcommit, perform, h]

/-- A call that goes on without anything in between does what the session does
then. -/
theorem run_ending {s : Session} (hloader : s.loader = o.session.loader) {call : Nat} {c : Call}
    (h : o.calls[call]? = some c) (hnew : c.committed = false) :
    (o.run (ending s d now call)).session = (o.session.finish d now c.activation).1 ∧
      (o.run (ending s d now call)).calls = o.calls.eraseIdx call := by
  -- the files are committed as the session's own loader reads them
  have hcommit : o.perform (.commit call (s.loader.messages d)) =
      { o with
        session := (o.session.commit c.activation
          (Store.evaluate o.session.loader d c.activation.files)).1
        calls := o.calls.set call { c with committed := true } } := by
    rw [perform, h]
    dsimp only
    rw [if_neg (by simp [hnew]), hloader]
    rfl
  -- the call is still there, and is committed now
  have hcall : (o.calls.set call { c with committed := true })[call]?
      = some { c with committed := true } := by
    rw [List.getElem?_set_self]
    exact (List.getElem?_eq_some_iff.mp h).1
  rw [ending, run, List.foldl_cons, List.foldl_cons, List.foldl_nil, hcommit, perform]
  dsimp only
  rw [hcall]
  dsimp only
  rw [if_pos rfl]
  exact ⟨rfl, List.eraseIdx_set_eq⟩

/-- A call that has just begun and then ends, if its files could be listed. -/
theorem session_run_ending {s : Session} (hloader : s.loader = o.session.loader) {before : List Call}
    {pending : Option Activation} {moves : Nat}
    (h : o.calls = before ++ (pending.map fun a => { activation := a, moves := moves }).toList) :
    (o.run (ending s d now before.length)).session
      = pending.elim o.session fun a => (o.session.finish d now a).1 := by
  cases pending with
  | none =>
    rw [run_ending_of_none]
    · rfl
    · rw [h]
      exact List.getElem?_eq_none (by simp)
  | some a =>
    refine (run_ending o d now hloader (c := { activation := a, moves := moves }) ?_ rfl).1
    rw [h]
    exact List.getElem?_concat_length

/-- **A call of `start`** is the run of its parts. With nothing in between, the
parts come to what the call does in one go. -/
theorem run_start :
    (o.run (.start d :: ending o.session d now o.calls.length)).session
      = (o.session.start d now).1 := by
  rw [run, List.foldl_cons, ← run, perform, Session.start]
  split
  · rw [Session.activate_eq]
    exact session_run_ending (o.selecting d o.session.locale) d now rfl rfl
  · rw [run_ending_of_none]
    exact List.getElem?_eq_none (Nat.le_refl _)

/-- The first part of a call of `switch`. -/
theorem perform_switch :
    (o.perform (.switch d)).session = (o.session.selectNext d).1 ∧
      ∃ moves, (o.perform (.switch d)).calls = o.calls ++
        ((Session.pending? (o.session.selectNext d).2).map
          fun a => { activation := a, moves := moves }).toList := by
  rw [perform]
  -- there is no next locale; or there is one, and the session is enabled or
  -- not
  rcases o.session.selectNext_cases d with ⟨fault, hcycle, hsession, hpending⟩ |
    ⟨s, next, hcycle, ⟨henabled, hsession, hpending⟩ | ⟨hdisabled, hsession, hpending⟩⟩
  · rw [hcycle, hsession, hpending]
    exact ⟨rfl, o.moves, (List.append_nil _).symm⟩
  · obtain ⟨-, rfl⟩ := Session.cycle_eq_ok hcycle
    rw [hcycle, hsession, hpending]
    dsimp only
    rw [if_pos henabled]
    exact ⟨rfl, o.moves + 1, rfl⟩
  · obtain ⟨-, rfl⟩ := Session.cycle_eq_ok hcycle
    rw [hcycle, hsession, hpending]
    dsimp only
    rw [if_neg hdisabled]
    exact ⟨rfl, o.moves, (List.append_nil _).symm⟩

/-- **A call of `switch`** is the run of its parts. As in a call of `start`,
selecting is a part of its own, and here it moves on before that. -/
theorem run_switch :
    (o.run (.switch d :: ending o.session d now o.calls.length)).session
      = (o.session.switch d now).1 := by
  obtain ⟨hsession, moves, hcalls⟩ := perform_switch o d
  have hloader : o.session.loader = (o.perform (.switch d)).session.loader := by
    rw [hsession, Session.loader_selectNext]
  rw [run, List.foldl_cons, ← run, session_run_ending _ d now hloader hcalls, hsession,
    Session.switch, Session.finishNext_eq]

/-- **Two joined calls of `switch`** of which the first waits for its files are
a run in which both select their locale before the first one goes on. If it has
nothing to wait for, they are two calls of `switch` one after the other
(`Session.switchTwice_of_not_waits`). -/
theorem run_switchTwice (hwaits : Session.waits (o.session.selectNext d).2 = true) :
    (o.run ([.switch d, .switch d] ++ ending o.session d now o.calls.length
        ++ ending o.session d now o.calls.length)).session
      = (o.session.switchTwice d now).1 := by
  obtain ⟨hsession, moves, hcalls⟩ := perform_switch o d
  obtain ⟨hsession', moves', hcalls'⟩ := perform_switch (o.perform (.switch d)) d
  rw [hsession] at hsession' hcalls'
  rw [hcalls] at hcalls'
  have hloader : o.session.loader = ((o.perform (.switch d)).perform (.switch d)).session.loader := by
    rw [hsession', Session.loader_selectNext, Session.loader_selectNext]
  rw [run_append, run_append, show o.run [.switch d, .switch d]
    = (o.perform (.switch d)).perform (.switch d) from rfl,
    Session.switchTwice_of_waits _ _ _ hwaits, Session.finishNext_eq, Session.finishNext_eq]
  -- from here on, only the calls that both selections have left behind matter
  generalize (o.perform (.switch d)).perform (.switch d) = o' at hsession' hcalls' hloader ⊢
  rw [← hsession']
  obtain ⟨a, hfirst, -⟩ := (Session.waits_iff _).mp hwaits
  generalize Session.pending? ((o.session.selectNext d).1.selectNext d).2 = second at hcalls'
  rw [hfirst] at hcalls' ⊢
  have hcall : o'.calls[o.calls.length]? = some { activation := a, moves := moves } := by
    rw [hcalls', List.append_assoc, List.getElem?_append_right (Nat.le_refl _), Nat.sub_self]
    rfl
  obtain ⟨hfinished, hrest⟩ := run_ending o' d now hloader hcall rfl
  -- the first call is gone when it has ended, and the second has moved up to
  -- its place
  have hleft : (o'.run (ending o.session d now o.calls.length)).calls
      = o.calls ++ (second.map fun a => { activation := a, moves := moves' }).toList := by
    rw [hrest, hcalls', List.append_assoc, List.eraseIdx_append_of_length_le (Nat.le_refl _),
      Nat.sub_self]
    rfl
  rw [session_run_ending _ d now (by rw [hfinished, Session.loader_finish]; exact hloader) hleft,
    hfinished]
  rfl

end

/-! ## Keeping up as a whole

Time that passes is a loop in a session, and a list of steps in an overlap. The
list is put together while the loop runs: each look is one step, and each
reload is two, one when it has rested and one when it was loaded. -/

/-- The reloads of the watcher are accounted for. -/
def Accounted (o : Overlap) : Prop := ∀ w, o.session.watcher = some w → w.reloads.Owned

/-- A session without a watcher has nothing to account for. -/
theorem accounted_fresh (settings : Settings) (root : Path) (loader : Loader) (source : WatchSource)
    (current : String) : (fresh settings root loader source current).Accounted :=
  fun w hw => absurd hw (by simp [fresh])

section

variable {o : Overlap}

/-- A step keeps the account. -/
theorem Accounted.does (h : o.Accounted) {step : Happening} {o' : Overlap} (hdoes : o.Does step o') :
    o'.Accounted := by
  intro w hw
  cases hdoes with
  | idle => exact h w hw
  | start d henabled => exact absurd hw (by simp [selecting, Session.select])
  | switch d next hnext henabled => exact absurd hw (by simp [selecting, Session.select])
  | move d next hnext hdisabled => exact h w hw
  | commit i outcome c hcall hnew => exact h w hw
  | install i now c hcall hcommitted hcurrent =>
    -- the new watcher has no reloads yet
    obtain rfl := Option.some.inj hw
    exact Reloads.owned_empty
  | discard i now c hcall hcommitted hother => exact h w hw
  | kept u w' hwatcher =>
    obtain rfl := Option.some.inj hw
    exact Watcher.owned_after (h w' hwatcher) o.session.rest u
  | stray i u w' hretired =>
    dsimp only at hw
    rw [(o.session.take_frame _ _).2.1] at hw
    exact h w hw
  | shutDown => exact absurd hw (by simp [Session.shutDown])

theorem Accounted.run (h : o.Accounted) (steps : List Happening) : (o.run steps).Accounted := by
  induction steps using List.reverseRecOn with
  | nil => exact h
  | append_singleton steps step ih =>
    rw [run_append, run_singleton]
    exact ih.does (does_perform _ step)

/-- What happens to the watcher that is there. -/
theorem session_perform_kept {w : Watcher} (h : o.session.watcher = some w) (u : Upkeep) :
    (o.perform (.kept u)).session = o.session.keep w u := by
  rw [perform, h]

/-- **To be told of a change** is one step. Without a watcher no one is told,
and nothing happens on either side. -/
theorem session_perform_heard (o : Overlap) (now : Nat) (p : Path) :
    (o.perform (.kept (.heard now p))).session = o.session.receive now p := by
  cases h : o.session.watcher with
  | none =>
    rw [perform, h, Session.receive, h]
    exact congrArg (fun w => { o.session with watcher := w }) h
  | some w => rw [session_perform_kept h, Session.receive_eq_keep _ h]

/-- **To let time pass** is a run of steps of the watcher. Which steps it takes
depends on what is due meanwhile, and so does their number, so that the run is
only said to exist. -/
theorem exists_run_passing (h : o.Accounted) (d : Disk) (now stop : Nat) :
    ∃ us : List Upkeep, (o.run (us.map .kept)).session = o.session.run d now stop := by
  refine Session.runUpTo_keeps
    (P := fun s => ∃ us : List Upkeep, (o.run (us.map .kept)).session = s)
    (fun s due hs hdue _ => ?_) _ ⟨[], rfl⟩
  obtain ⟨us, rfl⟩ := hs
  have howned := h.run (us.map .kept)
  generalize ho : o.run (us.map .kept) = o' at hdue howned ⊢
  obtain ⟨w, hw, ⟨poller, -, -, hact⟩ | ⟨t, ht, hact⟩⟩ := Session.act_cases hdue d
  · refine ⟨us ++ [.looked d due], ?_⟩
    rw [List.map_append, run_append, ho, hact, Session.look_eq_keep]
    exact session_perform_kept hw _
  · -- a reload is two steps, and behind the first one the watcher is still there
    refine ⟨us ++ [.rested t.generation,
      .loaded t.generation (o'.session.loader.messages d t.path)], ?_⟩
    have hrested := session_perform_kept hw (.rested t.generation)
    rw [List.map_append, run_append, ho, hact, Session.reload_eq_keep _ d (howned w hw) ht,
      ← hrested]
    exact session_perform_kept (by rw [hrested]; rfl) _

end

end Overlap

end LocaleKeys
