/-
The watcher follows the locale.

Loads may end in any order, and long after the session has moved on. That
nevertheless no dictionary is written by a watcher that has gone stale rests on
three facts, which every step of an overlap keeps (`Overlap.Sound`). Whoever
changes the current locale takes the watcher away in the same step; whoever
installs one has just seen that its locale is current; and a watcher that was
taken away has nothing under way any more, so that whatever reaches it later
comes to nothing.

The second of these would be worth little if another watcher could be installed
between the comparison and the installation. The engine does both under one
guard of its watcher, and in an overlap they are one step.

A session that is not enabled moves on without taking a watcher away. The
invariant has to say that there is none then, and no call either that could
still install one.
-/
import LocaleKeys.Proofs.Session.Overlap

set_option autoImplicit false

namespace LocaleKeys

namespace Session

/-- A reload writes into the dictionary of its own locale only. -/
theorem dictionary?_take_of_ne (s : Session) {locale other : String} (e : Option Evaluated)
    (h : locale ≠ other) :
    (s.take locale e).store.dictionary? other = s.store.dictionary? other := by
  rcases e with - | ⟨p, fault | m⟩
  · rfl
  · rfl
  · exact (Store.publish_of_ne s.store locale _ _ h).1

end Session

namespace Overlap

/-- What holds whichever steps were done. -/
structure Sound (o : Overlap) : Prop where
  /-- The locale of the watcher is current. -/
  follows : ∀ w, o.session.watcher = some w → w.locale = o.session.locale
  /-- Only a session that is enabled has a watcher, or calls that may install
  one. -/
  enabled : o.session.watcher ≠ none ∨ o.calls ≠ [] → o.session.settings.enabled = true
  /-- The watchers that were taken away are shut down. -/
  silent : ∀ w ∈ o.retired, w.IsShutDown

/-- At the start there is nothing to agree. -/
theorem sound_fresh (settings : Settings) (root : Path) (loader : Loader) (source : WatchSource)
    (current : String) : (fresh settings root loader source current).Sound := by
  refine ⟨fun w hw => absurd hw (by simp [fresh]), ?_, fun w hw => absurd hw (by simp [fresh])⟩
  rintro (h | h)
  · exact absurd rfl h
  · exact absurd rfl h

section

variable {o : Overlap}

/-- A watcher that is taken away is shut down first. -/
theorem silent_retire (h : ∀ w ∈ o.retired, w.IsShutDown) : ∀ w ∈ o.retire.retired, w.IsShutDown := by
  intro w hw
  rcases List.mem_append.mp hw with hw | hw
  · exact h w hw
  · rw [Option.mem_toList] at hw
    obtain ⟨w', -, rfl⟩ := Option.map_eq_some_iff.mp hw
    exact w'.isShutDown_shutDown

/-- Selecting a locale takes the watcher away, so that there is nothing left to
agree with it. -/
theorem sound_selecting (hsilent : ∀ w ∈ o.retired, w.IsShutDown)
    (henabled : o.session.settings.enabled = true) (d : Disk) (locale : String) :
    (o.selecting d locale).Sound := by
  refine ⟨fun w hw => absurd hw ?_, fun _ => henabled, silent_retire hsilent⟩
  simp [selecting, Session.select]

/-- Moving on without a watcher and without calls leaves nothing to agree
either. -/
theorem Sound.moved (h : o.Sound) (hdisabled : ¬ o.session.settings.enabled = true) (next : String) :
    (o.moved next).Sound := by
  have hnone : ¬ (o.session.watcher ≠ none ∨ o.calls ≠ []) := fun hsome =>
    hdisabled (h.enabled hsome)
  refine ⟨fun w hw => absurd (.inl ?_) hnone, h.enabled, h.silent⟩
  rw [show o.session.watcher = some w from hw]
  simp

/-- What happens to the watcher changes neither its locale nor the current one. -/
theorem Sound.kept (h : o.Sound) {w : Watcher} (hwatcher : o.session.watcher = some w)
    (u : Upkeep) : Sound { o with session := o.session.keep w u } := by
  obtain ⟨hsettings, -, hlocale⟩ := o.session.take_frame w.locale (w.yielded? u)
  refine ⟨fun w' hw' => ?_, fun _ => ?_, h.silent⟩
  · rw [← Option.some.inj hw', w.locale_after, h.follows w hwatcher]
    exact hlocale.symm
  · rw [show (o.session.keep w u).settings = o.session.settings from hsettings]
    exact h.enabled (.inl (by rw [hwatcher]; simp))

/-- A watcher that was taken away hands nothing on, and stays as it is. -/
theorem Sound.stray (h : o.Sound) {i : Nat} {w : Watcher} (hretired : o.retired[i]? = some w)
    (u : Upkeep) :
    o.session.take w.locale (w.yielded? u) = o.session ∧
      ∀ w' ∈ o.retired.set i (w.after o.session.rest u), w'.IsShutDown := by
  obtain ⟨hafter, hnothing⟩ :=
    (h.silent w (List.mem_of_getElem? hretired)).after o.session.rest u
  refine ⟨by rw [hnothing]; rfl, fun w' hw' => ?_⟩
  rcases List.mem_or_eq_of_mem_set hw' with hw' | rfl
  · exact h.silent w' hw'
  · exact hafter

/-- **Every step keeps the invariant.** The current locale changes only in
steps that take the watcher away, or where there is none, and a watcher comes
only in one that has compared its locale with the current one. -/
theorem Sound.does (h : o.Sound) {step : Happening} {o' : Overlap} (hdoes : o.Does step o') :
    o'.Sound := by
  have hcalled : ∀ {i c}, o.calls[i]? = some c → o.session.settings.enabled = true := fun hcall =>
    h.enabled (.inr (List.ne_nil_of_mem (List.mem_of_getElem? hcall)))
  cases hdoes with
  | idle => exact h
  | start d henabled => exact sound_selecting h.silent henabled d _
  | switch d next hnext henabled => exact sound_selecting (o := o.moved next) h.silent henabled d _
  | move d next hnext hdisabled => exact h.moved hdisabled next
  | commit i outcome c hcall hnew => exact ⟨h.follows, fun _ => hcalled hcall, h.silent⟩
  | install i now c hcall hcommitted hcurrent =>
    -- the locale of the new watcher has just been seen to be current
    refine ⟨fun w hw => ?_, fun _ => hcalled hcall, silent_retire h.silent⟩
    rw [← Option.some.inj hw]
    exact hcurrent.symm
  | discard i now c hcall hcommitted hother => exact ⟨h.follows, fun _ => hcalled hcall, h.silent⟩
  | kept u w hwatcher => exact h.kept hwatcher u
  | stray i u w hretired =>
    obtain ⟨hsession, hsilent⟩ := h.stray hretired u
    rw [hsession]
    exact ⟨h.follows, h.enabled, hsilent⟩
  | shutDown =>
    refine ⟨fun w hw => absurd hw (by simp [Session.shutDown]), ?_, silent_retire h.silent⟩
    rintro (hsome | hcalls)
    · exact absurd rfl hsome
    · exact h.enabled (.inr hcalls)

end

/-- The invariant holds behind every run, since the last step of it keeps what
held before. -/
theorem sound_run {o : Overlap} (h : o.Sound) (steps : List Happening) : (o.run steps).Sound := by
  induction steps using List.reverseRecOn with
  | nil => exact h
  | append_singleton steps step ih =>
    rw [run_append, run_singleton]
    exact ih.does (does_perform _ step)

/-! ## Which step changes which dictionary

By the cases of a step. Only two of them write at all, and the one that is not
a call can only write for the current locale, because of what has been shown of
the watcher. -/

/-- **Who writes.** A dictionary is changed by the part of a call that
publishes its locale, or by what happens to the watcher of its locale, and by
nothing else. -/
theorem Sound.writes {o o' : Overlap} (h : o.Sound) {step : Happening} (hdoes : o.Does step o')
    {locale : String}
    (hchange : o'.session.store.dictionary? locale ≠ o.session.store.dictionary? locale) :
    (∃ i outcome c, step = .commit i outcome ∧ o.calls[i]? = some c ∧ c.committed = false ∧
        c.activation.locale = locale) ∨
      ∃ u w, step = .kept u ∧ o.session.watcher = some w ∧ w.locale = locale ∧
        o'.session.locale = o.session.locale := by
  cases hdoes with
  | idle => exact absurd rfl hchange
  | start d henabled => exact absurd rfl hchange
  | switch d next hnext henabled => exact absurd rfl hchange
  | move d next hnext hdisabled => exact absurd rfl hchange
  | commit i outcome c hcall hnew =>
    refine .inl ⟨i, outcome, c, rfl, hcall, hnew, ?_⟩
    by_contra hne
    exact hchange (Store.publish_of_ne o.session.store c.activation.locale _ _ hne).1
  | install i now c hcall hcommitted hcurrent => exact absurd rfl hchange
  | discard i now c hcall hcommitted hother => exact absurd rfl hchange
  | kept u w hwatcher =>
    refine .inr ⟨u, w, rfl, hwatcher, ?_, (o.session.take_frame _ _).2.2⟩
    by_contra hne
    exact hchange (o.session.dictionary?_take_of_ne _ hne)
  | stray i u w hretired =>
    -- a watcher that was taken away has not written anything
    dsimp only at hchange
    rw [(h.stray hretired u).1] at hchange
    exact absurd rfl hchange
  | shutDown => exact absurd rfl hchange

/-- What reaches a watcher that was taken away does not reach the session. -/
theorem Sound.session_stray {o : Overlap} (h : o.Sound) (i : Nat) (u : Upkeep) :
    (o.perform (.stray i u)).session = o.session := by
  rw [perform]
  cases hretired : o.retired[i]? with
  | none => rfl
  | some w => exact (h.stray hretired u).1

/-- **The watcher and the locale agree.** Behind every run, whichever calls
overlap in it and however, a watcher that is installed is that of the current
locale. The dictionary of a locale that is not current, before a step or behind
it, is changed by this step only if it is the part of a call under way for this
locale that publishes what was loaded. And what reaches a watcher that was
taken away changes nothing at all in the session. -/
theorem watcher_follows_locale (settings : Settings) (root : Path) (loader : Loader)
    (source : WatchSource) (current : String) (steps : List Happening) :
    let o := (fresh settings root loader source current).run steps
    (∀ w, o.session.watcher = some w → w.locale = o.session.locale) ∧
      (∀ step locale,
        (locale ≠ o.session.locale ∨ locale ≠ (o.perform step).session.locale) →
        (o.perform step).session.store.dictionary? locale
          ≠ o.session.store.dictionary? locale →
        ∃ i outcome c, step = .commit i outcome ∧ o.calls[i]? = some c ∧ c.committed = false ∧
          c.activation.locale = locale) ∧
      ∀ i u, (o.perform (.stray i u)).session = o.session := by
  intro o
  have h : o.Sound := sound_run (sound_fresh settings root loader source current) steps
  refine ⟨h.follows, fun step locale hother hchange => ?_, h.session_stray⟩
  rcases h.writes (o.does_perform step) hchange with hcommit | ⟨u, w, rfl, hw, rfl, hlocale⟩
  · exact hcommit
  · -- the watcher's locale is current, before the step and behind it
    rw [hlocale, or_self] at hother
    exact absurd (h.follows w hw) hother

end Overlap

end LocaleKeys
