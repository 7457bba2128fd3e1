/-
What goes on when a session is shut down.

To shut a session down takes its watcher away, and that is all. Nothing tells
the calls that are under way by then. Each of them still publishes what it has
loaded, and at its end it compares its locale with the current one, as it would
have done anyway. So a session stays shut down exactly if none of these calls
is for the current locale (`Overlap.stays_closed_iff`). One that is installs a
watcher when it ends.

As long as no call begins, the current locale stays, and which calls are for it
does not change either (`Overlap.Closed`). So the condition can be checked when
the session is shut down. It is exact: for a call that is for the current
locale, there is a way to go on in which it ends, and then there is a watcher.
-/
import LocaleKeys.Proofs.Session.Newest

set_option autoImplicit false

namespace LocaleKeys

/-- A call begins with the step. -/
def Happening.begins : Happening → Bool
  | .start _ | .switch _ => true
  | _ => false

namespace Overlap

/-- There is no watcher, and none of the calls under way is going to install
one. -/
structure Closed (o : Overlap) : Prop where
  unwatched : o.session.watcher = none
  outdated : ∀ c ∈ o.calls, c.activation.locale ≠ o.session.locale

/-- What can be seen of the current locale is the same: its name, its
dictionary, and how many changes were announced. -/
structure LooksLike (o o' : Overlap) : Prop where
  locale : o'.session.locale = o.session.locale
  announced : o'.session.announced = o.session.announced
  dictionary : o'.session.store.dictionary? o.session.locale
    = o.session.store.dictionary? o.session.locale

section

variable {o : Overlap}

theorem looksLike_of_session_eq {o' : Overlap} (h : o'.session = o.session) : o.LooksLike o' := by
  refine ⟨?_, ?_, ?_⟩ <;> rw [h]

theorem LooksLike.trans {o' o'' : Overlap} (h : o.LooksLike o') (h' : o'.LooksLike o'') :
    o.LooksLike o'' := by
  refine ⟨h'.locale.trans h.locale, h'.announced.trans h.announced, ?_⟩
  rw [← h.dictionary, ← h.locale]
  exact h'.dictionary

/-- **A step that no call begins with** leaves a closed session closed, and
nothing of the current locale changes. Calls that are still under way are for
other locales, and so they publish for those and install nothing. -/
theorem Closed.does (h : o.Closed) (hsound : o.Sound) {step : Happening} {o' : Overlap}
    (hdoes : o.Does step o') (hstep : step.begins = false) : o'.Closed ∧ o.LooksLike o' := by
  cases hdoes with
  | idle => exact ⟨h, looksLike_of_session_eq rfl⟩
  | start d henabled => exact absurd hstep (by simp [Happening.begins])
  | switch d next hnext henabled => exact absurd hstep (by simp [Happening.begins])
  | move d next hnext hdisabled => exact absurd hstep (by simp [Happening.begins])
  | commit i outcome c hcall hnew =>
    have hother := h.outdated c (List.mem_of_getElem? hcall)
    refine ⟨⟨h.unwatched, fun c' hc' => ?_⟩, ⟨rfl, rfl, ?_⟩⟩
    · rcases List.mem_or_eq_of_mem_set hc' with hc' | rfl
      · exact h.outdated c' hc'
      · exact hother
    · exact (Store.publish_of_ne o.session.store c.activation.locale _ _ hother).1
  | install i now c hcall hcommitted hcurrent =>
    exact absurd hcurrent.symm (h.outdated c (List.mem_of_getElem? hcall))
  | discard i now c hcall hcommitted hother =>
    refine ⟨⟨h.unwatched, fun c' hc' => ?_⟩, looksLike_of_session_eq rfl⟩
    exact h.outdated c' (List.mem_of_mem_eraseIdx hc')
  | kept u w hwatcher => exact absurd (h.unwatched.symm.trans hwatcher) (by simp)
  | stray i u w hretired =>
    -- a watcher that was taken away hands nothing on
    have hsession := (hsound.stray hretired u).1
    refine ⟨⟨?_, fun c hc => ?_⟩, looksLike_of_session_eq hsession⟩
    · dsimp only
      rw [hsession]
      exact h.unwatched
    · dsimp only
      rw [hsession]
      exact h.outdated c hc
  | shutDown => exact ⟨⟨rfl, h.outdated⟩, ⟨rfl, rfl, rfl⟩⟩

theorem Closed.run (h : o.Closed) (hsound : o.Sound) {later : List Happening}
    (hlater : ∀ step ∈ later, step.begins = false) :
    (o.run later).Closed ∧ o.LooksLike (o.run later) := by
  induction later using List.reverseRecOn with
  | nil => exact ⟨h, looksLike_of_session_eq rfl⟩
  | append_singleton later step ih =>
    obtain ⟨hclosed, hsame⟩ := ih fun step' hstep' => hlater step' (List.mem_append_left _ hstep')
    obtain ⟨hclosed', hsame'⟩ := hclosed.does (sound_run hsound later) (does_perform _ step)
      (hlater step (List.mem_append_right _ List.mem_cons_self))
    rw [run_append, run_singleton]
    exact ⟨hclosed', hsame.trans hsame'⟩

/-- A call whose locale is current installs its watcher if it goes on to its
end. -/
theorem exists_watcher_of_call {c : Call} (hc : c ∈ o.calls)
    (hcurrent : c.activation.locale = o.session.locale) :
    ∃ later, (∀ step ∈ later, step.begins = false) ∧ (o.run later).session.watcher ≠ none := by
  obtain ⟨i, hi, hcall⟩ := List.getElem_of_mem hc
  have hsome : o.calls[i]? = some c := by rw [List.getElem?_eq_getElem hi, hcall]
  -- the call publishes if it has not done so yet, and then it finds its locale
  -- current
  let o' := o.perform (.commit i fun _ => .ok ∅)
  -- behind this step the call is committed, whether it was so before or not
  obtain ⟨⟨c', hcall', hcommitted, hactivation⟩, hlocale⟩ :
      (∃ c', o'.calls[i]? = some c' ∧ c'.committed = true ∧ c'.activation = c.activation) ∧
        o'.session.locale = o.session.locale := by
    dsimp only [o']
    rw [perform, hsome]
    dsimp only
    split
    next hcommitted => exact ⟨⟨c, hsome, hcommitted, rfl⟩, rfl⟩
    next => exact ⟨⟨{ c with committed := true }, List.getElem?_set_self hi, rfl, rfl⟩, rfl⟩
  refine ⟨[.commit i fun _ => .ok ∅, .install i 0], by simp [Happening.begins], ?_⟩
  rw [show o.run [.commit i fun _ => .ok ∅, .install i 0] = o'.perform (.install i 0) from rfl,
    session_install o' hcall' hcommitted, Session.install, hactivation, hlocale,
    if_pos (beq_iff_eq.mpr hcurrent.symm)]
  exact Option.some_ne_none _

end

/-- **When a session stays shut down.** Until another call begins, no watcher
gets installed, no change is announced and the dictionary of the current locale
stays as it is, whatever else happens, exactly if no call that is under way
when the session is shut down is for the current locale. -/
theorem stays_closed_iff (settings : Settings) (root : Path) (loader : Loader) (source : WatchSource)
    (current : String) (steps : List Happening) :
    let o := ((fresh settings root loader source current).run steps).perform .shutDown
    (∀ later, (∀ step ∈ later, step.begins = false) →
        (o.run later).session.watcher = none ∧ o.LooksLike (o.run later)) ↔
      ∀ c ∈ o.calls, c.activation.locale ≠ o.session.locale := by
  intro o
  have hsound : o.Sound := by
    have hrun := sound_run (sound_fresh settings root loader source current) (steps ++ [.shutDown])
    rwa [run_append, run_singleton] at hrun
  constructor
  · intro hstays c hc hcurrent
    obtain ⟨later, hlater, hwatcher⟩ := exists_watcher_of_call hc hcurrent
    exact hwatcher (hstays later hlater).1
  · intro houtdated later hlater
    obtain ⟨hclosed, hsame⟩ := Closed.run ⟨rfl, houtdated⟩ hsound hlater
    exact ⟨hclosed.unwatched, hsame⟩

end Overlap

end LocaleKeys
