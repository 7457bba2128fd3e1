/-
Quiet sessions.

A session is left alone for a while: nothing is called, and no file changes.
Within an interval the poller looks at the files, and since they stay as they
are this is the last look that reports anything; a rest later the last reload
has ended. From then on the session is quiet, and each file that is watched has
given what it says (`Moment.watched_files_given`).

One kind of change escapes a poller, and the statement names it: what happens
to a file between a call and the next moment at which time passes
(`Moment.Missed`), when the messages have been loaded and the poller has yet to
look at its files for the first time. In a settled run there is no such change.
-/
import LocaleKeys.Proofs.Session.Freshness

set_option autoImplicit false

namespace LocaleKeys

namespace Session

/-- How a session goes on with its watcher that is left alone from the time
`now` on: the poller has yet to look at the files or remembers them as they
are, and the reloads end in time. -/
def Settling (settings : Settings) (locale : String) (files : List Path) (d : Disk) (now : Nat)
    (s : Session) : Prop :=
  s.settings = settings ∧ ∃ w poller, s.watcher = some w ∧ w.locale = locale ∧ w.files = files ∧
    w.poller = some poller ∧
    (poller.next ≤ now + settings.pollIntervalMs.toNat ∨
      ∀ p stamp, (p, stamp) ∈ poller.remembered d → stamp = d.stamp? p) ∧
    ∀ t ∈ w.reloads.live,
      t.due ≤ now + settings.pollIntervalMs.toNat + settings.debounceMs.toNat

variable {s : Session} {d : Disk} {now : Nat}

/-- Each thing that is done leads on to quiet. -/
theorem Settling.act {settings : Settings} {locale : String} {files : List Path}
    (h : s.Settling settings locale files d now) {early late : Nat} (htimed : s.Timed early late)
    {due : Nat} (hdue : s.nextDue? = some due) :
    (s.act d due).Settling settings locale files d now := by
  obtain ⟨hsettings, w, poller, hw, hlocale, hfiles, hpoller, hnoticed, hends⟩ := h
  obtain ⟨w', hw', hcases⟩ := act_cases hdue d
  obtain rfl := Option.some.inj (hw.symm.trans hw')
  -- what is done next is a look or a reload
  rcases hcases with ⟨poller', hpoller', rfl, hact⟩ | ⟨t, -, hact⟩
  · obtain rfl := Option.some.inj (hpoller.symm.trans hpoller')
    rw [hact, Watcher.look_eq hpoller]
    refine ⟨hsettings, _, _, rfl, hlocale, hfiles, rfl,
      .inr fun p stamp hp => (Poller.mem_remembered_look hp).1, fun t ht => ?_⟩
    rcases (htimed w hw).owned.mem_live_receiveAll _ _ _ ht with ht | ⟨hpath, hrests, -⟩
    · exact hends t ht
    · -- what is reported was not remembered, so that this is the look that was yet to come
      rcases hnoticed with hnext | hpresent
      · rw [hrests, hsettings]
        exact Nat.add_le_add_right hnext _
      · rw [Poller.reported_eq_nil hpresent] at hpath
        exact absurd hpath (by simp)
  · obtain ⟨hsettings', -, -, hwatcher⟩ := s.reload_frame d w t
    rw [hact]
    exact ⟨hsettings'.trans hsettings, _, poller, hwatcher, hlocale, hfiles, hpoller, hnoticed,
      fun t' ht' => hends t' ((Reloads.mem_live_ended _ _).mp ht').1⟩

end Session

namespace Moment

/-- A session with the locale `en` in one file. -/
def english : Session :=
  ⟨{ supportedLocales := ["en"], localePaths := [localePlaceholder ++ ".json"] }, ⟨"."⟩, jsonLoader, .polling,
    { current := "en" }, none, 0⟩

/-- The file says that `a` is `1`. -/
def firstEdition : Disk := ⟨.directory [("en.json", .file (.ofText "\x7b\"a\":\"1\"\x7d" 1))], []⟩

/-- The file is written over: `a` is `2`. -/
def writeOver : Deed := .write ⟨"en.json"⟩ (.ofText "\x7b\"a\":\"2\"\x7d" 2)

/-- **The same change at once behind the call is missed.** The poller begins
with the new stamp, no reload begins, and the file has still given its old
text. -/
theorem write_at_once_missed :
    let deeds : List Deed := [.start, writeOver, .advance 600]
    let m := run ⟨english, firstEdition, 0⟩ deeds
    Missed ⟨english, firstEdition, 0⟩ deeds ⟨"en.json"⟩ (m.disk.stamp? ⟨"en.json"⟩) ∧
      jsonLoader m.disk ⟨"en.json"⟩ = .ok (.object [("a", .string "2")]) ∧
      m.session.watcher = some ⟨"en", [⟨"en.json"⟩],
        some ⟨250, 750, [⟨"en.json"⟩], some [(⟨"en.json"⟩, m.disk.stamp? ⟨"en.json"⟩)]⟩, {}⟩ ∧
      ((m.session.store.contributionsOf "en").find? ⟨"en.json"⟩).bind (·["a"]?) = some "1" := by
  intro deeds m
  refine ⟨⟨[.start, writeOver], 600, [], firstEdition, rfl, by simp,
    ⟨[], ⟨.start, [writeOver], rfl, rfl, by decide⟩, rfl⟩, fun hsame => ?_, ?_⟩, rfl, ?_, ?_⟩
  · have hstamps := congrArg (Option.map FileTree.stamp) hsame
    exact absurd hstamps (by decide +kernel)
  · decide +kernel
  · decide +kernel
  · decide +kernel

end Moment

end LocaleKeys
