/-
What a session does to its store.

A session touches its store in two ways only: a call that makes a locale active
loads its files, and a reload that ends publishes what its file says. So what a
session has done to the store is a run of the store, and what holds behind
every such run holds of the dictionaries of a session.
-/
import LocaleKeys.Proofs.Dictionary.Runs
import LocaleKeys.Proofs.Session.Running

set_option autoImplicit false

namespace LocaleKeys.Session

variable {s : Session} {d : Disk}

/-- To load files and to watch them leads nowhere. -/
theorem finish_frame (s : Session) (d : Disk) (now : Nat) (a : Activation) :
    (s.finish d now a).1.settings = s.settings ∧ (s.finish d now a).1.root = s.root ∧
      (s.finish d now a).1.locale = s.locale := by
  rw [finish]
  dsimp only
  rw [install]
  split <;> exact ⟨rfl, rfl, rfl⟩

/-- A session that starts is still the same session, and looks at the same
locale. -/
theorem start_frame (s : Session) (d : Disk) (now : Nat) :
    (s.start d now).1.settings = s.settings ∧ (s.start d now).1.root = s.root ∧
      (s.start d now).1.locale = s.locale := by
  rw [start]
  split
  · rw [activate_eq]
    cases (s.select d s.locale).2.toOption with
    | none => exact ⟨rfl, rfl, rfl⟩
    | some a => exact (s.select d s.locale).1.finish_frame d now a
  · exact ⟨rfl, rfl, rfl⟩

/-- A session that starts loads the files of its locale. -/
theorem start_eq_ok (now : Nat) (henabled : s.settings.enabled = true) {files : List Path}
    (hfiles : s.localeFiles d s.locale = .ok files) :
    (s.start d now).1.store = s.store.run [.load s.locale (Store.evaluate s.loader d files)] ∧
      ∃ load, (s.start d now).2 = .ok load := by
  have hselected : (s.select d s.locale).2 = .ok ⟨s.locale, files⟩ := by
    rw [select, hfiles]
    rfl
  rw [start, if_pos henabled, activate]
  dsimp only
  rw [hselected, finishIf.eq_def]
  refine ⟨?_, _, rfl⟩
  dsimp only
  rw [finish]
  dsimp only
  rw [install]
  split <;> rfl

/-- A session that cannot list the files of its locale does not start. -/
theorem start_eq_error (now : Nat) (henabled : s.settings.enabled = true) {fault : ConfigFault}
    (hfiles : s.localeFiles d s.locale = .error fault) : (s.start d now).2 = .error fault := by
  have hselected : (s.select d s.locale).2 = .error fault := by
    rw [select, hfiles]
    rfl
  rw [start, if_pos henabled, activate]
  dsimp only
  rw [hselected]
  rfl

/-- **While time passes a session reloads files** and does nothing else to its
store. -/
theorem store_run (s : Session) (d : Disk) (now stop : Nat) :
    (s.run d now stop).settings = s.settings ∧ (s.run d now stop).locale = s.locale ∧
      ∃ ops : List Operation, (∀ op ∈ ops, ∃ locale evaluated, op = .reload locale evaluated) ∧
        (s.run d now stop).store = s.store.run ops := by
  refine runUpTo_keeps
    (P := fun s' => s'.settings = s.settings ∧ s'.locale = s.locale ∧ ∃ ops : List Operation,
      (∀ op ∈ ops, ∃ locale evaluated, op = .reload locale evaluated) ∧ s'.store = s.store.run ops)
    (fun s' due hs hdue _ => ?_) _ ⟨rfl, rfl, [], by simp, rfl⟩
  obtain ⟨hsettings, hlocale, ops, hops, hstore⟩ := hs
  obtain ⟨w, -, ⟨poller, -, -, hact⟩ | ⟨t, -, hact⟩⟩ := act_cases hdue d
  · rw [hact]
    exact ⟨hsettings, hlocale, ops, hops, hstore⟩
  · rw [hact]
    obtain ⟨hsettings', -, hlocale', -⟩ := s'.reload_frame d w t
    refine ⟨hsettings'.trans hsettings, hlocale'.trans hlocale,
      ops ++ [.reload w.locale (t.path, s'.loader.messages d t.path)], fun op hop => ?_, ?_⟩
    · rcases List.mem_append.mp hop with hop | hop
      · exact hops op hop
      · exact ⟨_, _, List.mem_singleton.mp hop⟩
    · rw [Store.run_append, Store.run_singleton, ← hstore, Store.perform_reload_evaluate, reload]
      dsimp only
      split <;> rfl

end LocaleKeys.Session
