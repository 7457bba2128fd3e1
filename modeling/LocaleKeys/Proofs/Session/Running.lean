/-
Doing what is due.

While time passes a session does one thing after the other, each at the time
when it falls due. The number of things is bounded beforehand. That the bound
is no limit, so that at the end nothing is left that was due, is shown by
counting what may still come (`Session.workLeft`): as many looks as fit into
the time, each with a reload for every file, and the reloads that are under
way. Each thing that is done makes that less (`Session.Timed.workLeft_act_lt`),
because a look adds one reload for a file at most.
-/
import LocaleKeys.Proofs.Session.Parts
import LocaleKeys.Proofs.Watch.Looking

set_option autoImplicit false

namespace LocaleKeys

/-- When things of the watcher fall due: the next look not before `early` and
not later than an interval behind `late`, and the reloads not later than a rest
behind `late`. The first look of all is due at `early`. -/
structure Watcher.Timed (w : Watcher) (interval rest early late : Nat) : Prop where
  reloads : ∀ t ∈ w.reloads.live, t.loading = false ∧ t.due ≤ late + rest
  looks : ∀ poller, w.poller = some poller →
    poller.interval = interval ∧ 0 < interval ∧ early ≤ poller.next ∧
      poller.next ≤ late + interval ∧ ∀ d, (poller.remembered d).length ≤ w.files.length
  first : ∀ poller, w.poller = some poller → poller.stamps = none → poller.next ≤ early
  owned : w.reloads.Owned

/-- A watcher that is installed looks at its files as soon as it can. -/
theorem Watcher.timed_install (source : WatchSource) (now interval rest : Nat) (locale : String)
    (files : List Path) :
    (Watcher.install source now interval locale files).Timed interval rest now now := by
  have hinstalled : ∀ poller, (Watcher.install source now interval locale files).poller = some poller →
      interval ≠ 0 ∧ poller = { interval, next := now, paths := files } := by
    intro poller hpoller
    rw [Watcher.install] at hpoller
    cases source with
    | handedIn => exact absurd hpoller (by simp)
    | polling => exact Poller.install_eq_some_iff.mp (by simpa using hpoller)
  refine ⟨fun t ht => absurd ht (by simp [Watcher.install]), fun poller hpoller => ?_,
    fun poller hpoller _ => ?_, Reloads.owned_empty⟩
  · obtain ⟨hinterval, rfl⟩ := hinstalled poller hpoller
    refine ⟨rfl, Nat.pos_of_ne_zero hinterval, Nat.le_refl _, Nat.le_add_right _ _, fun d => ?_⟩
    rw [Poller.remembered_of_none rfl, Poller.initial, List.length_map]
    exact Path.length_distinct_le files
  · obtain ⟨-, rfl⟩ := hinstalled poller hpoller
    exact Nat.le_refl _

namespace Session

/-! ## One thing after the other

`act` picks what is due first, and among things that are due at once a look
comes before a reload. What it does is one of two things, and every invariant
of a running session is shown for these two (`act_cases`, `runUpTo_keeps`). -/

/-- A reload leaves the settings, the locale and the rest of the watcher as
they are. -/
theorem reload_frame (s : Session) (d : Disk) (w : Watcher) (t : Reload) :
    (s.reload d w t).settings = s.settings ∧ (s.reload d w t).loader = s.loader ∧
      (s.reload d w t).locale = s.locale ∧
      (s.reload d w t).watcher
        = some { w with reloads := (w.reloads.expire t.generation).finish t.generation } := by
  have hcurrent : (s.store.reload s.loader d w.locale t.path).1.current = s.store.current := by
    rw [Store.reload]
    cases s.loader.messages d t.path <;> rfl
  rw [reload]
  dsimp only
  split
  · exact ⟨rfl, rfl, hcurrent, rfl⟩
  · exact ⟨rfl, rfl, hcurrent, rfl⟩

/-- **What is done next**: a look at the files if it is time for one, and else
a reload that has rested for long enough. -/
theorem act_cases {s : Session} {due : Nat} (h : s.nextDue? = some due) (d : Disk) :
    ∃ w, s.watcher = some w ∧
      ((∃ poller, w.poller = some poller ∧ poller.next = due ∧
          s.act d due
            = { s with watcher := some (w.look d due s.settings.debounceMs.toNat) }) ∨
        ∃ t ∈ w.reloads.live, s.act d due = s.reload d w t) := by
  obtain ⟨w, hw, hdue⟩ := Option.bind_eq_some_iff.mp h
  obtain ⟨hnext, hpoller, hlive⟩ := Watcher.nextDue?_eq_some hdue
  refine ⟨w, hw, ?_⟩
  rw [act, hw]
  dsimp only
  cases hlooks : w.looksBy due with
  | true =>
    obtain ⟨poller, hpoller', hle⟩ := (Option.any_eq_true _ _).mp hlooks
    exact .inl ⟨poller, hpoller',
      Nat.le_antisymm (of_decide_eq_true hle) (hpoller poller hpoller'), rfl⟩
  | false =>
    rw [if_neg (by simp)]
    cases hreload : w.reloads.dueBy? due with
    | some t => exact .inr ⟨t, (Reloads.mem_of_dueBy? hreload).1, rfl⟩
    | none =>
      -- something is due, and it is neither a look nor a reload
      rcases hnext with ⟨poller, hpoller', hat⟩ | ⟨t, ht, hloading, hat⟩
      · rw [Watcher.looksBy, hpoller', Option.any_some, decide_eq_false_iff_not] at hlooks
        exact absurd (Nat.le_of_eq hat) hlooks
      · exact absurd (Reloads.lt_due_of_dueBy?_eq_none hreload ht hloading)
          (Nat.not_lt_of_le (Nat.le_of_eq hat))

/-- What everything that is done keeps holds at the end. -/
theorem runUpTo_keeps {P : Session → Prop} {d : Disk} {stop : Nat}
    (hact : ∀ s due, P s → s.nextDue? = some due → due ≤ stop → P (s.act d due)) (n : Nat)
    {s : Session} (h : P s) : P (runUpTo n s d stop) := by
  induction n generalizing s with
  | zero => exact h
  | succ n ih =>
    rw [runUpTo]
    cases hdue : s.nextDue? with
    | none => exact h
    | some due =>
      dsimp only
      by_cases hle : due ≤ stop
      · rw [if_pos hle]
        exact ih (hact s due h hdue hle)
      · rw [if_neg hle]
        exact h

/-! ## Times

How late things may be due is what makes the loop end and what makes a session
quiet in the end. Two bounds are kept apart: `early`, before which nothing is
due, moves when time has passed, while `late` is where it is going. -/

/-- When things of the session fall due. -/
def Timed (s : Session) (early late : Nat) : Prop :=
  ∀ w, s.watcher = some w →
    w.Timed s.settings.pollIntervalMs.toNat s.settings.debounceMs.toNat early late

section

variable {s : Session} {early late : Nat}

/-- Things may be due later. -/
theorem Timed.mono (h : s.Timed early late) {late' : Nat} (hlate : late ≤ late') :
    s.Timed early late' := by
  intro w hw
  refine ⟨fun t ht => ?_, fun poller hpoller => ?_, (h w hw).first, (h w hw).owned⟩
  · obtain ⟨hloading, hdue⟩ := (h w hw).reloads t ht
    exact ⟨hloading, hdue.trans (Nat.add_le_add_right hlate _)⟩
  · obtain ⟨hinterval, hpos, hnext, hnext', hlength⟩ := (h w hw).looks poller hpoller
    exact ⟨hinterval, hpos, hnext, hnext'.trans (Nat.add_le_add_right hlate _), hlength⟩

/-- Behind a look the next one is an interval later, and what it has reported
rests from the time of the look on. -/
theorem Timed.look (h : s.Timed early late) {w : Watcher} (hw : s.watcher = some w)
    {poller : Poller} (hpoller : w.poller = some poller) (hle : poller.next ≤ late) (d : Disk) :
    Timed { s with watcher := some (w.look d poller.next s.settings.debounceMs.toNat) }
      early late := by
  obtain ⟨hinterval, hpos, hnext, -, hlength⟩ := (h w hw).looks poller hpoller
  intro w' hw'
  obtain rfl := Option.some.inj hw'
  rw [Watcher.look_eq hpoller]
  refine ⟨fun t ht => ?_, fun poller' hpoller' => ?_, fun poller' hpoller' hnone => ?_,
    (h w hw).owned.receiveAll _ _ _⟩
  · -- what begins with the look rests from the time of the look on
    rcases (h w hw).owned.mem_live_receiveAll _ _ _ ht with ht | ⟨-, hdue, hloading⟩
    · exact (h w hw).reloads t ht
    · exact ⟨hloading, hdue ▸ Nat.add_le_add_right hle _⟩
  · obtain rfl := Option.some.inj hpoller'
    refine ⟨hinterval, hpos, hnext.trans (Nat.le_add_right _ _), ?_, fun d' => ?_⟩
    · rw [← hinterval]
      exact Nat.add_le_add_right hle _
    · rw [Poller.remembered_look, List.length_map]
      exact hlength d
  · obtain rfl := Option.some.inj hpoller'
    exact absurd hnone (by simp [Poller.look])

/-- A reload that is done adds nothing. -/
theorem Timed.reload (h : s.Timed early late) {w : Watcher} (hw : s.watcher = some w)
    (d : Disk) (t : Reload) : (s.reload d w t).Timed early late := by
  obtain ⟨hsettings, -, -, hwatcher⟩ := s.reload_frame d w t
  have howned := ((h w hw).owned.expire t.generation).finish t.generation
  intro w' hw'
  rw [hwatcher] at hw'
  obtain rfl := Option.some.inj hw'
  rw [hsettings]
  exact ⟨fun t' ht' => (h w hw).reloads t' ((Reloads.mem_live_ended _ _).mp ht').1, (h w hw).looks,
    (h w hw).first, howned⟩

/-- What is due next lies within the times, and doing it keeps them. -/
theorem Timed.act (h : s.Timed early late) {due : Nat} (hdue : s.nextDue? = some due)
    (hle : due ≤ late) (d : Disk) : (s.act d due).Timed early late := by
  obtain ⟨w, hw, ⟨poller, hpoller, rfl, hact⟩ | ⟨t, -, hact⟩⟩ := act_cases hdue d
  · rw [hact]
    exact h.look hw hpoller hle d
  · rw [hact]
    exact h.reload hw d t

end

/-! ## What may still come

The loop is given a number of steps. It is a bound computed from the times and
the number of files, and the loop ends before it is used up: the measure gets
smaller with each thing that is done, and it is below the bound at the
start. -/

/-- A bound on what may still be due by the time `stop`. -/
def workLeft (s : Session) (stop : Nat) : Nat :=
  s.watcher.elim 0 fun w =>
    (w.poller.elim 0 fun poller => (stop + 1 - poller.next) * (w.files.length + 1))
      + w.reloads.live.length

section

variable {s : Session} {early late : Nat}

/-- **Each thing that is done leaves less to do.** A look uses up its slot and
may begin a reload for each of its files, so slots are weighed with one more
than there are files. A reload uses up itself. -/
theorem Timed.workLeft_act_lt (h : s.Timed early late) {due : Nat} (hdue : s.nextDue? = some due)
    {stop : Nat} (hle : due ≤ stop) (d : Disk) :
    (s.act d due).workLeft stop < s.workLeft stop := by
  obtain ⟨w, hw, ⟨poller, hpoller, rfl, hact⟩ | ⟨t, ht, hact⟩⟩ := act_cases hdue d
  -- a look: it takes its own slot away and adds as many reloads as it reports
  · obtain ⟨hinterval, hpos, -, -, hlength⟩ := (h w hw).looks poller hpoller
    have hlive := Reloads.length_live_receiveAll_le poller.next s.settings.debounceMs.toNat
      (poller.reported d) (r := w.reloads)
    have hreported := (poller.length_reported_le d).trans (hlength d)
    -- one look less, and a reload for each file at most
    have hlooks : (stop + 1 - (poller.next + poller.interval)) * (w.files.length + 1)
        + (w.files.length + 1) ≤ (stop + 1 - poller.next) * (w.files.length + 1) := by
      rw [← Nat.succ_mul]
      exact Nat.mul_le_mul_right _ (by omega)
    rw [hact, Watcher.look_eq hpoller]
    simp only [workLeft, hw, hpoller, Option.elim_some, Poller.look]
    omega
  -- a reload: it is not under way any more
  · obtain ⟨-, -, -, hwatcher⟩ := s.reload_frame d w t
    have hlive : ((w.reloads.expire t.generation).finish t.generation).live.length
        < w.reloads.live.length := by
      rw [show w.reloads.live.length = (w.reloads.expire t.generation).live.length from
        (List.length_map _).symm, Reloads.finish, Reloads.cancel]
      refine List.length_filter_lt_length_iff_exists.mpr ⟨{ t with loading := true }, ?_, by simp⟩
      exact List.mem_map.mpr ⟨t, ht, by simp⟩
    rw [hact]
    simp only [workLeft, hw, hwatcher, Option.elim_some]
    omega

/-- Who may do as many things as are left, does everything that is due. -/
theorem Timed.runUpTo_done {stop : Nat} (h : s.Timed early stop) {d : Disk} {n : Nat}
    (hn : s.workLeft stop ≤ n) {due : Nat} (hdue : (runUpTo n s d stop).nextDue? = some due) :
    stop < due := by
  induction n generalizing s with
  | zero =>
    by_contra hle
    have hless := h.workLeft_act_lt hdue (Nat.le_of_not_lt hle) d
    exact Nat.not_lt_zero _ (hless.trans_le hn)
  | succ n ih =>
    rw [runUpTo] at hdue
    cases hnext : s.nextDue? with
    | none =>
      rw [hnext] at hdue
      exact absurd (hnext.symm.trans hdue) (by simp)
    | some due' =>
      rw [hnext] at hdue
      dsimp only at hdue
      by_cases hle : due' ≤ stop
      · rw [if_pos hle] at hdue
        have hless := h.workLeft_act_lt hnext hle d
        exact ih (h.act hnext hle d) (Nat.le_of_lt_succ (hless.trans_le hn)) hdue
      · rw [if_neg hle] at hdue
        obtain rfl := Option.some.inj (hnext.symm.trans hdue)
        exact Nat.lt_of_not_le hle

/-- The bound is no limit. -/
theorem Timed.workLeft_le_dueBound {now : Nat} (h : s.Timed now now) (stop : Nat) :
    s.workLeft stop ≤ s.dueBound now stop := by
  rw [workLeft, dueBound]
  cases hw : s.watcher with
  | none => exact Nat.le_refl _
  | some w =>
    refine Nat.add_le_add_right ?_ _
    cases hpoller : w.poller with
    | none => exact Nat.zero_le _
    | some poller =>
      obtain ⟨-, -, hnext, -, -⟩ := (h w hw).looks poller hpoller
      exact Nat.mul_le_mul_right _ (by omega)

/-- **What was due is done.** At the end of the time everything else is due
later, and the first look is over. -/
theorem Timed.run {now : Nat} (h : s.Timed now now) {stop : Nat} (hle : now ≤ stop) (d : Disk) :
    (s.run d now stop).Timed stop stop ∧
      ∀ w, (s.run d now stop).watcher = some w →
        (∀ poller, w.poller = some poller → stop < poller.next ∧ poller.stamps ≠ none) ∧
          ∀ t ∈ w.reloads.live, stop < t.due := by
  have htimed : (s.run d now stop).Timed now stop :=
    runUpTo_keeps (P := fun s => s.Timed now stop)
      (fun s due hs hdue hdue' => hs.act hdue hdue' d) _ (h.mono hle)
  have hlater : ∀ w, (s.run d now stop).watcher = some w →
      (∀ poller, w.poller = some poller → stop < poller.next) ∧
        ∀ t ∈ w.reloads.live, stop < t.due := by
    intro w hw
    cases hnext : w.nextDue? with
    | none =>
      obtain ⟨hpoller, hlive⟩ := Watcher.nextDue?_eq_none hnext
      refine ⟨fun poller hpoller' => ?_, fun t ht => ?_⟩
      · rw [hpoller] at hpoller'
        exact absurd hpoller' (by simp)
      · have hloading := ((htimed w hw).reloads t ht).1
        rw [hlive t ht] at hloading
        exact absurd hloading (by simp)
    | some due =>
      -- what is due next is due behind the end, and everything else is due
      -- later still
      obtain ⟨-, hpoller, hlive⟩ := Watcher.nextDue?_eq_some hnext
      have hdue : stop < due := (h.mono hle).runUpTo_done
        (h.workLeft_le_dueBound stop) (by rw [nextDue?, ← Session.run, hw]; exact hnext)
      exact ⟨fun poller hpoller' => hdue.trans_le (hpoller poller hpoller'),
        fun t ht => hdue.trans_le (hlive t ht ((htimed w hw).reloads t ht).1)⟩
  -- the first look was due at once
  have hbegun : ∀ w, (s.run d now stop).watcher = some w → ∀ poller, w.poller = some poller →
      poller.stamps ≠ none := fun w hw poller hpoller hnone =>
    absurd ((hlater w hw).1 poller hpoller)
      (Nat.not_lt_of_le (((htimed w hw).first poller hpoller hnone).trans hle))
  refine ⟨fun w hw => ⟨(htimed w hw).reloads, fun poller hpoller => ?_,
    fun poller hpoller hnone => absurd hnone (hbegun w hw poller hpoller), (htimed w hw).owned⟩,
    fun w hw => ⟨fun poller hpoller => ⟨(hlater w hw).1 poller hpoller, hbegun w hw poller hpoller⟩,
      (hlater w hw).2⟩⟩
  obtain ⟨hinterval, hpos, -, hnext, hlength⟩ := (htimed w hw).looks poller hpoller
  exact ⟨hinterval, hpos, Nat.le_of_lt ((hlater w hw).1 poller hpoller), hnext, hlength⟩

end

/-! ## Calls

A call installs a watcher that begins at the present time, and that is within
its times. Nothing else of a call matters here. -/

section

variable {s : Session}

/-- The end of a call. -/
theorem Timed.finish {now : Nat} (h : s.Timed now now) (d : Disk) (a : Activation) :
    (s.finish d now a).1.Timed now now := by
  rw [Session.finish]
  dsimp only
  rw [Session.install]
  split
  · intro w hw
    obtain rfl := Option.some.inj hw
    exact Watcher.timed_install _ now _ _ _ _
  · exact h

/-- Whole calls. -/
theorem Timed.calls {now : Nat} (h : s.Timed now now) (d : Disk) :
    (s.start d now).1.Timed now now ∧ (s.switch d now).1.Timed now now ∧
      (s.switchTwice d now).1.Timed now now := by
  have hunwatched : ∀ s : Session, Timed { s with watcher := none } now now := fun s w hw =>
    absurd hw (by simp)
  refine s.calls_keep d now (P := fun s => s.Timed now now) (fun s _ => hunwatched s)
    (fun s s' next hs hcycle => ?_) (fun s a hs _ => hs.finish d a) h
  split
  · exact hunwatched s'
  · rw [(cycle_eq_ok hcycle).2]
    exact hs

end

end Session

end LocaleKeys
