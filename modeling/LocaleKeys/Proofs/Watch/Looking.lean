/-
What a watcher does next.

A look at the files reports those whose stamps are others than the ones
remembered, and remembers the present ones. Each report begins a reload; that
of one and the same file is begun anew, so that a look adds at most one reload
for each file. Whether the next thing to do is a look or a reload is a question
of time only.
-/
import LocaleKeys.Proofs.Files.Sameness
import LocaleKeys.Proofs.Watch.Ownership
import LocaleKeys.Watch.Watcher
import Mathlib.Data.List.MinMax

set_option autoImplicit false

namespace LocaleKeys

/-! ## What a look reports

A look goes through what is remembered and compares each stamp with the present
one. So what it reports is known from two lists of stamps, and nothing else of
the disk matters: a file that was written over with the same stamp is not
reported. -/

/-- No change is told of where the stamps are the same. -/
theorem changeKind?_eq_none_iff {before now : Option Stamp} :
    changeKind? before now = none ↔ before = now := by
  unfold changeKind?
  by_cases heq : before = now
  · rw [if_pos (beq_iff_eq.mpr heq)]
    exact ⟨fun _ => heq, fun _ => rfl⟩
  · rw [if_neg (by simpa using heq)]
    refine ⟨fun hnone => ?_, fun h => absurd h heq⟩
    cases before with
    | none => exact absurd hnone (by simp)
    | some before => cases now <;> exact absurd hnone (by simp)

namespace Poller

/-- Without an interval nothing is watched, and with one the poller has its
first look before it. -/
theorem install_eq_some_iff {now interval : Nat} {paths : List Path} {poller : Poller} :
    install now interval paths = some poller ↔
      interval ≠ 0 ∧ poller = { interval, next := now, paths } := by
  rw [install]
  by_cases hinterval : interval = 0
  · rw [if_pos (beq_iff_eq.mpr hinterval)]
    exact iff_of_false (by simp) fun h => h.1 hinterval
  · rw [if_neg (by simpa using hinterval), Option.some.injEq]
    exact ⟨fun h => ⟨hinterval, h.symm⟩, fun h => h.2.symm⟩

/-- The present stamps are written down to begin with, if it does not matter
how a path is written. -/
theorem initial_eq {d : Disk} {paths : List Path}
    (h : ∀ p ∈ paths, ∀ q ∈ paths, p.same q = true → d.stamp? p = d.stamp? q) :
    initial d paths = (Path.distinct paths).map fun p => (p, d.stamp? p) := by
  have hspelled : ∀ p ∈ paths, d.stamp? (lastSpelling paths p) = d.stamp? p := by
    intro p hp
    rw [lastSpelling]
    cases hlast : paths.reverse.find? p.same with
    | none => rfl
    | some q =>
      have hq : q ∈ paths := List.mem_reverse.mp (List.mem_of_find?_eq_some hlast)
      exact (h p hp q hq (List.find?_some hlast)).symm
  exact List.map_congr_left fun p hp => by rw [hspelled p (Path.mem_of_mem_distinct hp)]

/-- Paths of which no two are the same are written down as they are. -/
theorem initial_of_apart {paths : List Path} (h : Path.Apart paths) (d : Disk) :
    initial d paths = paths.map fun p => (p, d.stamp? p) := by
  rw [initial_eq fun p hp q hq hsame => by rw [h.eq_of_same hp hq hsame], Path.distinct_of_apart h]

/-! ### The first look and the others

The first look has nothing to compare with but what it writes down itself. From
then on what is compared with is what the look before has seen, whatever the
disk is like by now.
-/

/-- Before its first look a poller compares with what it would write down now. -/
theorem remembered_of_none {poller : Poller} (h : poller.stamps = none) (d : Disk) :
    poller.remembered d = initial d poller.paths := by
  rw [remembered, h, Option.getD_none]

/-- From then on it compares with what it has written down. -/
theorem remembered_of_some {poller : Poller} {stamps : List (Path × Option Stamp)}
    (h : poller.stamps = some stamps) (d : Disk) : poller.remembered d = stamps := by
  rw [remembered, h, Option.getD_some]

/-- The paths that a look reports. -/
def reported (poller : Poller) (d : Disk) : List Path := (poller.look d).2.map (·.path)

/-- A look reports the files whose stamps have changed. -/
theorem mem_reported {poller : Poller} {d : Disk} {p : Path} :
    p ∈ poller.reported d ↔ ∃ stamp, (p, stamp) ∈ poller.remembered d ∧ stamp ≠ d.stamp? p := by
  simp only [reported, look, List.mem_map, List.mem_filterMap, changeOf, Option.map_eq_some_iff]
  constructor
  · rintro ⟨-, ⟨⟨q, stamp⟩, hmem, kind, hkind, rfl⟩, rfl⟩
    refine ⟨stamp, hmem, fun heq => ?_⟩
    rw [changeKind?_eq_none_iff.mpr heq] at hkind
    exact absurd hkind (by simp)
  · rintro ⟨stamp, hmem, hne⟩
    obtain ⟨kind, hkind⟩ := Option.ne_none_iff_exists'.mp (mt changeKind?_eq_none_iff.mp hne)
    exact ⟨_, ⟨_, hmem, kind, hkind, rfl⟩, rfl⟩

theorem reported_eq_nil {poller : Poller} {d : Disk}
    (h : ∀ p stamp, (p, stamp) ∈ poller.remembered d → stamp = d.stamp? p) : poller.reported d = [] := by
  refine List.eq_nil_iff_forall_not_mem.mpr fun p hp => ?_
  obtain ⟨stamp, hmem, hne⟩ := mem_reported.mp hp
  exact hne (h p stamp hmem)

theorem length_reported_le (poller : Poller) (d : Disk) :
    (poller.reported d).length ≤ (poller.remembered d).length := by
  rw [reported, List.length_map]
  exact List.length_filterMap_le _ _

/-- Behind a look the present stamps are remembered. -/
theorem remembered_look (poller : Poller) (d d' : Disk) :
    (poller.look d).1.remembered d' = (poller.remembered d).map fun (p, _) => (p, d.stamp? p) := rfl

/-- What is remembered behind a look are present stamps, of the same paths as
before. -/
theorem mem_remembered_look {poller : Poller} {d d' : Disk} {p : Path} {stamp : Option Stamp}
    (h : (p, stamp) ∈ (poller.look d).1.remembered d') :
    stamp = d.stamp? p ∧ ∃ before, (p, before) ∈ poller.remembered d := by
  rw [remembered_look] at h
  obtain ⟨⟨q, before⟩, hmem, heq⟩ := List.mem_map.mp h
  obtain ⟨rfl, rfl⟩ := Prod.mk.inj heq
  exact ⟨rfl, before, hmem⟩

/-- The paths that are remembered stay the same ones. -/
theorem paths_remembered_look (poller : Poller) (d d' : Disk) :
    ((poller.look d).1.remembered d').map Prod.fst = (poller.remembered d).map Prod.fst := by
  rw [remembered_look, List.map_map]
  rfl

end Poller

/-! ## What begins with a report

The changes of one look are taken in one after the other, each with a new
generation. Most of what is needed of this is about one change
(`Reloads.receive`), and here it is carried over to all of them by going
through the list. -/

namespace Reloads

/-- Files have changed. -/
def receiveAll (r : Reloads) (now rest : Nat) (paths : List Path) : Reloads :=
  paths.foldl (fun r p => r.receive now rest p) r

section

variable {r : Reloads} (now rest : Nat) (paths : List Path)

theorem closed_receiveAll : (r.receiveAll now rest paths).closed = r.closed := by
  induction paths generalizing r with
  | nil => rfl
  | cons p paths ih => rw [receiveAll, List.foldl_cons, ← receiveAll, ih, closed_receive]

/-- Reloads that are closed take nothing in. -/
theorem receiveAll_of_closed (h : r.closed = true) : r.receiveAll now rest paths = r := by
  induction paths with
  | nil => rfl
  | cons p paths ih =>
    rw [receiveAll, List.foldl_cons, ← receiveAll, show r.receive now rest p = r by
      rw [receive, h]; rfl, ih]

/-- The account goes on being kept. -/
theorem Owned.receiveAll (h : r.Owned) : (r.receiveAll now rest paths).Owned := by
  induction paths generalizing r with
  | nil => exact h
  | cons p paths ih => exact ih (h.receive now rest p)

/-- Behind changes, their files are awaited, and every file that was so before. -/
theorem Owned.awaits_receiveAll (h : r.Owned) (hopen : r.closed = false) (q : Path) :
    (r.receiveAll now rest paths).Awaits q ↔ (∃ p ∈ paths, p.same q = true) ∨ r.Awaits q := by
  induction paths generalizing r with
  | nil => simp [Reloads.receiveAll]
  | cons p paths ih =>
    rw [Reloads.receiveAll, List.foldl_cons, ← Reloads.receiveAll,
      ih (h.receive now rest p) (by rw [closed_receive, hopen]), h.awaits_receive hopen]
    simp only [List.mem_cons, exists_eq_or_imp]
    exact or_left_comm.trans or_assoc.symm

/-- What is under way behind changes was so before, or has begun with one of
them. -/
theorem Owned.mem_live_receiveAll (h : r.Owned) {t : Reload}
    (ht : t ∈ (r.receiveAll now rest paths).live) :
    t ∈ r.live ∨ t.path ∈ paths ∧ t.due = now + rest ∧ t.loading = false := by
  induction paths generalizing r with
  | nil => exact .inl ht
  | cons p paths ih =>
    rcases ih (h.receive now rest p) ht with ht | ⟨hpath, hrest⟩
    · cases hopen : r.closed with
      | true =>
        rw [Reloads.receive, hopen] at ht
        exact .inl ht
      | false =>
        rcases (h.mem_live_receive hopen now rest p t).mp ht with ⟨ht, -⟩ | rfl
        · exact .inl ht
        · exact .inr ⟨List.mem_cons_self, rfl, rfl⟩
    · exact .inr ⟨List.mem_cons_of_mem p hpath, hrest⟩

/-- A change adds one reload at most. -/
theorem length_live_receive_le (p : Path) :
    (r.receive now rest p).live.length ≤ r.live.length + 1 := by
  cases hopen : r.closed with
  | true =>
    rw [receive, hopen]
    exact Nat.le_succ _
  | false =>
    rw [receive_of_open hopen, List.length_append]
    refine Nat.add_le_add_right ?_ 1
    cases r.pendingOf p with
    | none => exact Nat.le_refl _
    | some generation => exact List.length_filter_le _ _

/-- Changes add one reload each at most. -/
theorem length_live_receiveAll_le :
    (r.receiveAll now rest paths).live.length ≤ r.live.length + paths.length := by
  induction paths generalizing r with
  | nil => exact Nat.le_refl _
  | cons p paths ih =>
    have hone : (r.receive now rest p).live.length ≤ r.live.length + 1 :=
      length_live_receive_le now rest p
    have hall := ih (r := r.receive now rest p)
    rw [receiveAll, List.foldl_cons, ← receiveAll, List.length_cons]
    omega

end

/-! ## Which reload is due

Of the reloads that have rested, the one that is due first is done first, and
among those that are due at once the one that has begun first. The search goes
through all of them and keeps the earlier one. -/

section

variable {r : Reloads} {now : Nat}

/-- Of reloads, the earlier one is one of them. -/
theorem mem_foldl_earlier {live : List Reload} {found : Option Reload} {t : Reload}
    (h : live.foldl dueBy?.earlier found = some t) : t ∈ live ∨ found = some t := by
  induction live generalizing found with
  | nil => exact .inr h
  | cons t' live ih =>
    rcases ih h with hmem | hfound
    · exact .inl (List.mem_cons_of_mem t' hmem)
    · unfold dueBy?.earlier at hfound
      split at hfound
      · split at hfound
        · exact .inl (by rw [Option.some.inj hfound]; exact List.mem_cons_self)
        · exact .inr hfound
      · exact .inl (by rw [Option.some.inj hfound]; exact List.mem_cons_self)

/-- Where there are reloads, one is found. -/
theorem foldl_earlier_isSome (live : List Reload) (found : Option Reload)
    (h : live ≠ [] ∨ found.isSome) : (live.foldl dueBy?.earlier found).isSome := by
  induction live generalizing found with
  | nil => exact h.resolve_left (fun hne => hne rfl)
  | cons t live ih =>
    refine ih _ (.inr ?_)
    unfold dueBy?.earlier
    split
    · split <;> rfl
    · rfl

/-- What is due is under way and has rested for long enough. -/
theorem mem_of_dueBy? {t : Reload} (h : r.dueBy? now = some t) :
    t ∈ r.live ∧ t.loading = false ∧ t.due ≤ now := by
  have hmem := (mem_foldl_earlier h).resolve_right (by simp)
  obtain ⟨hlive, hdue⟩ := List.mem_filter.mp hmem
  exact ⟨hlive, by simpa using hdue⟩

/-- If nothing is due, then no reload has rested for long enough. -/
theorem lt_due_of_dueBy?_eq_none (h : r.dueBy? now = none) {t : Reload} (ht : t ∈ r.live)
    (hloading : t.loading = false) : now < t.due := by
  by_contra hdue
  have hmem : t ∈ r.live.filter fun t => !t.loading && t.due ≤ now :=
    List.mem_filter.mpr ⟨ht, by simpa [hloading] using Nat.le_of_not_lt hdue⟩
  have hsome := foldl_earlier_isSome _ none (.inl (List.ne_nil_of_mem hmem))
  rw [dueBy?] at h
  rw [h] at hsome
  exact absurd hsome (by simp)

end

end Reloads

/-! ## Watchers

A look and a reload are the two things that fall due. When the next one does is
the least of several times, and the lemmas say of this number that it is one of
them and that none of them is smaller. -/

namespace Watcher

variable {w : Watcher} {poller : Poller}

/-- A look takes in what it reports. -/
theorem look_eq (h : w.poller = some poller) (d : Disk) (now rest : Nat) :
    w.look d now rest =
      { w with
        poller := some (poller.look d).1
        reloads := w.reloads.receiveAll now rest (poller.reported d) } := by
  rw [look, h]
  dsimp only
  rw [Reloads.receiveAll, Poller.reported, List.foldl_map]
  generalize (poller.look d).2 = changes
  -- taking changes in touches nothing of the watcher but its reloads
  have hfold : ∀ (w : Watcher),
      changes.foldl (fun w c => w.receive now rest c.path) w
        = { w with
            reloads := changes.foldl (fun r c => r.receive now rest c.path) w.reloads } := by
    induction changes with
    | nil => exact fun _ => rfl
    | cons c changes ih => exact fun w => ih (w.receive now rest c.path)
  exact hfold _

/-- Without a poller there is no look. -/
theorem look_of_none (h : w.poller = none) (d : Disk) (now rest : Nat) : w.look d now rest = w := by
  rw [look, h]

/-- A look changes neither the locale nor the files. -/
theorem look_frame (w : Watcher) (d : Disk) (now rest : Nat) :
    (w.look d now rest).locale = w.locale ∧ (w.look d now rest).files = w.files := by
  cases h : w.poller with
  | none =>
    rw [look_of_none h]
    exact ⟨rfl, rfl⟩
  | some poller =>
    rw [look_eq h]
    exact ⟨rfl, rfl⟩

/-- The time of the next thing to do is that of the next look or of a reload,
and none of these comes before. -/
theorem nextDue?_eq_some {due : Nat} (h : w.nextDue? = some due) :
    ((∃ poller, w.poller = some poller ∧ poller.next = due) ∨
        ∃ t ∈ w.reloads.live, t.loading = false ∧ t.due = due) ∧
      (∀ poller, w.poller = some poller → due ≤ poller.next) ∧
      ∀ t ∈ w.reloads.live, t.loading = false → due ≤ t.due := by
  rw [nextDue?, List.min?_eq_some_iff] at h
  obtain ⟨hmem, hle⟩ := h
  refine ⟨?_, fun poller hpoller => hle _ ?_, fun t ht hloading => hle _ ?_⟩
  · rcases List.mem_append.mp hmem with hmem | hmem
    · rw [Option.mem_toList] at hmem
      exact .inl (Option.map_eq_some_iff.mp hmem)
    · obtain ⟨t, ht, rfl⟩ := List.mem_map.mp hmem
      obtain ⟨hlive, hloading⟩ := List.mem_filter.mp ht
      exact .inr ⟨t, hlive, by simpa using hloading, rfl⟩
  · rw [hpoller]
    exact List.mem_append_left _ List.mem_cons_self
  · exact List.mem_append_right _
      (List.mem_map_of_mem (List.mem_filter.mpr ⟨ht, by simpa using hloading⟩))

/-- If there is nothing to do next, then there is no poller and nothing rests. -/
theorem nextDue?_eq_none (h : w.nextDue? = none) :
    w.poller = none ∧ ∀ t ∈ w.reloads.live, t.loading = true := by
  rw [nextDue?, List.min?_eq_none_iff, List.append_eq_nil_iff] at h
  obtain ⟨hpoller, hlive⟩ := h
  refine ⟨by simpa using hpoller, fun t ht => ?_⟩
  by_contra hloading
  have hmem : t ∈ w.reloads.live.filter (!·.loading) :=
    List.mem_filter.mpr ⟨ht, by simpa using hloading⟩
  rw [List.map_eq_nil_iff.mp hlive] at hmem
  exact absurd hmem (by simp)

end Watcher

end LocaleKeys
