/-
What the reports of a poller tell.

A poller remembers one stamp of each file, and a look replaces it by the
present one. So what it remembers is the disk of its last look, as far as its
files go, and what the next look reports of a file is told from these two disks
alone (`Poller.Compares.kindsOf_look`). The first look writes the stamps down
and compares the disk with itself, so that it reports nothing. Whoever takes in
the reports one after the other, and begins with what was there at the first
look, therefore always knows which files were there at the last one
(`Poller.changes_replay`): nothing is created that is there, and nothing is
modified or removed that is not.

What changes between the moment when the poller is asked for and its first look
is not reported. The poller is a task of its own, and it writes the stamps down
when it runs for the first time, which is after the call that has asked for it.

A directory has a stamp as a file has, so a path that leads to a directory is
watched like any other: it counts as being there, and an entry that is added to
it or taken away from it is a modification of it.

All of this asks that the poller begins with the stamps of its files. It does
so unless the same path is listed in two ways of writing of which only one
leads to a file, since then the stamp to begin with may be that of the other
one (`Poller.listed_twice_created`).
-/
import LocaleKeys.Proofs.Watch.Looking

set_option autoImplicit false

namespace LocaleKeys

/-! ## Taking in reports

Each kind of change says what was there before and what is there now, so that a
list of changes is either a story that can be told of one file or it is not.
`ChangeKind.replay?` tells it, and has no value where a change could not be. -/

/-- Whether a file is there behind a change, where it was there before or was
not. Some changes cannot be. -/
def ChangeKind.replay? : Bool → ChangeKind → Option Bool
  | false, created => some true
  | true, modified => some true
  | true, removed => some false
  | _, _ => none

/-- Which change two stamps tell of. -/
theorem toList_changeKind? (before now : Option Stamp) :
    (changeKind? before now).toList
      = if before = now then []
        else if before = none then [.created]
        else if now = none then [.removed] else [.modified] := by
  by_cases heq : before = now
  · rw [if_pos heq, changeKind?_eq_none_iff.mpr heq]
    rfl
  · unfold changeKind?
    rw [if_neg heq, if_neg (by simpa using heq)]
    cases before with
    | none => rfl
    | some before => cases now <;> rfl

/-- **A change of stamps** tells whether the file is there, and is one that can
be. Stamps that are the same tell of no change, and then nothing has to be
taken in. -/
theorem replay_changeKind? (before now : Option Stamp) :
    (changeKind? before now).toList.foldlM ChangeKind.replay? before.isSome = some now.isSome := by
  rw [toList_changeKind?]
  by_cases heq : before = now
  · rw [if_pos heq, heq]
    rfl
  · rw [if_neg heq]
    cases before with
    | none => cases now with
      | none => exact absurd rfl heq
      | some now => rfl
    | some before => cases now <;> rfl

namespace Poller

/-- What is reported of a path. -/
def kindsOf (p : Path) (changes : List Change) : List ChangeKind :=
  (changes.filter (·.path.same p)).map (·.kind)

theorem kindsOf_append (p : Path) (changes more : List Change) :
    kindsOf p (changes ++ more) = kindsOf p changes ++ kindsOf p more := by
  rw [kindsOf, List.filter_append, List.map_append]
  rfl

theorem kindsOf_cons (p : Path) (c : Change) (changes : List Change) :
    kindsOf p (c :: changes)
      = if c.path.same p then c.kind :: kindsOf p changes else kindsOf p changes := by
  rw [kindsOf, List.filter_cons]
  split <;> rfl

/-- Of paths of which no two are the same, each has its own change only. -/
theorem kindsOf_filterMap {paths : List Path} (hapart : Path.Apart paths) {p : Path} (hp : p ∈ paths)
    (change? : Path → Option ChangeKind) :
    kindsOf p (paths.filterMap fun q => (change? q).map (⟨q, ·⟩)) = (change? p).toList := by
  have hothers : ∀ others : List Path, (∀ q ∈ others, ¬ q.same p = true) →
      kindsOf p (others.filterMap fun q => (change? q).map (⟨q, ·⟩)) = [] := by
    intro others hothers
    refine List.map_eq_nil_iff.mpr (List.filter_eq_nil_iff.mpr fun c hc => ?_)
    obtain ⟨q, hq, hchange⟩ := List.mem_filterMap.mp hc
    obtain ⟨kind, -, rfl⟩ := Option.map_eq_some_iff.mp hchange
    exact hothers q hq
  -- the path stands in one place, and what is in front of it and behind it is
  -- not the same
  obtain ⟨before, after, rfl⟩ := List.append_of_mem hp
  obtain ⟨-, hafter, hbefore⟩ := List.pairwise_append.mp hapart
  rw [List.filterMap_append, kindsOf_append, hothers before fun q hq => hbefore q hq p List.mem_cons_self,
    List.nil_append, List.filterMap_cons]
  have hrest := hothers after fun q hq hsame =>
    (List.pairwise_cons.mp hafter).1 q hq (by rwa [Path.same_comm])
  cases hchange : change? p with
  | none => exact hrest
  | some kind =>
    rw [Option.map_some]
    dsimp only
    rw [kindsOf_cons, if_pos (Path.same_refl p), hrest]
    rfl

/-- The stamp that a look at the disk compares the present one with, of a path
that is watched. -/
def recorded? (poller : Poller) (d : Disk) (p : Path) : Option (Option Stamp) :=
  ((poller.remembered d).find? (·.1.same p)).map (·.2)

/-- A look at the disk `d'` compares it with the disk `d`, as far as these
paths go. -/
def Compares (poller : Poller) (paths : List Path) (d d' : Disk) : Prop :=
  poller.remembered d' = paths.map fun p => (p, d.stamp? p)

/-- The poller remembers these paths as they are on the disk. -/
def Remembers (poller : Poller) (paths : List Path) (d : Disk) : Prop :=
  poller.stamps = some (paths.map fun p => (p, d.stamp? p))

section

variable {poller : Poller} {paths : List Path} {d d' : Disk}

/-- What is remembered is what the next look compares with. -/
theorem Remembers.compares (h : poller.Remembers paths d) (d' : Disk) : poller.Compares paths d d' :=
  remembered_of_some h d'

/-- Behind a look the disk that was looked at is remembered. -/
theorem Compares.look (h : poller.Compares paths d d') : (poller.look d').1.Remembers paths d' := by
  rw [Remembers, Poller.look]
  dsimp only
  rw [h, List.map_map]
  rfl

/-- The stamp that is compared with is the one that was found on the disk
before. -/
theorem Compares.recorded?_eq (h : poller.Compares paths d d') (hapart : Path.Apart paths) {p : Path}
    (hp : p ∈ paths) : poller.recorded? d' p = some (d.stamp? p) := by
  have hentries : Path.Apart ((poller.remembered d').map Prod.fst) := by
    rwa [h, List.map_map, show Prod.fst ∘ (fun p => (p, d.stamp? p)) = id from rfl, List.map_id]
  have hmem : (p, d.stamp? p) ∈ poller.remembered d' := by
    rw [h]
    exact List.mem_map_of_mem hp
  rw [recorded?, hentries.find?_eq hmem (Path.same_refl p), Option.map_some]

/-- **What a look reports of a path** is told from the disk that is remembered
and the present one. Paths that are watched are not the same, so that what is
reported of others does not mix with it. -/
theorem Compares.kindsOf_look (h : poller.Compares paths d d') (hapart : Path.Apart paths) {p : Path}
    (hp : p ∈ paths) :
    kindsOf p (poller.look d').2 = (changeKind? (d.stamp? p) (d'.stamp? p)).toList := by
  rw [Poller.look]
  dsimp only
  rw [h, List.filterMap_map]
  exact kindsOf_filterMap hapart hp fun q => changeKind? (d.stamp? q) (d'.stamp? q)

/-- A look that compares the disk with itself reports nothing. -/
theorem Compares.look_self (h : poller.Compares paths d d) : (poller.look d).2 = [] := by
  rw [Poller.look]
  dsimp only
  rw [h, List.filterMap_map]
  refine List.filterMap_eq_nil_iff.mpr fun p _ => ?_
  rw [Function.comp_apply, changeOf, changeKind?_eq_none_iff.mpr rfl, Option.map_none]

/-- What a look reports is reported of the paths that are remembered. -/
theorem Compares.path_mem (h : poller.Compares paths d d') {c : Change} (hc : c ∈ (poller.look d').2) :
    c.path ∈ paths := by
  obtain ⟨stamp, hstamp, -⟩ := mem_reported.mp (List.mem_map_of_mem (f := Change.path) hc)
  rw [h] at hstamp
  obtain ⟨p, hp, heq⟩ := List.mem_map.mp hstamp
  exact (Prod.mk.inj heq).1 ▸ hp

/-- A poller that has its first look compares the disk with itself, if it does
not matter how a path is written. -/
theorem compares_of_none (h : poller.stamps = none)
    (hspelled : ∀ p ∈ poller.paths, ∀ q ∈ poller.paths, p.same q = true → d.stamp? p = d.stamp? q) :
    poller.Compares (Path.distinct poller.paths) d d := by
  rw [Compares, remembered_of_none h, initial_eq hspelled]

end

/-! ## One look after the other

When looks happen and what they see are two questions. Here the disks are given
as a list, one for each look, and nothing is said of the times. -/

/-- The poller behind looks at these disks, with all that they report. -/
def looks (poller : Poller) : List Disk → Poller × List Change
  | [] => (poller, [])
  | d :: ticks =>
    let (poller, changes) := poller.look d
    let (poller, more) := looks poller ticks
    (poller, changes ++ more)

/-- Looks at some disks and then at others. -/
theorem looks_append (poller : Poller) (ticks more : List Disk) :
    poller.looks (ticks ++ more)
      = (((poller.looks ticks).1.looks more).1,
          (poller.looks ticks).2 ++ ((poller.looks ticks).1.looks more).2) := by
  induction ticks generalizing poller with
  | nil => rfl
  | cons d ticks ih =>
    rw [List.cons_append, looks]
    dsimp only
    rw [ih]
    dsimp only [looks]
    rw [List.append_assoc]

/-- Looks go by the interval. -/
theorem looks_timing (poller : Poller) (ticks : List Disk) :
    (poller.looks ticks).1.interval = poller.interval ∧
      (poller.looks ticks).1.next = poller.next + ticks.length * poller.interval := by
  induction ticks generalizing poller with
  | nil => exact ⟨rfl, by simp [looks]⟩
  | cons d ticks ih =>
    obtain ⟨hinterval, hnext⟩ := ih (poller.look d).1
    refine ⟨hinterval, ?_⟩
    rw [looks]
    dsimp only
    rw [hnext, List.length_cons, Nat.succ_mul]
    dsimp only [look]
    omega

/-- Pollers that compare every disk with the same stamps report the same. -/
theorem changes_looks_congr {poller poller' : Poller}
    (h : ∀ d, poller.remembered d = poller'.remembered d) (ticks : List Disk) :
    (poller.looks ticks).2 = (poller'.looks ticks).2 := by
  induction ticks generalizing poller poller' with
  | nil => rfl
  | cons d ticks ih =>
    have hlook : (poller.look d).2 = (poller'.look d).2 := by
      rw [look, look, h]
    have hlater : ∀ d', (poller.look d).1.remembered d' = (poller'.look d).1.remembered d' := by
      intro d'
      rw [remembered_look, remembered_look, h]
    rw [looks, looks]
    dsimp only
    rw [hlook, ih hlater]

/-- **What looks report** leads from the files that were there at first to
those of the last look, and the stamps of the last look are what is
remembered. -/
theorem Remembers.looks {poller : Poller} {paths : List Path} {d : Disk}
    (h : poller.Remembers paths d) (hapart : Path.Apart paths) (ticks : List Disk) :
    (poller.looks ticks).1.Remembers paths (ticks.getLastD d) ∧
      ∀ p ∈ paths, (kindsOf p (poller.looks ticks).2).foldlM ChangeKind.replay? (d.stamp? p).isSome
        = some ((ticks.getLastD d).stamp? p).isSome := by
  -- the induction is on the looks from the front, and what is remembered
  -- behind the first takes the place of `d`
  induction ticks generalizing poller d with
  | nil => exact ⟨h, fun p _ => rfl⟩
  | cons d' ticks ih =>
    obtain ⟨hremembers, hreplay⟩ := ih (h.compares d').look
    rw [List.getLastD_cons, Poller.looks]
    refine ⟨hremembers, fun p hp => ?_⟩
    dsimp only
    rw [kindsOf_append, List.foldlM_append, (h.compares d').kindsOf_look hapart hp, replay_changeKind?]
    exact hreplay p hp

/-- What looks report is reported of the paths that are remembered. -/
theorem Remembers.path_mem {poller : Poller} {paths : List Path} {d : Disk}
    (h : poller.Remembers paths d) {ticks : List Disk} {c : Change} (hc : c ∈ (poller.looks ticks).2) :
    c.path ∈ paths := by
  induction ticks generalizing poller d with
  | nil => exact absurd hc List.not_mem_nil
  | cons d' ticks ih =>
    rcases List.mem_append.mp hc with hc | hc
    · exact (h.compares d').path_mem hc
    · exact ih (h.compares d').look hc

/-! ### From the first look on

The first look is told apart here and then never again. Behind it the poller
remembers a disk, and all that is said of looks applies. -/

section

variable {poller : Poller} {paths : List Path} {d₀ : Disk}

/-- The first look reports nothing, and what is reported later is told from the
disk that it has seen. -/
theorem Compares.looks_cons (h : poller.Compares paths d₀ d₀) (later : List Disk) :
    (poller.look d₀).1.Remembers paths d₀ ∧
      poller.looks (d₀ :: later)
        = (((poller.look d₀).1.looks later).1, ((poller.look d₀).1.looks later).2) := by
  refine ⟨h.look, ?_⟩
  rw [Poller.looks]
  dsimp only
  rw [h.look_self, List.nil_append]

/-- Behind any looks but none the poller remembers the disk of the last one;
before them it is about to compare the first disk with itself. -/
theorem Compares.compares_looks (h : poller.Compares paths d₀ d₀) (hapart : Path.Apart paths)
    {before : List Disk} {d : Disk} {after later : List Disk}
    (hticks : d₀ :: later = before ++ d :: after) :
    ∃ last, (poller.looks before).1.Compares paths last d := by
  cases before with
  | nil =>
    obtain ⟨rfl, -⟩ := List.cons.inj hticks
    exact ⟨d₀, h⟩
  | cons d' before =>
    obtain ⟨rfl, -⟩ := List.cons.inj hticks
    obtain ⟨hremembers, hlooks⟩ := h.looks_cons before
    rw [hlooks]
    exact ⟨_, ((hremembers.looks hapart before).1).compares d⟩

end

/-! ## Looks over time

And here the disks are given by a clock: a timeline says until when each disk
is there. The poller looks as long as it is time to, which is a loop over
times, and the list of the disks that it has seen is read off its schedule. -/

/-- The disk at a time, where each disk of a timeline is there up to the time
that stands with it. -/
def diskAt? (timeline : List (Disk × Nat)) (t : Nat) : Option Disk :=
  (timeline.find? fun span => t ≤ span.2).map Prod.fst

/-- Looks at the files as often as it is time to, while the disk changes. -/
def follow (poller : Poller) : List (Disk × Nat) → Poller × List Change
  | [] => (poller, [])
  | (d, stop) :: timeline =>
    let (poller, changes) := poller.lookUntil (stop + 1) d stop
    let (poller, more) := follow poller timeline
    (poller, changes ++ more)

/-- As long as the disk stays, one look follows the other until it is no longer
time to. -/
theorem exists_lookUntil_eq {poller : Poller} (hinterval : 0 < poller.interval) (d : Disk) {n stop : Nat}
    (hbound : stop < poller.next + n) :
    ∃ k, poller.lookUntil n d stop = poller.looks (List.replicate k d) ∧
      (∀ i < k, poller.next + i * poller.interval ≤ stop) ∧
      stop < poller.next + k * poller.interval := by
  induction n generalizing poller with
  | zero => exact ⟨0, rfl, by simp, by omega⟩
  | succ n ih =>
    rw [lookUntil]
    -- the fuel is more than enough: each look moves the next one on by an
    -- interval, which is not nothing
    by_cases hdue : stop < poller.next
    · exact ⟨0, by rw [if_pos hdue]; rfl, by simp, by omega⟩
    · have hnext : stop < (poller.look d).1.next + n := by
        dsimp only [look]
        omega
      have hinterval' : 0 < (poller.look d).1.interval := hinterval
      obtain ⟨k, hlooks, hbefore, hbehind⟩ := ih hinterval' hnext
      refine ⟨k + 1, ?_, fun i hi => ?_, ?_⟩
      · rw [if_neg hdue, List.replicate_succ, looks]
        dsimp only
        rw [hlooks]
      · cases i with
        | zero => omega
        | succ i =>
          have hle := hbefore i (by omega)
          dsimp only [look] at hle
          rw [Nat.succ_mul]
          omega
      · dsimp only [look] at hbehind
        rw [Nat.succ_mul]
        omega

/-- **The looks over time** see the disk as it is at the time of the next look
and at every interval behind it, for as long as the timeline goes. The list of
disks is the schedule of the loop written out, and what looks report can then
be proved without speaking of time. -/
theorem exists_follow_eq {poller : Poller} (hinterval : 0 < poller.interval)
    (timeline : List (Disk × Nat)) :
    ∃ ticks, (∀ i, ticks[i]? = diskAt? timeline (poller.next + i * poller.interval)) ∧
      poller.follow timeline = poller.looks ticks := by
  induction timeline generalizing poller with
  | nil => exact ⟨[], fun i => rfl, rfl⟩
  | cons span timeline ih =>
    obtain ⟨d, stop⟩ := span
    obtain ⟨k, hlooks, hbefore, hbehind⟩ :=
      exists_lookUntil_eq hinterval d (show stop < poller.next + (stop + 1) by omega)
    obtain ⟨hinterval', hnext⟩ := looks_timing poller (List.replicate k d)
    rw [List.length_replicate] at hnext
    rw [← hinterval'] at hinterval
    obtain ⟨ticks, hticks, hfollow⟩ := ih hinterval
    rw [hinterval', hnext] at hticks
    -- the first looks see the first disk, and the others begin where it is
    -- gone
    refine ⟨List.replicate k d ++ ticks, fun i => ?_, ?_⟩
    · rw [diskAt?, List.find?_cons]
      by_cases hi : i < k
      · rw [List.getElem?_append_left (by simpa using hi), List.getElem?_replicate_of_lt hi,
          decide_eq_true (hbefore i hi)]
        rfl
      · have hle : k * poller.interval ≤ i * poller.interval :=
          Nat.mul_le_mul_right _ (Nat.le_of_not_lt hi)
        have htime : poller.next + k * poller.interval + (i - k) * poller.interval
            = poller.next + i * poller.interval := by
          rw [Nat.sub_mul]
          omega
        rw [List.getElem?_append_right (by simpa using hi), List.length_replicate, hticks, htime,
          decide_eq_false (by omega)]
        rfl
    · rw [follow, hlooks]
      dsimp only
      rw [hfollow, looks_append]

/-- When looks are, does not depend on what is remembered. -/
theorem follow_eq_looks {poller : Poller} (hinterval : 0 < poller.interval) {timeline : List (Disk × Nat)}
    {ticks : List Disk} (hticks : ∀ i, ticks[i]? = diskAt? timeline (poller.next + i * poller.interval)) :
    poller.follow timeline = poller.looks ticks := by
  obtain ⟨ticks', hticks', hfollow⟩ := exists_follow_eq hinterval timeline
  rw [hfollow, List.ext_getElem? fun i => (hticks' i).trans (hticks i).symm]

/-- **Changes replay what is there.** For all files, however the disk changes
over time, a poller looks at the time when it is asked for and at every
interval behind it. It begins at its first look, which reports nothing. From
then on a look reports one change of a file if its stamp is another one than is
remembered, and none if it is not, and remembers the new one. All changes of a
file, taken in one after the other, lead from its being there or not when the
poller began to its being there or not at the last look. This holds if a path
that is listed more than once has the same stamp however it is written when the
poller begins; and then the repetitions make no difference. -/
theorem changes_replay (now interval : Nat) (paths : List Path) :
    (interval = 0 → install now interval paths = none) ∧
    (interval ≠ 0 → ∃ poller, install now interval paths = some poller ∧
      ∀ timeline : List (Disk × Nat), ∃ ticks : List Disk,
        (∀ i, ticks[i]? = diskAt? timeline (now + i * interval)) ∧
        poller.follow timeline = poller.looks ticks ∧
        ∀ d₀ later, ticks = d₀ :: later →
          (∀ p ∈ paths, ∀ q ∈ paths, p.same q = true → d₀.stamp? p = d₀.stamp? q) →
          (∃ single, install now interval (Path.distinct paths) = some single ∧
            (single.follow timeline).2 = (poller.follow timeline).2) ∧
          (poller.look d₀).2 = [] ∧
          (∀ c ∈ (poller.looks ticks).2, c.path ∈ Path.distinct paths) ∧
          ∀ p ∈ Path.distinct paths,
            (∀ before d after, ticks = before ++ d :: after →
              ∃ stamp, (poller.looks before).1.recorded? d p = some stamp ∧
                kindsOf p ((poller.looks before).1.look d).2
                  = (if stamp = d.stamp? p then []
                    else if stamp = none then [.created]
                    else if d.stamp? p = none then [.removed] else [.modified]) ∧
                ∀ d', ((poller.looks before).1.look d).1.recorded? d' p = some (d.stamp? p)) ∧
            (kindsOf p (poller.looks ticks).2).foldlM ChangeKind.replay? (d₀.stamp? p).isSome
              = some ((later.getLastD d₀).stamp? p).isSome) := by
  refine ⟨?_, fun hinterval => ?_⟩
  · rintro rfl
    rfl
  refine ⟨_, install_eq_some_iff.mpr ⟨hinterval, rfl⟩, fun timeline => ?_⟩
  obtain ⟨ticks, hticks, hfollow⟩ :=
    @exists_follow_eq { interval, next := now, paths } (Nat.pos_of_ne_zero hinterval) timeline
  refine ⟨ticks, hticks, hfollow, ?_⟩
  rintro d₀ later rfl hspelled
  -- each path is remembered once, so that what a look says of one is read off
  -- its own entry
  have hapart : Path.Apart (Path.distinct paths) := Path.apart_distinct paths
  have hfirst : Compares { interval, next := now, paths } (Path.distinct paths) d₀ d₀ :=
    compares_of_none rfl hspelled
  obtain ⟨hremembers, hlooks⟩ := hfirst.looks_cons later
  refine ⟨⟨_, install_eq_some_iff.mpr ⟨hinterval, rfl⟩, ?_⟩, hfirst.look_self, fun c hc => ?_,
    fun p hp => ⟨?_, ?_⟩⟩
  · -- without the repetitions the same is written down at the first look, and the rest follows from that
    have hdistinct : ∀ p ∈ Path.distinct paths, ∀ q ∈ Path.distinct paths, p.same q = true →
        d₀.stamp? p = d₀.stamp? q := fun p hp q hq =>
      hspelled p (Path.mem_of_mem_distinct hp) q (Path.mem_of_mem_distinct hq)
    let single : Poller := { interval, next := now, paths := Path.distinct paths }
    have hsingle : single.Compares (Path.distinct paths) d₀ d₀ := by
      rw [← Path.distinct_of_apart hapart]
      exact compares_of_none rfl hdistinct
    have hfollow' : single.follow timeline = single.looks (d₀ :: later) :=
      follow_eq_looks (Nat.pos_of_ne_zero hinterval) hticks
    rw [hfollow, hfollow', hlooks, (hsingle.looks_cons later).2]
    refine changes_looks_congr (fun d => ?_) later
    rw [hsingle.look.compares d, hremembers.compares d]
  · rw [hlooks] at hc
    exact hremembers.path_mem hc
  · intro before d after hbefore
    obtain ⟨last, hcompares⟩ := hfirst.compares_looks hapart hbefore
    refine ⟨_, hcompares.recorded?_eq hapart hp, ?_,
      fun d' => (hcompares.look.compares d').recorded?_eq hapart hp⟩
    rw [hcompares.kindsOf_look hapart hp, toList_changeKind?]
  · rw [hlooks]
    exact (hremembers.looks hapart later).2 p hp

/-- A file that is removed and comes back, next to one that is written for the
first time; both are listed, and the first one twice. -/
theorem changes_replay_of_return :
    let a : Path := ⟨"a.json"⟩
    let b : Path := ⟨"b.json"⟩
    let d : Disk := ⟨.directory [("a.json", .file (.ofText "1" 1))], []⟩
    let d' : Disk := ⟨.directory [("a.json", .file (.ofText "2" 3)), ("b.json", .file (.ofText "3" 2))], []⟩
    let timeline : List (Disk × Nat) := [(d, 7), ({}, 12), (d', 21)]
    ∃ poller single, install 0 5 [a, b, a] = some poller ∧ install 0 5 [a, b] = some single ∧
      (single.follow timeline).2 = (poller.follow timeline).2 ∧
      kindsOf a (poller.follow timeline).2 = [.removed, .created] ∧
      (kindsOf a (poller.follow timeline).2).foldlM ChangeKind.replay? (d.stamp? a).isSome
        = some (d'.stamp? a).isSome := by
  intro a b d d' timeline
  obtain ⟨-, hruns⟩ := changes_replay 0 5 [a, b, a]
  obtain ⟨poller, hinstall, hruns⟩ := hruns (by decide)
  obtain ⟨ticks, hticks, hfollow, hlooks⟩ := hruns timeline
  have hseen : ticks = [d, d, {}, d', d'] := by
    refine List.ext_getElem? fun i => (hticks i).trans ?_
    match i with
    | 0 | 1 | 2 | 3 | 4 => rfl
    | i + 5 =>
      have hlate : ∀ span ∈ timeline, span.2 < 0 + (i + 5) * 5 := by
        simp only [timeline, List.forall_mem_cons]
        exact ⟨by omega, by omega, by omega, by simp⟩
      rw [diskAt?, List.find?_eq_none.mpr (by simpa using hlate)]
      rfl
  obtain ⟨⟨single, hsingle, hsame⟩, -, -, hpaths⟩ := hlooks d [d, {}, d', d'] hseen (by decide +kernel)
  have ha : a ∈ Path.distinct [a, b, a] := by decide +kernel
  have hab : Path.distinct [a, b, a] = [a, b] := by decide +kernel
  rw [hab] at hsingle
  have hreplay := (hpaths a ha).2
  rw [← hfollow] at hreplay
  refine ⟨poller, single, hinstall, hsingle, hsame, ?_, hreplay⟩
  obtain ⟨-, rfl⟩ := install_eq_some_iff.mp hinstall
  decide +kernel

/-- **A file that is there is said to be created** if it is listed in two ways
of writing, of which the second one leads nowhere. So the repetition makes a
difference. -/
theorem listed_twice_created :
    (¬ ∀ (d : Disk) (now interval stop : Nat) (paths : List Path) (poller : Poller),
      install now interval paths = some poller → ∀ p ∈ paths,
        (kindsOf p (poller.follow [(d, stop)]).2).foldlM ChangeKind.replay? (d.stamp? p).isSome ≠ none) ∧
    ¬ ∀ (now interval : Nat) (paths : List Path) (poller single : Poller),
      install now interval paths = some poller → install now interval (Path.distinct paths) = some single →
      ∀ timeline : List (Disk × Nat), (single.follow timeline).2 = (poller.follow timeline).2 := by
  let d : Disk := ⟨.directory [("a.json", .file (.ofText "\x7b\x7d" 1))], []⟩
  let paths : List Path := [⟨"a.json"⟩, ⟨"a.json/"⟩]
  refine ⟨fun hall => ?_, fun hall => ?_⟩
  · have hreplay := hall d 0 250 1 paths { interval := 250, next := 0, paths } rfl ⟨"a.json"⟩
      List.mem_cons_self
    exact absurd hreplay (by decide +kernel)
  · have hsame := hall 0 250 paths _ _ rfl rfl [(d, 1)]
    exact absurd hsame (by decide +kernel)

end Poller

end LocaleKeys
