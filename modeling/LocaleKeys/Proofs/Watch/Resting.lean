/-
How long files rest.

A change is not acted on before its file has rested. Here the rests of a
watcher are seen against a clock. What happens to it comes at its times, and
the rests end on time: none is over before its reload is due, and nothing else
happens once one is due until it has ended (`Watcher.Punctual`). How long a
file takes to be loaded is left open.

Then what is executed can be told from the changes alone (`Watcher.Debounced`):
a reload for each change whose file is left alone until the rest is over, at
that very time, and nothing else. Other files do not matter. The reloads under
way know that much at every time, because each of them is that of the latest
change of its file (`Watcher.Accounted`), and a step of the watcher either
leaves a reload as it is, or ends its rest, or gives it up
(`Watcher.Tidy.mem_live_meet`).
-/
import LocaleKeys.Proofs.Watch.Teardown

set_option autoImplicit false

namespace LocaleKeys

/-! ## What happens at which time

A history is a list of incidents with their times. It is given from outside,
and what a watcher does in it is computed: a rest that ends is an incident too,
named by its generation, so that it is part of the history which timers have
gone off. Whether they have gone off when they should is a property of the
history (`Watcher.Punctual`) and nothing that the watcher sees to. -/

/-- Something that happens to a watcher, seen against a clock. -/
inductive Incident where
  /-- A change of a file is heard of. -/
  | changed (p : Path)
  /-- A file has rested for long enough and begins to be loaded. -/
  | rested (generation : Nat)
  /-- A file that was being loaded has come to its end. -/
  | loaded (generation : Nat) (outcome : Except LoadFault Messages)
  /-- The watcher is taken down. -/
  | tornDown

namespace Incident

/-- The reload of a file is given up. -/
def Disturbs (p : Path) : Incident → Prop
  | changed q => p.same q = true
  | rested _ | loaded _ _ => False
  | tornDown => True

/-- A change of a file is heard of. -/
def isChange : Incident → Bool
  | changed _ => true
  | _ => false

/-- The rest of the reload of this generation ends. -/
def endsRestOf (generation : Nat) : Incident → Bool
  | rested generation' => generation == generation'
  | _ => false

/-- The loading of the reload of this generation comes to its end. -/
def endsLoadingOf (generation : Nat) : Incident → Bool
  | loaded generation' _ => generation == generation'
  | _ => false

/-- The watcher is taken down. -/
def isTearDown : Incident → Bool
  | tornDown => true
  | _ => false

/-- The reload behind the incident, if it is not given up. -/
def on (i : Incident) (t : Reload) : Reload :=
  if i.endsRestOf t.generation then { t with loading := true } else t

section

variable (i : Incident) (t : Reload)

@[simp] theorem path_on : (i.on t).path = t.path := by
  rw [on]
  split <;> rfl

@[simp] theorem generation_on : (i.on t).generation = t.generation := by
  rw [on]
  split <;> rfl

@[simp] theorem due_on : (i.on t).due = t.due := by
  rw [on]
  split <;> rfl

end

/-- The end of a rest gives up no reload. -/
theorem not_disturbs_of_endsRestOf {i : Incident} {generation : Nat}
    (h : i.endsRestOf generation = true) (p : Path) : ¬ i.Disturbs p := by
  cases i with
  | rested generation' => exact id
  | changed q => exact absurd h (by simp [endsRestOf])
  | loaded generation' outcome => exact id
  | tornDown => exact absurd h (by simp [endsRestOf])

end Incident

/-- What happens to a watcher, one thing after the other, with the times. -/
abbrev History := List (Nat × Incident)

namespace History

/-- How many changes are heard of. -/
def changes (h : History) : Nat := h.countP (·.2.isChange)

/-- The watcher is still there. -/
def Installed (h : History) : Prop := ∀ x ∈ h, x.2.isTearDown = false

/-- Nothing makes the reload of the file be given up before the time `stop`. -/
def LeavesAlone (h : History) (p : Path) (stop : Nat) : Prop := ∀ x ∈ h, x.1 < stop → ¬ x.2.Disturbs p

/-- The change with the given number is heard of at the time `a`, by a watcher
that is still there, it is one of the file, and `after` is what happens from
then on. -/
def Hears (h : History) (number a : Nat) (p : Path) (after : History) : Prop :=
  ∃ before, h = before ++ (a, .changed p) :: after ∧ before.Installed ∧ number = before.changes + 1

section

variable {h : History} {number a : Nat} {p : Path} {after : History} {x : Nat × Incident}

@[simp] theorem changes_concat : changes (h ++ [x]) = h.changes + if x.2.isChange then 1 else 0 := by
  rw [changes, changes, List.countP_append, List.countP_singleton]

theorem installed_concat : Installed (h ++ [x]) ↔ h.Installed ∧ x.2.isTearDown = false := by
  rw [Installed, List.forall_mem_append, List.forall_mem_singleton]
  rfl

theorem hears_concat_self (h : History) (hinstalled : h.Installed) (a : Nat) (p : Path) :
    Hears (h ++ [(a, .changed p)]) (h.changes + 1) a p [] :=
  ⟨h, rfl, hinstalled, rfl⟩

theorem Hears.concat (hhears : h.Hears number a p after) (x : Nat × Incident) :
    Hears (h ++ [x]) number a p (after ++ [x]) := by
  obtain ⟨before, rfl, hinstalled, hnumber⟩ := hhears
  exact ⟨before, by rw [List.append_assoc, List.cons_append], hinstalled, hnumber⟩

/-- A change is known by its number. -/
theorem Hears.unique (hhears : h.Hears number a p after) {a' : Nat} {p' : Path} {after' : History}
    (hhears' : h.Hears number a' p' after') : a = a' ∧ p = p' ∧ after = after' := by
  obtain ⟨before, rfl, -, hnumber⟩ := hhears
  obtain ⟨before', heq, -, hnumber'⟩ := hhears'
  have hsame : changes before = changes before' := Nat.succ_inj.mp (hnumber.symm.trans hnumber')
  -- of two changes, the earlier one is counted before the later
  have hcount : ∀ (front back : History) (y : Nat × Incident), y.2.isChange = true →
      changes (front ++ y :: back) = changes front + 1 + changes back := by
    intro front back y hy
    rw [changes, List.countP_append, List.countP_cons, if_pos hy]
    rw [changes, changes]
    omega
  -- of the two places one is in front of the other, or they are the same
  rcases List.append_eq_append_iff.mp heq with ⟨more, hbefore', hrest⟩ | ⟨more, hbefore, hrest⟩
  · cases more with
    | nil =>
      obtain ⟨hchange, hafter⟩ := List.cons.inj hrest
      obtain ⟨rfl, hp⟩ := Prod.mk.inj hchange
      exact ⟨rfl, Incident.changed.inj hp, hafter⟩
    | cons y more =>
      obtain ⟨rfl, -⟩ := List.cons.inj hrest
      rw [hbefore', hcount before more _ rfl] at hsame
      omega
  · cases more with
    | nil =>
      obtain ⟨hchange, hafter⟩ := List.cons.inj hrest
      obtain ⟨rfl, hp⟩ := Prod.mk.inj hchange
      exact ⟨rfl, (Incident.changed.inj hp).symm, hafter.symm⟩
    | cons y more =>
      obtain ⟨rfl, -⟩ := List.cons.inj hrest
      rw [hbefore, hcount before' more _ rfl] at hsame
      omega

end

end History

namespace Watcher

/-- The watcher behind an incident, where files rest for the given time. -/
def meet (w : Watcher) (rest : Nat) (x : Nat × Incident) : Watcher :=
  match x.2 with
  | .changed p => w.after rest (.heard x.1 p)
  | .rested generation => w.after rest (.rested generation)
  | .loaded generation outcome => w.after rest (.loaded generation outcome)
  | .tornDown => w.shutDown

/-- The watcher behind incidents. -/
def meetAll (w : Watcher) (rest : Nat) (h : History) : Watcher := h.foldl (·.meet rest ·) w

/-- The reload that is executed at an incident, with the time. -/
def executedAt (w : Watcher) (x : Nat × Incident) : List (Nat × Reload) :=
  (w.reloads.live.filter fun t => x.2.endsRestOf t.generation && !t.loading).map (x.1, ·)

/-- The reloads that are executed, with the times. -/
def executed (w : Watcher) (rest : Nat) : History → List (Nat × Reload)
  | [] => []
  | x :: h => w.executedAt x ++ (w.meet rest x).executed rest h

/-- The incident is on time: no reload is overdue, and a rest that ends is one
that is over. -/
def OnTime (w : Watcher) (x : Nat × Incident) : Prop :=
  ∀ t ∈ w.reloads.live, t.loading = false →
    x.1 ≤ t.due ∧ (x.2.endsRestOf t.generation = true → t.due ≤ x.1)

/-- Every incident is on time. -/
def Prompt (w : Watcher) (rest : Nat) : History → Prop
  | [] => True
  | x :: h => w.OnTime x ∧ (w.meet rest x).Prompt rest h

instance decidableOnTime (w : Watcher) (x : Nat × Incident) : Decidable (w.OnTime x) :=
  inferInstanceAs (Decidable (∀ t ∈ w.reloads.live, t.loading = false →
    x.1 ≤ t.due ∧ (x.2.endsRestOf t.generation = true → t.due ≤ x.1)))

instance decidablePrompt (w : Watcher) (rest : Nat) : (h : History) → Decidable (w.Prompt rest h)
  | [] => isTrue trivial
  | x :: h =>
    have := (w.meet rest x).decidablePrompt rest h
    inferInstanceAs (Decidable (w.OnTime x ∧ (w.meet rest x).Prompt rest h))

/-- **The clock is right** up to the time `stop`: incidents come in the order
of their times, every rest ends on time, and none is left that would have been
over. -/
structure Punctual (w : Watcher) (rest : Nat) (h : History) (stop : Nat) : Prop where
  ordered : h.Pairwise fun x y => x.1 ≤ y.1
  prompt : w.Prompt rest h
  ended : ∀ t ∈ (w.meetAll rest h).reloads.live, t.loading = false → stop < t.due

section

variable (w : Watcher) (rest : Nat) (h h' : History) (x : Nat × Incident)

theorem meetAll_append : w.meetAll rest (h ++ h') = (w.meetAll rest h).meetAll rest h' :=
  List.foldl_append

/-- What is executed in two lists of incidents. -/
theorem executed_append :
    w.executed rest (h ++ h') = w.executed rest h ++ (w.meetAll rest h).executed rest h' := by
  induction h generalizing w with
  | nil => rfl
  | cons x h ih =>
    rw [List.cons_append, executed, executed, ih, List.append_assoc]
    rfl

/-- Incidents in two lists are on time if those of each are. -/
theorem prompt_append :
    w.Prompt rest (h ++ h') ↔ w.Prompt rest h ∧ (w.meetAll rest h).Prompt rest h' := by
  induction h generalizing w with
  | nil => exact (and_iff_right trivial).symm
  | cons x h ih =>
    rw [List.cons_append, Prompt, Prompt, ih, and_assoc]
    rfl

theorem executed_concat : w.executed rest (h ++ [x])
    = w.executed rest h ++ (w.meetAll rest h).executedAt x := by
  rw [executed_append, executed, executed, List.append_nil]

theorem meetAll_concat : w.meetAll rest (h ++ [x]) = (w.meetAll rest h).meet rest x :=
  w.meetAll_append rest h [x]

end

/-- A reload is executed if it rests and the incident is the end of its rest. -/
theorem mem_executedAt {w : Watcher} {x : Nat × Incident} {e : Nat × Reload} :
    e ∈ w.executedAt x ↔ e.1 = x.1 ∧ e.2 ∈ w.reloads.live ∧
      x.2.endsRestOf e.2.generation = true ∧ e.2.loading = false := by
  rw [executedAt, List.mem_map]
  constructor
  · rintro ⟨t, ht, rfl⟩
    obtain ⟨hlive, hends⟩ := List.mem_filter.mp ht
    rw [Bool.and_eq_true, Bool.not_eq_true'] at hends
    exact ⟨rfl, hlive, hends⟩
  · rintro ⟨htime, hlive, hends, hloading⟩
    refine ⟨e.2, List.mem_filter.mpr ⟨hlive, by rw [hends, hloading]; rfl⟩, ?_⟩
    rw [← htime]

/-! ## What becomes of a reload

An incident does one of three things to a reload that is under way: it leaves
it as it is, it ends its rest, or it makes it go away. `Incident.on` and
`Incident.Disturbs` say which, and the step lemma (`Tidy.mem_live_meet`) says
that nothing else happens. -/

/-- The account of the reloads is kept, and those that are closed have none
under way. -/
structure Tidy (w : Watcher) : Prop where
  owned : w.reloads.Owned
  emptied : w.reloads.closed = true → w.reloads.live = []

/-- An incident keeps the account. -/
theorem Tidy.meet {w : Watcher} (h : w.Tidy) (rest : Nat) (x : Nat × Incident) :
    (w.meet rest x).Tidy := by
  obtain ⟨now, incident⟩ := x
  have hafter : ∀ u, (w.after rest u).Tidy := by
    intro u
    refine ⟨owned_after h.owned rest u, fun hclosed => ?_⟩
    rw [w.closed_after rest u] at hclosed
    exact (IsShutDown.after ⟨hclosed, h.emptied hclosed⟩ rest u).1.2
  cases incident with
  | changed p => exact hafter (.heard now p)
  | rested generation => exact hafter (.rested generation)
  | loaded generation outcome => exact hafter (.loaded generation outcome)
  | tornDown =>
    exact ⟨⟨rfl, List.Pairwise.nil, List.Pairwise.nil, fun e he => absurd he List.not_mem_nil⟩,
      fun _ => rfl⟩

theorem Tidy.meetAll {w : Watcher} (h : w.Tidy) (rest : Nat) (h' : History) :
    (w.meetAll rest h').Tidy := by
  induction h' generalizing w with
  | nil => exact h
  | cons x h' ih => exact ih (h.meet rest x)

/-- A reload is found by its generation if it is being loaded. -/
theorem Tidy.loading?_eq_some_iff {w : Watcher} (h : w.Tidy) {generation : Nat} {t : Reload} :
    w.loading? generation = some t ↔
      t ∈ w.reloads.live ∧ t.generation = generation ∧ t.loading = true := by
  rw [loading?]
  constructor
  · intro hfound
    have hsome := List.find?_some hfound
    simp only [Bool.and_eq_true, beq_iff_eq] at hsome
    exact ⟨List.mem_of_find?_eq_some hfound, hsome.1, hsome.2⟩
  · rintro ⟨ht, rfl, hloading⟩
    obtain ⟨t', ht'⟩ : ∃ t', w.reloads.live.find? (fun t' => t'.generation == t.generation && t'.loading)
        = some t' := by
      rw [← Option.isSome_iff_exists, List.find?_isSome]
      exact ⟨t, ht, by rw [hloading, beq_self_eq_true]; rfl⟩
    have hsome := List.find?_some ht'
    simp only [Bool.and_eq_true, beq_iff_eq] at hsome
    rw [ht', h.owned.reload_eq (List.mem_of_find?_eq_some ht') ht hsome.1]

/-- The end of a loading takes away the reload that is being loaded, if it is
that of this generation. -/
theorem Tidy.mem_live_loaded {w : Watcher} (h : w.Tidy) (rest now generation : Nat)
    (outcome : Except LoadFault Messages) (t : Reload) :
    t ∈ (w.meet rest (now, .loaded generation outcome)).reloads.live ↔
      t ∈ w.reloads.live ∧ (t.loading = true → t.generation ≠ generation) := by
  have hmeet : w.meet rest (now, .loaded generation outcome) = w.after rest (.loaded generation outcome) := rfl
  rw [hmeet, after]
  cases hloading : w.loading? generation with
  | none =>
    refine (and_iff_left_of_imp fun ht hl hg => ?_).symm
    rw [h.loading?_eq_some_iff.mpr ⟨ht, hg, hl⟩] at hloading
    exact absurd hloading (by simp)
  | some t' =>
    obtain ⟨ht', hg', hl'⟩ := h.loading?_eq_some_iff.mp hloading
    refine (Reloads.mem_live_finish generation t).trans (and_congr_right fun ht => ?_)
    refine ⟨fun hne _ => hne, fun hne hg => hne ?_ hg⟩
    -- no two reloads are of one generation
    rw [h.owned.reload_eq ht ht' (hg.trans hg'.symm)]
    exact hl'

/-- **What is under way behind an incident**: what was so before, unless it is
given up or its loading comes to its end, and the new reload of a file that has
changed. -/
theorem Tidy.mem_live_meet {w : Watcher} (h : w.Tidy) {rest : Nat} {x : Nat × Incident} {t : Reload} :
    t ∈ (w.meet rest x).reloads.live ↔
      (∃ t₀ ∈ w.reloads.live, ¬ x.2.Disturbs t₀.path ∧
        (t₀.loading = true → x.2.endsLoadingOf t₀.generation = false) ∧ t = x.2.on t₀) ∨
      ∃ p, x.2 = .changed p ∧ w.reloads.closed = false ∧
        t = ⟨p, w.reloads.generation + 1, x.1 + rest, false⟩ := by
  obtain ⟨now, incident⟩ := x
  cases incident with
  | changed p =>
    have hlive : (w.meet rest (now, .changed p)).reloads = w.reloads.receive now rest p := rfl
    rw [hlive]
    cases hopen : w.reloads.closed with
    | true =>
      have hsame : w.reloads.receive now rest p = w.reloads := by
        rw [Reloads.receive, hopen]
        rfl
      rw [hsame, h.emptied hopen]
      simp
    | false =>
      -- the new reload takes the place of one of the same file
      rw [h.owned.mem_live_receive hopen now rest p t]
      refine or_congr ⟨?_, ?_⟩ ⟨?_, ?_⟩
      · rintro ⟨ht, hother⟩
        exact ⟨t, ht, hother, fun _ => rfl, rfl⟩
      · rintro ⟨t₀, ht₀, hother, -, rfl⟩
        exact ⟨ht₀, hother⟩
      · rintro rfl
        exact ⟨p, rfl, rfl, rfl⟩
      · rintro ⟨q, hq, -, rfl⟩
        rw [Incident.changed.inj hq]
  | rested generation =>
    -- the reloads stay the same ones, but that of this generation is being
    -- loaded now
    have hlive : (w.meet rest (now, .rested generation)).reloads.live
        = w.reloads.live.map (Incident.rested generation).on := by
      refine List.map_congr_left fun t₀ _ => ?_
      rw [Incident.on, Incident.endsRestOf]
    rw [hlive, List.mem_map]
    constructor
    · rintro ⟨t₀, ht₀, rfl⟩
      exact .inl ⟨t₀, ht₀, id, fun _ => rfl, rfl⟩
    · rintro (⟨t₀, ht₀, -, -, rfl⟩ | ⟨p, hp, -⟩)
      · exact ⟨t₀, ht₀, rfl⟩
      · exact absurd hp (by simp)
  | loaded generation outcome =>
    rw [h.mem_live_loaded rest now generation outcome t]
    constructor
    · rintro ⟨ht, hne⟩
      exact .inl ⟨t, ht, id, fun hl => by simpa [Incident.endsLoadingOf] using hne hl, rfl⟩
    · rintro (⟨t₀, ht₀, -, hne, rfl⟩ | ⟨p, hp, -⟩)
      · exact ⟨ht₀, fun hl => by simpa [Incident.endsLoadingOf] using hne hl⟩
      · exact absurd hp (by simp)
  | tornDown =>
    refine iff_of_false List.not_mem_nil ?_
    rintro (⟨t₀, -, hother, -⟩ | ⟨p, hp, -⟩)
    · exact hother trivial
    · exact absurd hp (by simp)

/-! ## Which change a reload follows

The generations of the watcher count the changes that it has taken in. So a
reload tells which change it follows, and the invariant can speak of that
change, of its time and of what has come since. -/

/-- **What is known of the reloads** from what has happened. Each of them is
that of a change since which nothing has disturbed it, and is due when the file
has rested. -/
structure Accounted (w : Watcher) (rest : Nat) (h : History) : Prop where
  tidy : w.Tidy
  /-- Changes are taken in as long as the watcher is there. -/
  opened : h.Installed ↔ w.reloads.closed = false
  counted : h.Installed → w.reloads.generation = h.changes
  of_change : ∀ t ∈ w.reloads.live, ∃ a after, h.Hears t.generation a t.path after ∧
    t.due = a + rest ∧ ∀ y ∈ after, ¬ y.2.Disturbs t.path

/-- At the beginning nothing has happened, and nothing is under way. -/
theorem accounted_of_empty {w : Watcher} (hw : w.reloads = {}) (rest : Nat) : w.Accounted rest [] := by
  have howned : w.reloads.Owned := by
    rw [hw]
    exact Reloads.owned_empty
  refine ⟨⟨howned, ?_⟩, ?_, ?_, ?_⟩
  · rw [hw]
    exact fun _ => rfl
  · rw [hw]
    exact iff_of_true (fun x hx => absurd hx List.not_mem_nil) rfl
  · rw [hw]
    exact fun _ => rfl
  · rw [hw]
    exact fun t ht => absurd ht List.not_mem_nil

/-- What an incident does to what is counted. -/
theorem meet_frame (w : Watcher) (rest : Nat) (x : Nat × Incident) :
    (w.meet rest x).reloads.closed = (w.reloads.closed || x.2.isTearDown) ∧
    (w.reloads.closed = false →
      (w.meet rest x).reloads.generation = w.reloads.generation + if x.2.isChange then 1 else 0) := by
  obtain ⟨now, incident⟩ := x
  cases incident with
  | changed p =>
    have hreloads : (w.meet rest (now, .changed p)).reloads = w.reloads.receive now rest p := rfl
    rw [hreloads, Reloads.closed_receive]
    refine ⟨(Bool.or_false _).symm, fun hopen => ?_⟩
    rw [Reloads.receive_of_open hopen]
    rfl
  | rested generation => exact ⟨(Bool.or_false _).symm, fun _ => rfl⟩
  | loaded generation outcome =>
    exact ⟨(w.closed_after rest (.loaded generation outcome)).trans (Bool.or_false _).symm,
      fun _ => (w.within_loaded rest generation outcome).generation⟩
  | tornDown => exact ⟨(Bool.or_true _).symm, fun _ => rfl⟩

/-- An incident keeps what is known. -/
theorem Accounted.meet {w : Watcher} {rest : Nat} {h : History} (haccounted : w.Accounted rest h)
    (x : Nat × Incident) : (w.meet rest x).Accounted rest (h ++ [x]) := by
  obtain ⟨hclosed, hgeneration⟩ := w.meet_frame rest x
  refine ⟨haccounted.tidy.meet rest x, ?_, fun hinstalled => ?_, fun t ht => ?_⟩
  · rw [History.installed_concat, haccounted.opened, hclosed, Bool.or_eq_false_iff]
  · have hinstalled' := (History.installed_concat.mp hinstalled).1
    rw [hgeneration (haccounted.opened.mp hinstalled'), haccounted.counted hinstalled',
      History.changes_concat]
  · rcases haccounted.tidy.mem_live_meet.mp ht with ⟨t₀, ht₀, hleft, -, rfl⟩ | ⟨p, hx, hopen, rfl⟩
    · obtain ⟨a, after, hhears, hdue, hafter⟩ := haccounted.of_change t₀ ht₀
      rw [Incident.path_on, Incident.generation_on, Incident.due_on]
      refine ⟨a, after ++ [x], hhears.concat x, hdue, ?_⟩
      rw [List.forall_mem_append, List.forall_mem_singleton]
      exact ⟨hafter, hleft⟩
    · have hinstalled := haccounted.opened.mpr hopen
      have hx' : x = (x.1, .changed p) := by rw [← hx]
      rw [haccounted.counted hinstalled]
      refine ⟨x.1, [], ?_, rfl, fun y hy => absurd hy List.not_mem_nil⟩
      rw [hx']
      exact History.hears_concat_self h hinstalled x.1 p

theorem Accounted.meetAll {w : Watcher} {rest : Nat} {h : History} (haccounted : w.Accounted rest h)
    (h' : History) : (w.meetAll rest h').Accounted rest (h ++ h') := by
  induction h' generalizing w h with
  | nil =>
    rw [List.append_nil]
    exact haccounted
  | cons x h' ih =>
    have hrest := ih (haccounted.meet x)
    rw [List.append_assoc] at hrest
    exact hrest

/-! ## What is executed

Both directions of the law. What is executed is due then, because timers are
neither early nor late, and it has not been disturbed, because it is still
there. Conversely a reload that nobody disturbs is there until its timer goes
off; and since the clock is right, that is not later than when it is due. -/

section

variable {w : Watcher} {rest : Nat} {h : History}

/-- A reload is executed when something happens. -/
theorem exists_time_of_executed {e : Nat × Reload} (he : e ∈ w.executed rest h) : ∃ y ∈ h, y.1 = e.1 := by
  induction h generalizing w with
  | nil => exact absurd he List.not_mem_nil
  | cons x h ih =>
    rcases List.mem_append.mp he with he | he
    · exact ⟨x, List.mem_cons_self, (mem_executedAt.mp he).1.symm⟩
    · obtain ⟨y, hy, htime⟩ := ih he
      exact ⟨y, List.mem_cons_of_mem x hy, htime⟩

/-- What is executed is the reload of a change whose file was left alone until
then, and it is executed at once when the file has rested. -/
theorem Accounted.of_executed (haccounted : w.Accounted rest [])
    (hordered : h.Pairwise fun x y => x.1 ≤ y.1) (hprompt : w.Prompt rest h) {e : Nat × Reload}
    (he : e ∈ w.executed rest h) : ∃ a after, h.Hears e.2.generation a e.2.path after ∧
      e = (a + rest, ⟨e.2.path, e.2.generation, a + rest, false⟩) ∧
      after.LeavesAlone e.2.path (a + rest) := by
  induction h using List.reverseRecOn with
  | nil => exact absurd he List.not_mem_nil
  | append_singleton h x ih =>
    obtain ⟨hordered', -, hlast⟩ := List.pairwise_append.mp hordered
    obtain ⟨hprompt', hontime, -⟩ := (w.prompt_append rest h [x]).mp hprompt
    rw [executed_concat] at he
    rcases List.mem_append.mp he with he | he
    · obtain ⟨a, after, hhears, heq, hleft⟩ := ih hordered' hprompt' he
      refine ⟨a, after ++ [x], hhears.concat x, heq, ?_⟩
      rw [History.LeavesAlone, List.forall_mem_append, List.forall_mem_singleton]
      -- the new incident is no earlier than the one that has executed it
      refine ⟨hleft, fun hbefore => ?_⟩
      obtain ⟨y, hy, htime⟩ := exists_time_of_executed he
      have hle : e.1 ≤ x.1 := htime ▸ hlast y hy x (List.mem_singleton.mpr rfl)
      rw [heq] at hle
      exact absurd hbefore (Nat.not_lt.mpr hle)
    · obtain ⟨htime, hlive, hends, hloading⟩ := mem_executedAt.mp he
      obtain ⟨a, after, hhears, hdue, hafter⟩ := (haccounted.meetAll h).of_change e.2 hlive
      -- timers are on time: neither before the file has rested nor behind it
      obtain ⟨hearly, hlate⟩ := hontime e.2 hlive hloading
      refine ⟨a, after ++ [x], hhears.concat x, ?_, ?_⟩
      · have hexact : e.1 = a + rest := by
          rw [htime, ← hdue]
          exact Nat.le_antisymm hearly (hlate hends)
        refine Prod.ext hexact ?_
        show e.2 = ⟨e.2.path, e.2.generation, a + rest, false⟩
        rw [← hdue, ← hloading]
      · rw [History.LeavesAlone, List.forall_mem_append, List.forall_mem_singleton]
        exact ⟨fun y hy _ => hafter y hy, fun _ => Incident.not_disturbs_of_endsRestOf hends _⟩

/-- A reload that is left alone as long as it rests is executed when it is due,
or rests still. -/
theorem Tidy.executed_or_rests (htidy : w.Tidy) (hprompt : w.Prompt rest h) {t : Reload}
    (ht : t ∈ w.reloads.live) (hloading : t.loading = false)
    (hleft : ∀ x ∈ h, x.1 ≤ t.due → ¬ x.2.Disturbs t.path) :
    (t.due, t) ∈ w.executed rest h ∨ t ∈ (w.meetAll rest h).reloads.live := by
  induction h generalizing w with
  | nil => exact .inr ht
  | cons x h ih =>
    obtain ⟨hontime, hprompt'⟩ := hprompt
    obtain ⟨hearly, hlate⟩ := hontime t ht hloading
    -- the incident executes it, which is then on time, or it goes on resting
    cases hends : x.2.endsRestOf t.generation with
    | true =>
      have htime : t.due = x.1 := Nat.le_antisymm (hlate hends) hearly
      exact .inl (List.mem_append_left _ (mem_executedAt.mpr ⟨htime, ht, hends, hloading⟩))
    | false =>
      have hstays : t ∈ (w.meet rest x).reloads.live := by
        refine htidy.mem_live_meet.mpr (.inl ⟨t, ht, hleft x List.mem_cons_self hearly, ?_, ?_⟩)
        · rw [hloading]
          exact fun hfalse => absurd hfalse (by decide)
        · rw [Incident.on, hends]
          rfl
      refine (ih (htidy.meet rest x) hprompt' hstays fun y hy => hleft y (List.mem_cons_of_mem x hy)).imp_left
        fun he => List.mem_append_right _ he

/-- Nothing makes the latest generation smaller. -/
theorem generation_le_meet (w : Watcher) (rest : Nat) (x : Nat × Incident) :
    w.reloads.generation ≤ (w.meet rest x).reloads.generation := by
  cases hopen : w.reloads.closed with
  | false =>
    rw [(w.meet_frame rest x).2 hopen]
    exact Nat.le_add_right _ _
  | true =>
    obtain ⟨now, incident⟩ := x
    cases incident with
    | changed p =>
      exact Nat.le_of_eq (within_after_of_closed hopen rest (.heard now p)).generation.symm
    | rested generation => exact Nat.le_refl _
    | loaded generation outcome =>
      exact Nat.le_of_eq (w.within_loaded rest generation outcome).generation.symm
    | tornDown => exact Nat.le_refl _

/-- No reload has a greater generation than the latest one. -/
theorem Tidy.generation_le (htidy : w.Tidy) {t : Reload} (ht : t ∈ w.reloads.live) :
    t.generation ≤ w.reloads.generation :=
  htidy.owned.bounded _ (htidy.owned.mem_pending ht)

/-- A reload that rests behind an incident did so before, and the incident does
not end it, or it is new. -/
theorem Tidy.rests_before (htidy : w.Tidy) {x : Nat × Incident} {t : Reload}
    (ht : t ∈ (w.meet rest x).reloads.live) (hloading : t.loading = false) :
    (t ∈ w.reloads.live ∧ x.2.endsRestOf t.generation = false) ∨
      w.reloads.generation < t.generation := by
  rcases htidy.mem_live_meet.mp ht with ⟨t₀, ht₀, -, -, rfl⟩ | ⟨p, -, -, rfl⟩
  · cases hends : x.2.endsRestOf t₀.generation with
    | true =>
      rw [Incident.on, hends] at hloading
      exact absurd hloading (by simp)
    | false =>
      have hsame : x.2.on t₀ = t₀ := by
        rw [Incident.on, hends]
        rfl
      rw [hsame]
      exact .inl ⟨ht₀, hends⟩
  · exact .inr (Nat.lt_succ_self _)

/-- What is going to be executed rests already, or it has not begun. -/
theorem Tidy.begins_of_executed (htidy : w.Tidy) {e : Nat × Reload} (he : e ∈ w.executed rest h) :
    (∃ t ∈ w.reloads.live, t.loading = false ∧ t.generation = e.2.generation) ∨
      w.reloads.generation < e.2.generation := by
  induction h generalizing w with
  | nil => exact absurd he List.not_mem_nil
  | cons x h ih =>
    rcases List.mem_append.mp he with he | he
    · obtain ⟨-, hlive, -, hloading⟩ := mem_executedAt.mp he
      exact .inl ⟨e.2, hlive, hloading, rfl⟩
    · rcases ih (htidy.meet rest x) he with ⟨t, ht, hloading, hgeneration⟩ | hlater
      · rcases htidy.rests_before ht hloading with ⟨ht', -⟩ | hnew
        · exact .inl ⟨t, ht', hloading, hgeneration⟩
        · exact .inr (hgeneration ▸ hnew)
      · exact .inr (Nat.lt_of_le_of_lt (w.generation_le_meet rest x) hlater)

/-- **No reload is executed twice.** Generations never come again, and what is
being executed rests no more, so it cannot come to the end of its rest once
more. -/
theorem Tidy.executed_once (htidy : w.Tidy) (rest : Nat) (h : History) :
    ((w.executed rest h).map (·.2.generation)).Nodup := by
  induction h generalizing w with
  | nil => exact List.nodup_nil
  | cons x h ih =>
    have hgenerations : (w.reloads.live.map (·.generation)).Nodup := by
      have hpending : w.reloads.live.map (·.generation) = w.reloads.pending.map Prod.snd := by
        rw [← htidy.owned.entries, List.map_map]
        rfl
      rw [hpending, List.Nodup, List.pairwise_map]
      exact htidy.owned.ordered.imp fun hlt => Nat.ne_of_lt hlt
    rw [executed, List.map_append, List.nodup_append]
    refine ⟨?_, ih (htidy.meet rest x), ?_⟩
    · rw [executedAt, List.map_map]
      exact hgenerations.sublist (List.filter_sublist.map _)
    -- what is executed now rests no more, so what is executed later is another
    -- reload
    · intro generation hnow generation' hlater heq
      obtain ⟨e, he, rfl⟩ := List.mem_map.mp hnow
      obtain ⟨e', he', rfl⟩ := List.mem_map.mp hlater
      obtain ⟨-, hlive, hends, -⟩ := mem_executedAt.mp he
      have hbound := htidy.generation_le hlive
      rcases (htidy.meet rest x).begins_of_executed he' with ⟨t, ht, hloading, hgeneration⟩ | hnew
      · rcases htidy.rests_before ht hloading with ⟨-, hrests⟩ | hnew
        · rw [hgeneration, ← heq, hends] at hrests
          exact absurd hrests (by decide)
        · omega
      · have hle := w.generation_le_meet rest x
        omega

end

/-! ## What is being loaded

A file takes some time to be loaded, and nothing is said of how long. Meanwhile
its reload may still be given up, by another change of the file or with the
watcher, and then what was loaded is not published. -/

/-- The reload was executed, and since then its loading has neither come to its
end nor been given up. -/
def BeingLoaded (w : Watcher) (rest : Nat) (h : History) (t : Reload) : Prop :=
  ∃ front x back, h = front ++ x :: back ∧ (x.1, t) ∈ (w.meetAll rest front).executedAt x ∧
    ∀ y ∈ back, ¬ y.2.Disturbs t.path ∧ y.2.endsLoadingOf t.generation = false

section

variable {w : Watcher} {rest : Nat} {h : History}

/-- A reload that is being loaded goes on being so, until that comes to its end
or is given up. -/
theorem Tidy.mem_live_meetAll (htidy : w.Tidy) {t : Reload} (ht : t ∈ w.reloads.live)
    (hloading : t.loading = true)
    (hleft : ∀ y ∈ h, ¬ y.2.Disturbs t.path ∧ y.2.endsLoadingOf t.generation = false) :
    t ∈ (w.meetAll rest h).reloads.live := by
  induction h generalizing w with
  | nil => exact ht
  | cons x h ih =>
    obtain ⟨⟨hother, hends⟩, hrest⟩ := List.forall_mem_cons.mp hleft
    have hsame : x.2.on t = t := by
      rw [Incident.on, ← hloading]
      exact ite_self t
    refine ih (htidy.meet rest x) (htidy.mem_live_meet.mpr (.inl ⟨t, ht, hother, fun _ => hends, ?_⟩)) hrest
    exact hsame.symm

/-- What is being loaded was executed, and nothing has ended it since. -/
theorem Tidy.beingLoaded_of_mem_live (htidy : w.Tidy) (hnone : w.reloads.live = []) {t : Reload}
    (ht : t ∈ (w.meetAll rest h).reloads.live) (hloading : t.loading = true) :
    w.BeingLoaded rest h { t with loading := false } := by
  induction h using List.reverseRecOn generalizing t with
  | nil =>
    rw [show (w.meetAll rest []).reloads.live = [] from hnone] at ht
    exact absurd ht List.not_mem_nil
  | append_singleton h x ih =>
    rw [meetAll_concat] at ht
    -- by the last incident: it was there before, or it is new and rests
    rcases (htidy.meetAll rest h).mem_live_meet.mp ht with ⟨t₀, ht₀, hother, hends, rfl⟩ | ⟨p, -, -, rfl⟩
    · have hon : { x.2.on t₀ with loading := false } = { t₀ with loading := false } := by
        rw [Incident.on]
        split <;> rfl
      rw [hon]
      cases hloading₀ : t₀.loading with
      | true =>
        -- it was being loaded before
        obtain ⟨front, y, back, rfl, hexecuted, hleft⟩ := ih ht₀ hloading₀
        refine ⟨front, y, back ++ [x], by rw [List.append_assoc, List.cons_append], hexecuted, ?_⟩
        rw [List.forall_mem_append, List.forall_mem_singleton]
        exact ⟨hleft, hother, hends hloading₀⟩
      | false =>
        -- it rested, so this incident has executed it
        have hrests : x.2.endsRestOf t₀.generation = true := by
          by_contra hrests
          rw [Incident.on, if_neg hrests, hloading₀] at hloading
          exact absurd hloading (by decide)
        have hsame : { t₀ with loading := false } = t₀ := by rw [← hloading₀]
        rw [hsame]
        refine ⟨h, x, [], rfl, mem_executedAt.mpr ⟨rfl, ht₀, hrests, hloading₀⟩, ?_⟩
        exact fun y hy => absurd hy List.not_mem_nil
    · exact absurd hloading (by simp)

/-- **Only executed reloads are loaded**, and they are until their loading
comes to its end or is given up. So whether a reload is being loaded can be
told from the history alone. -/
theorem Tidy.loading?_isSome_iff (htidy : w.Tidy) (hnone : w.reloads.live = []) {generation : Nat} :
    ((w.meetAll rest h).loading? generation).isSome = true ↔
      ∃ t, t.generation = generation ∧ w.BeingLoaded rest h t := by
  rw [Option.isSome_iff_exists]
  constructor
  · rintro ⟨t, ht⟩
    obtain ⟨hlive, rfl, hloading⟩ := (htidy.meetAll rest h).loading?_eq_some_iff.mp ht
    exact ⟨{ t with loading := false }, rfl, htidy.beingLoaded_of_mem_live hnone hlive hloading⟩
  · rintro ⟨t, rfl, front, x, back, rfl, hexecuted, hleft⟩
    obtain ⟨-, hlive, hends, hloading⟩ := mem_executedAt.mp hexecuted
    have htidy' := htidy.meetAll rest front
    -- it began to be loaded when it was executed, and nothing behind ends that
    have hbegun : { t with loading := true } ∈ ((w.meetAll rest front).meet rest x).reloads.live := by
      refine htidy'.mem_live_meet.mpr (.inl ⟨t, hlive, Incident.not_disturbs_of_endsRestOf hends _, ?_, ?_⟩)
      · rw [hloading]
        exact fun hfalse => absurd hfalse (by decide)
      · rw [Incident.on, if_pos hends]
    have hend := @Tidy.mem_live_meetAll _ rest back (htidy'.meet rest x) _ hbegun rfl hleft
    refine ⟨{ t with loading := true }, ?_⟩
    rw [(htidy.meetAll rest (front ++ x :: back)).loading?_eq_some_iff, meetAll_append]
    exact ⟨hend, rfl, rfl⟩

end

end Watcher

/-! ## What is announced

The end of a loading is the one incident that may publish something. It does so
through the session of the watcher, which announces what it has published. -/

/-- What is handed on to be published at an incident. -/
def Watcher.handedOn? (w : Watcher) : Incident → Option Evaluated
  | .loaded generation outcome => w.yielded? (.loaded generation outcome)
  | .changed _ | .rested _ | .tornDown => none

/-- The session behind something that happens to a watcher. -/
def Session.heed (s : Session) (w : Watcher) (x : Nat × Incident) : Session :=
  s.take w.locale (w.handedOn? x.2)

/-- A change is announced if and only if a reload that is being loaded comes to
a good end. -/
theorem Session.announced_heed (s : Session) (w : Watcher) (x : Nat × Incident) :
    (s.heed w x).announced = s.announced + 1 ∧
        (∃ generation m, x.2 = .loaded generation (.ok m) ∧ (w.loading? generation).isSome = true) ∨
      (s.heed w x).announced = s.announced ∧
        ¬ ∃ generation m, x.2 = .loaded generation (.ok m) ∧ (w.loading? generation).isSome = true := by
  obtain ⟨now, incident⟩ := x
  cases incident with
  | changed p => exact .inr ⟨rfl, by simp⟩
  | rested generation => exact .inr ⟨rfl, by simp⟩
  | tornDown => exact .inr ⟨rfl, by simp⟩
  | loaded generation outcome =>
    have hheed : s.heed w (now, .loaded generation outcome)
        = s.take w.locale ((w.loading? generation).map fun t => (t.path, outcome)) := rfl
    rw [hheed]
    cases hloading : w.loading? generation with
    | none => exact .inr ⟨rfl, by simp [hloading]⟩
    | some t =>
      cases outcome with
      | error fault => exact .inr ⟨rfl, by simp⟩
      | ok m => exact .inl ⟨rfl, generation, m, rfl, by rw [hloading]; rfl⟩

/-! ## The law of the rests

The parts put together. The law has one direction for each change and one for
each reload that is executed, and a third part says that what is executed is
announced once it has been loaded well. -/

namespace Watcher

/-- **What the changes decide** about the reloads of a watcher, where files
rest for the given time. -/
structure Debounced (w : Watcher) (rest : Nat) (h : History) (stop : Nat) : Prop where
  /-- A change has its reload executed at the time when its file has rested, if
  and only if the file is left alone until then. What comes at the very time
  when the rest is over may come before it or behind it. -/
  of_change : ∀ number a p after, h.Hears number a p after → a + rest ≤ stop →
    (∀ x ∈ after, x.1 = a + rest → ¬ x.2.Disturbs p) →
    ((a + rest, ⟨p, number, a + rest, false⟩) ∈ w.executed rest h ↔ after.LeavesAlone p (a + rest))
  /-- Nothing else is executed. -/
  of_executed : ∀ e ∈ w.executed rest h, ∃ a after, h.Hears e.2.generation a e.2.path after ∧
    e = (a + rest, ⟨e.2.path, e.2.generation, a + rest, false⟩) ∧ after.LeavesAlone e.2.path (a + rest)
  /-- Nothing is executed twice. -/
  once : ((w.executed rest h).map (·.2.generation)).Nodup
  /-- A reload that was executed is announced when it has been loaded well, and
  nothing else is. -/
  announced : ∀ before x after, h = before ++ x :: after → ∀ s : Session,
    let s' := s.heed (w.meetAll rest before) x
    let loadedWell := ∃ t m, w.BeingLoaded rest before t ∧ x.2 = .loaded t.generation (.ok m)
    s'.announced = s.announced + 1 ∧ loadedWell ∨ s'.announced = s.announced ∧ ¬ loadedWell

/-- **The law of the rests.** Let a watcher begin, and let its clock be right.
Then a reload is executed for each change whose file is left alone until it has
rested, at the time when it has, and for nothing else. What happens to other
files is of no account. A reload that is executed is announced if and only if
its file is loaded well. -/
theorem debounced_of_punctual {w : Watcher} (hw : w.reloads = {}) {rest : Nat} {h : History} {stop : Nat}
    (hpunctual : w.Punctual rest h stop) : w.Debounced rest h stop := by
  have haccounted := accounted_of_empty hw rest
  have htidy := haccounted.tidy
  have hof : ∀ e ∈ w.executed rest h, ∃ a after, h.Hears e.2.generation a e.2.path after ∧
      e = (a + rest, ⟨e.2.path, e.2.generation, a + rest, false⟩) ∧
      after.LeavesAlone e.2.path (a + rest) := fun e he =>
    haccounted.of_executed hpunctual.ordered hpunctual.prompt he
  refine ⟨?_, hof, htidy.executed_once rest h, ?_⟩
  -- a change: it is executed exactly if its file is left alone
  · intro number a p after hhears hstop hexact
    constructor
    · intro he
      obtain ⟨a', after', hhears', -, hleft⟩ := hof _ he
      obtain ⟨rfl, -, rfl⟩ := hhears.unique hhears'
      exact hleft
    · intro hleft
      obtain ⟨before, rfl, hinstalled, rfl⟩ := hhears
      obtain ⟨-, hprompt⟩ := (w.prompt_append rest before _).mp hpunctual.prompt
      have hbefore : (w.meetAll rest before).Accounted rest before := haccounted.meetAll before
      -- the change begins a reload
      have hbegun : ⟨p, before.changes + 1, a + rest, false⟩
          ∈ ((w.meetAll rest before).meet rest (a, .changed p)).reloads.live := by
        refine hbefore.tidy.mem_live_meet.mpr (.inr ⟨p, rfl, hbefore.opened.mp hinstalled, ?_⟩)
        rw [hbefore.counted hinstalled]
      have hresting : ∀ x ∈ after, x.1 ≤ a + rest → ¬ x.2.Disturbs p := by
        intro x hx hle
        rcases Nat.lt_or_eq_of_le hle with hlt | heq
        · exact hleft x hx hlt
        · exact hexact x hx heq
      have htidy' := hbefore.tidy.meet rest (a, .changed p)
      rw [executed_append, executed]
      rcases htidy'.executed_or_rests hprompt.2 hbegun rfl hresting with he | hrests
      · exact List.mem_append_right _ (List.mem_append_right _ he)
      · -- there is none that rests at the end and would be over
        have hend := hpunctual.ended
        rw [meetAll_append] at hend
        exact absurd hstop (Nat.not_le.mpr (hend _ hrests rfl))
  -- an incident: it announces something exactly if it ends a loading well
  · intro before x after heq s s' loadedWell
    have hnone : w.reloads.live = [] := by rw [hw]
    have hwell : loadedWell ↔ ∃ generation m, x.2 = .loaded generation (.ok m) ∧
        ((w.meetAll rest before).loading? generation).isSome = true := by
      constructor
      · rintro ⟨t, m, hloaded, hx⟩
        exact ⟨t.generation, m, hx, (htidy.loading?_isSome_iff hnone).mpr ⟨t, rfl, hloaded⟩⟩
      · rintro ⟨generation, m, hx, hsome⟩
        obtain ⟨t, rfl, hloaded⟩ := (htidy.loading?_isSome_iff hnone).mp hsome
        exact ⟨t, m, hloaded, hx⟩
    rw [hwell]
    exact s.announced_heed (w.meetAll rest before) x

/-- A file changes twice, and meanwhile another one does. -/
def burst : History :=
  [(0, .changed ⟨"en.json"⟩), (1, .changed ⟨"de.json"⟩), (1, .changed ⟨"en.json"⟩), (3, .rested 2),
    (3, .rested 3), (3, .loaded 3 (.ok {})), (4, .loaded 2 (.ok {}))]

/-- A burst leads to one reload of each of its files. -/
theorem debounced_burst : ∃ w : Watcher, w.reloads = {} ∧ w.Punctual 2 burst 4 ∧ w.Debounced 2 burst 4 := by
  have hpunctual : (Watcher.mk "en" [] none {}).Punctual 2 burst 4 :=
    ⟨by decide +kernel, by decide +kernel, by decide +kernel⟩
  exact ⟨Watcher.mk "en" [] none {}, rfl, hpunctual, debounced_of_punctual rfl hpunctual⟩

end Watcher

end LocaleKeys
