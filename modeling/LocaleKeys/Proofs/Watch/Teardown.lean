/-
The end of a watcher.

A watcher is taken down in parts: first no change is taken in any more, then
nothing is listened to, then the reloads that are waited for are noted, the
account of them is emptied, and at last they are given up one by one. Between
any two of these parts everything else may go on. Changes are still reported,
rests end, and files that are being loaded come to their ends.

What makes the end final is that no reload gets lost on the way. As long as the
account is not emptied it is that of the reloads under way, so that none is
missing from the note; and behind the first part none begins. Hence what is
under way at the end is what was noted and has not been given up
(`Teardown.Leaves`), and with the last one given up nothing is left that could
publish anything.
-/
import LocaleKeys.Proofs.Watch.Upkeep

set_option autoImplicit false

namespace LocaleKeys

/-! ## Which change a reload follows

To say that a reload is due to the latest change of its file, the changes are
numbered as they come. The numbers are those that the watcher gives its
reloads, so that a reload carries the number of its change with it. -/

/-- The change with the given number was one of the file, and no later change
was. -/
def LastHeard (heard : List Path) (p : Path) (number : Nat) : Prop :=
  ∃ before later, heard = before ++ p :: later ∧ number = before.length + 1 ∧
    ∀ q ∈ later, ¬ p.same q = true

/-- The latest change of a file is the last one of all, if that is one of the
file. -/
theorem lastHeard_append_self (heard : List Path) (p : Path) :
    LastHeard (heard ++ [p]) p (heard.length + 1) :=
  ⟨heard, [], rfl, rfl, by simp⟩

/-- A change of another file makes no difference. -/
theorem LastHeard.append {heard : List Path} {p q : Path} {number : Nat}
    (h : LastHeard heard p number) (hother : ¬ p.same q = true) :
    LastHeard (heard ++ [q]) p number := by
  obtain ⟨before, later, rfl, hnumber, hlater⟩ := h
  refine ⟨before, later ++ [q], by simp, hnumber, fun q' hq' => ?_⟩
  rcases List.mem_append.mp hq' with hq' | hq'
  · exact hlater q' hq'
  · rw [List.mem_singleton.mp hq']
    exact hother

namespace Reloads

/-- The reloads follow the changes that were taken in: each of them is due to
the latest change of its file, and has its number for a generation. -/
structure Follows (r : Reloads) (heard : List Path) : Prop where
  generation : r.generation = heard.length
  latest : ∀ t ∈ r.live, LastHeard heard t.path t.generation

theorem follows_empty : ({} : Reloads).Follows [] := ⟨rfl, by simp⟩

section

variable {r r' : Reloads} {heard : List Path}

/-- **A change is followed** by the reload that it begins. The reload of the
same file that was waited for until now is given up, and no other one has to do
with the change. -/
theorem Follows.receive (h : r.Follows heard) (howned : r.Owned) (hopen : r.closed = false)
    (now rest : Nat) (p : Path) : (r.receive now rest p).Follows (heard ++ [p]) := by
  have hgeneration : (r.receive now rest p).generation = r.generation + 1 := by
    rw [receive_of_open hopen]
  refine ⟨?_, fun t ht => ?_⟩
  · rw [hgeneration, h.generation, List.length_append, List.length_singleton]
  · rcases (howned.mem_live_receive hopen now rest p t).mp ht with ⟨ht, hother⟩ | rfl
    · exact (h.latest t ht).append hother
    · have hnew : LastHeard (heard ++ [p]) p (r.generation + 1) := by
        rw [h.generation]
        exact lastHeard_append_self heard p
      exact hnew

theorem Follows.receiveAll (h : r.Follows heard) (howned : r.Owned) (hopen : r.closed = false)
    (now rest : Nat) (paths : List Path) :
    (r.receiveAll now rest paths).Follows (heard ++ paths) := by
  induction paths generalizing r heard with
  | nil =>
    rw [List.append_nil]
    exact h
  | cons p paths ih =>
    have hnext := ih (h.receive howned hopen now rest p) (howned.receive now rest p)
      (by rw [closed_receive, hopen])
    rw [List.append_assoc] at hnext
    exact hnext

/-! ## Fewer reloads

Apart from changes, everything that happens to reloads takes some of them away
or marks them. `Within` says that much, and what is true of all reloads under
way, and of any two of them, stays true under it. -/

/-- What is under way, file by file. -/
def entries (r : Reloads) : List (Path × Nat) := r.live.map fun t => (t.path, t.generation)

/-- No reload has begun, and none has become that of another file. -/
structure Within (r' r : Reloads) : Prop where
  entries : r'.entries.Sublist r.entries
  generation : r'.generation = r.generation
  closed : r'.closed = r.closed

theorem within_refl (r : Reloads) : r.Within r := ⟨List.Sublist.refl _, rfl, rfl⟩

/-- The end of a rest marks a reload and changes no entry. -/
theorem within_expire (r : Reloads) (generation : Nat) : (r.expire generation).Within r := by
  have hentries : (r.expire generation).entries = r.entries := by
    rw [Reloads.entries, Reloads.entries, expire, List.map_map]
    refine List.map_congr_left fun t _ => ?_
    rw [Function.comp_apply]
    split <;> rfl
  exact ⟨by rw [hentries], rfl, rfl⟩

/-- A reload that is given up goes away. -/
theorem within_cancel (r : Reloads) (generation : Nat) : (r.cancel generation).Within r :=
  ⟨List.filter_sublist.map _, rfl, rfl⟩

theorem within_finish (r : Reloads) (generation : Nat) : (r.finish generation).Within r :=
  ⟨List.filter_sublist.map _, rfl, rfl⟩

/-- The entries are those of the reloads under way. -/
theorem mem_entries {e : Path × Nat} :
    e ∈ r.entries ↔ ∃ t ∈ r.live, (t.path, t.generation) = e := by
  rw [Reloads.entries, List.mem_map]

/-- What is still under way was so before. -/
theorem Within.exists_mem (h : r'.Within r) {t' : Reload} (ht' : t' ∈ r'.live) :
    ∃ t ∈ r.live, t.path = t'.path ∧ t.generation = t'.generation := by
  have hentry : (t'.path, t'.generation) ∈ r.entries :=
    h.entries.subset (mem_entries.mpr ⟨t', ht', rfl⟩)
  obtain ⟨t, ht, heq⟩ := mem_entries.mp hentry
  exact ⟨t, ht, (Prod.mk.inj heq).1, (Prod.mk.inj heq).2⟩

/-- Fewer reloads follow the changes as well. -/
theorem Follows.within (h : r.Follows heard) (hwithin : r'.Within r) : r'.Follows heard := by
  refine ⟨hwithin.generation.trans h.generation, fun t' ht' => ?_⟩
  obtain ⟨t, ht, hpath, hgeneration⟩ := hwithin.exists_mem ht'
  rw [← hpath, ← hgeneration]
  exact h.latest t ht

/-- No file has two reloads under way. -/
def Single (r : Reloads) : Prop := Path.Apart (r.live.map (·.path))

/-- The account has one entry for each file. -/
theorem Owned.single (h : r.Owned) : r.Single := by
  have hpaths : r.live.map (·.path) = r.pending.map Prod.fst := by
    rw [← h.entries, List.map_map]
    rfl
  rw [Single, hpaths]
  exact h.apart

/-- Fewer reloads are still no two of one file. -/
theorem Single.within (h : r.Single) (hwithin : r'.Within r) : r'.Single := by
  have hsublist := hwithin.entries.map Prod.fst
  rw [Reloads.entries, Reloads.entries, List.map_map, List.map_map] at hsublist
  exact List.Pairwise.sublist hsublist h

end

end Reloads

/-! ## The parts of a teardown

In the source a shutdown raises a flag, aborts the task that listens, collects
the abort handles of the pending reloads, clears the map of them, and aborts
the reloads one after the other. The map is not held from one of these to the
next, so that a rest may end, or a file come to the end of its loading, between
any two. Here each part is a turn of its own, and everything else that can
happen is one as well. -/

/-- How far the teardown of a watcher has come. -/
inductive Teardown where
  /-- It has not begun. -/
  | ahead
  /-- No change is taken in any more. -/
  | raised
  /-- Nothing is listened to any more. -/
  | stopped
  /-- The reloads that are waited for were noted. -/
  | noted (generations : List Nat)
  /-- Nothing is waited for. The reloads that are left of the note have still
  to be given up. -/
  | cleared (generations : List Nat)
deriving Repr, DecidableEq

/-- What a teardown that has come so far leaves of the reloads. -/
def Teardown.Leaves : Teardown → Reloads → Prop
  | ahead, r => r.Owned ∧ r.closed = false
  | raised, r | stopped, r => r.Owned ∧ r.closed = true
  | noted generations, r =>
    r.Owned ∧ r.closed = true ∧ ∀ t ∈ r.live, t.generation ∈ generations
  | cleared generations, r =>
    r.Single ∧ r.pending = [] ∧ r.closed = true ∧ ∀ t ∈ r.live, t.generation ∈ generations

/-- A watcher at work, with the session it works for. -/
structure Tending where
  watcher : Watcher
  session : Session
  /-- How long files rest. -/
  rest : Nat
  teardown : Teardown := .ahead
  /-- The changes that were heard of before the teardown began. -/
  heard : List Path := []

/-- Something that happens while a watcher is at work. -/
inductive Turn where
  /-- It happens to the watcher. -/
  | upkeep (u : Upkeep)
  /-- From now on no change is taken in. -/
  | raise
  /-- From now on nothing is listened to. -/
  | stop
  /-- The reloads that are waited for are noted. -/
  | note
  /-- The account of what is waited for is emptied. -/
  | clear
  /-- The next reload of the note is given up. -/
  | giveUp
  /-- Somebody else has changed the session. -/
  | elsewhere (s : Session)

/-- The files of whose changes a watcher hears. -/
def Watcher.hears (w : Watcher) : Upkeep → List Path
  | .heard _ p => [p]
  | .looked d _ => (w.poller.map (·.reported d)).getD []
  | .rested _ | .loaded _ _ => []

namespace Tending

/-- The watcher of a locale begins its work. -/
def begin (source : WatchSource) (now interval : Nat) (locale : String) (files : List Path) (s : Session)
    (rest : Nat) : Tending :=
  { watcher := .install source now interval locale files, session := s, rest }

/-- The reloads of the watcher. -/
def reloads (a : Tending) : Reloads := a.watcher.reloads

/-- The same with other reloads. -/
def withReloads (a : Tending) (r : Reloads) (teardown : Teardown) : Tending :=
  { a with watcher := { a.watcher with reloads := r }, teardown }

/-- What is at work behind a turn. A part of the teardown that is not the next
one does nothing. A watcher that is taken down may be taken down again. -/
def step (a : Tending) : Turn → Tending
  | .upkeep u =>
    { a with
      watcher := a.watcher.after a.rest u
      session := a.session.take a.watcher.locale (a.watcher.yielded? u)
      heard := if a.teardown = .ahead then a.heard ++ a.watcher.hears u else a.heard }
  | .raise =>
    match a.teardown with
    | .ahead | .cleared [] => a.withReloads { a.reloads with closed := true } .raised
    | _ => a
  | .stop =>
    match a.teardown with
    | .raised => { a with teardown := .stopped }
    | _ => a
  | .note =>
    match a.teardown with
    | .stopped => { a with teardown := .noted (a.reloads.pending.map Prod.snd) }
    | _ => a
  | .clear =>
    match a.teardown with
    | .noted generations => a.withReloads { a.reloads with pending := [] } (.cleared generations)
    | _ => a
  | .giveUp =>
    match a.teardown with
    | .cleared (generation :: generations) =>
      a.withReloads (a.reloads.cancel generation) (.cleared generations)
    | _ => a
  | .elsewhere s => { a with session := s }

/-- What is at work behind turns. -/
def run (a : Tending) (turns : List Turn) : Tending := turns.foldl step a

theorem run_append (a : Tending) (turns turns' : List Turn) :
    a.run (turns ++ turns') = (a.run turns).run turns' := List.foldl_append

end Tending

/-! ## What happens to the watcher

Each kind of upkeep is looked at with the reloads open and with the reloads
closed. Open, a change begins a reload and is counted; closed, nothing begins
and the rest can only take reloads away. -/

namespace Watcher

variable {w : Watcher}

/-- The end of a rest begins no reload. -/
theorem within_rested (w : Watcher) (rest generation : Nat) :
    (w.after rest (.rested generation)).reloads.Within w.reloads :=
  Reloads.within_expire w.reloads generation

/-- The end of a loading begins no reload. -/
theorem within_loaded (w : Watcher) (rest generation : Nat)
    (outcome : Except LoadFault Messages) :
    (w.after rest (.loaded generation outcome)).reloads.Within w.reloads := by
  rw [after]
  split
  · exact Reloads.within_finish w.reloads generation
  · exact Reloads.within_refl w.reloads

/-- Once no change is taken in, nothing begins a reload. -/
theorem within_after_of_closed (h : w.reloads.closed = true) (rest : Nat) (u : Upkeep) :
    (w.after rest u).reloads.Within w.reloads := by
  cases u with
  | heard now p =>
    have hsame : w.reloads.receive now rest p = w.reloads := by
      rw [Reloads.receive, h]
      rfl
    rw [after, Watcher.receive, hsame]
    exact Reloads.within_refl w.reloads
  | looked d now =>
    cases hpoller : w.poller with
    | none =>
      rw [after, look_of_none hpoller]
      exact Reloads.within_refl w.reloads
    | some poller =>
      have hsame := Reloads.receiveAll_of_closed now rest (poller.reported d) h
      rw [after, look_eq hpoller, hsame]
      exact Reloads.within_refl w.reloads
  | rested generation => exact w.within_rested rest generation
  | loaded generation outcome => exact w.within_loaded rest generation outcome

/-- Once no change is taken in, an account that is empty stays so. -/
theorem pending_after_of_closed (h : w.reloads.closed = true) (hpending : w.reloads.pending = [])
    (rest : Nat) (u : Upkeep) : (w.after rest u).reloads.pending = [] := by
  cases u with
  | heard now p =>
    rw [after, Watcher.receive, Reloads.receive, h]
    exact hpending
  | looked d now =>
    cases hpoller : w.poller with
    | none =>
      rw [after, look_of_none hpoller]
      exact hpending
    | some poller =>
      rw [after, look_eq hpoller, Reloads.receiveAll_of_closed now rest _ h]
      exact hpending
  | rested generation => exact hpending
  | loaded generation outcome =>
    rw [after]
    split
    · have hempty : (w.reloads.finish generation).pending = [] := by
        rw [Reloads.finish, hpending, List.filter_nil]
      exact hempty
    · exact hpending

/-- Nothing that happens to a watcher makes it take changes in, or no longer. -/
theorem closed_after (w : Watcher) (rest : Nat) (u : Upkeep) :
    (w.after rest u).reloads.closed = w.reloads.closed := by
  cases u with
  | heard now p => exact Reloads.closed_receive now rest p
  | looked d now =>
    cases hpoller : w.poller with
    | none => rw [after, look_of_none hpoller]
    | some poller =>
      rw [after, look_eq hpoller]
      exact Reloads.closed_receiveAll now rest _
  | rested generation => rfl
  | loaded generation outcome => exact (w.within_loaded rest generation outcome).closed

/-- As long as changes are taken in, the reloads follow what is heard. -/
theorem follows_after {heard : List Path} (h : w.reloads.Follows heard) (howned : w.reloads.Owned)
    (hopen : w.reloads.closed = false) (rest : Nat) (u : Upkeep) :
    (w.after rest u).reloads.Follows (heard ++ w.hears u) := by
  cases u with
  | heard now p => exact h.receive howned hopen now rest p
  | looked d now =>
    cases hpoller : w.poller with
    | none =>
      have hsilent : w.hears (.looked d now) = [] := by
        rw [hears, hpoller]
        rfl
      rw [after, look_of_none hpoller, hsilent, List.append_nil]
      exact h
    | some poller =>
      have hreported : w.hears (.looked d now) = poller.reported d := by
        rw [hears, hpoller]
        rfl
      rw [after, look_eq hpoller, hreported]
      exact h.receiveAll howned hopen now rest _
  | rested generation =>
    rw [hears, List.append_nil]
    exact h.within (w.within_rested rest generation)
  | loaded generation outcome =>
    rw [hears, List.append_nil]
    exact h.within (w.within_loaded rest generation outcome)

end Watcher

/-! ## What holds throughout

The invariant is `Teardown.Leaves`, which says for each part what the parts
before it have brought about. Each part of the teardown is one lemma, and the
upkeep that may come in between is another, for all parts at once. -/

namespace Tending

/-- What holds at any time: the reloads follow the changes that were taken in,
and the teardown leaves what it should. -/
structure Sound (a : Tending) : Prop where
  follows : a.reloads.Follows a.heard
  leaves : a.teardown.Leaves a.reloads

variable {a : Tending}

/-- A watcher that begins has nothing under way, and nothing was heard. -/
theorem sound_begin (source : WatchSource) (now interval : Nat) (locale : String) (files : List Path)
    (s : Session) (rest : Nat) :
    (begin source now interval locale files s rest).Sound :=
  ⟨Reloads.follows_empty, Reloads.owned_empty, rfl⟩

/-- Until the account is emptied, it is that of the reloads under way. -/
theorem Sound.owned (h : a.Sound) (hkept : ∀ generations, a.teardown ≠ .cleared generations) :
    a.reloads.Owned := by
  have hleaves := h.leaves
  cases hteardown : a.teardown with
  | ahead => rw [hteardown] at hleaves; exact hleaves.1
  | raised => rw [hteardown] at hleaves; exact hleaves.1
  | stopped => rw [hteardown] at hleaves; exact hleaves.1
  | noted generations => rw [hteardown] at hleaves; exact hleaves.1
  | cleared generations => exact absurd hteardown (hkept generations)

/-- At any time no file has two reloads under way. -/
theorem Sound.single (h : a.Sound) : a.reloads.Single := by
  by_cases hcleared : ∃ generations, a.teardown = .cleared generations
  · obtain ⟨generations, hteardown⟩ := hcleared
    have hleaves := h.leaves
    rw [hteardown] at hleaves
    exact hleaves.1
  · exact (h.owned fun generations hteardown => hcleared ⟨generations, hteardown⟩).single

/-- A note that covers the reloads under way goes on covering them. -/
theorem covered_within {r r' : Reloads} {generations : List Nat} (hwithin : r'.Within r)
    (h : ∀ t ∈ r.live, t.generation ∈ generations) :
    ∀ t ∈ r'.live, t.generation ∈ generations := by
  intro t' ht'
  obtain ⟨t, ht, -, hgeneration⟩ := hwithin.exists_mem ht'
  rw [← hgeneration]
  exact h t ht

/-- What happens to a watcher leaves what its teardown left. -/
theorem leaves_after {w : Watcher} {teardown : Teardown} (h : teardown.Leaves w.reloads)
    (rest : Nat) (u : Upkeep) : teardown.Leaves (w.after rest u).reloads := by
  cases teardown with
  | ahead | raised | stopped =>
    obtain ⟨howned, hclosed⟩ := h
    exact ⟨Watcher.owned_after howned rest u, (w.closed_after rest u).trans hclosed⟩
  | noted generations =>
    obtain ⟨howned, hclosed, hnoted⟩ := h
    have hwithin := Watcher.within_after_of_closed hclosed rest u
    exact ⟨Watcher.owned_after howned rest u, hwithin.closed.trans hclosed,
      covered_within hwithin hnoted⟩
  | cleared generations =>
    obtain ⟨hsingle, hpending, hclosed, hnoted⟩ := h
    have hwithin := Watcher.within_after_of_closed hclosed rest u
    exact ⟨hsingle.within hwithin, Watcher.pending_after_of_closed hclosed hpending rest u,
      hwithin.closed.trans hclosed, covered_within hwithin hnoted⟩

/-- Behind the first part of a teardown no change is taken in. -/
theorem Sound.closed (h : a.Sound) (hbegun : a.teardown ≠ .ahead) : a.reloads.closed = true := by
  have hleaves := h.leaves
  cases hteardown : a.teardown with
  | ahead => exact absurd hteardown hbegun
  | raised => rw [hteardown] at hleaves; exact hleaves.2
  | stopped => rw [hteardown] at hleaves; exact hleaves.2
  | noted generations => rw [hteardown] at hleaves; exact hleaves.2.1
  | cleared generations => rw [hteardown] at hleaves; exact hleaves.2.2.1

/-- What happens to the watcher. -/
theorem Sound.upkeep (h : a.Sound) (u : Upkeep) : (a.step (.upkeep u)).Sound := by
  refine ⟨?_, leaves_after h.leaves a.rest u⟩
  by_cases hahead : a.teardown = .ahead
  · have hleaves := h.leaves
    rw [hahead] at hleaves
    obtain ⟨howned, hopen⟩ := hleaves
    have hfollows := Watcher.follows_after h.follows howned hopen a.rest u
    rw [step, if_pos hahead]
    exact hfollows
  · have hwithin := Watcher.within_after_of_closed (h.closed hahead) a.rest u
    rw [step, if_neg hahead]
    exact h.follows.within hwithin

/-- The first part, whether or not the watcher was taken down before. -/
theorem Sound.raise (h : a.Sound) : (a.step .raise).Sound := by
  have hclosing : ∀ howned : a.reloads.Owned,
      (a.withReloads { a.reloads with closed := true } .raised).Sound := fun howned =>
    ⟨⟨h.follows.generation, h.follows.latest⟩,
      ⟨howned.entries, howned.apart, howned.ordered, howned.bounded⟩, rfl⟩
  rw [step]
  split
  next hteardown => exact hclosing (h.owned (by simp [hteardown]))
  next hteardown =>
    -- a watcher that was taken down has nothing under way, and nothing is what
    -- it accounts for
    have hleaves := h.leaves
    rw [hteardown] at hleaves
    obtain ⟨-, hpending, -, hnoted⟩ := hleaves
    have hlive : a.reloads.live = [] :=
      List.eq_nil_iff_forall_not_mem.mpr fun t ht => List.not_mem_nil (hnoted t ht)
    refine hclosing ⟨?_, ?_, ?_, ?_⟩
    · rw [hlive, hpending]
      rfl
    · rw [hpending]
      exact List.Pairwise.nil
    · rw [hpending]
      exact List.Pairwise.nil
    · rw [hpending]
      simp
  next => exact h

/-- The note covers all that is under way, since each reload under way is
waited for. -/
theorem Sound.note (h : a.Sound) : (a.step .note).Sound := by
  rw [step]
  split
  next hteardown =>
    have hleaves := h.leaves
    rw [hteardown] at hleaves
    obtain ⟨howned, hclosed⟩ := hleaves
    refine ⟨h.follows, howned, hclosed, fun t ht => ?_⟩
    have hentry : (t.path, t.generation) ∈ a.reloads.pending := howned.mem_pending ht
    exact List.mem_map_of_mem hentry
  next => exact h

/-- To empty the account leaves what was noted. -/
theorem Sound.clear (h : a.Sound) : (a.step .clear).Sound := by
  rw [step]
  split
  next generations hteardown =>
    have hleaves := h.leaves
    rw [hteardown] at hleaves
    obtain ⟨howned, hclosed, hnoted⟩ := hleaves
    exact ⟨⟨h.follows.generation, h.follows.latest⟩, howned.single, rfl, hclosed, hnoted⟩
  next => exact h

/-- Giving up a reload that was noted leaves only such as come behind it in the
note. -/
theorem Sound.giveUp (h : a.Sound) : (a.step .giveUp).Sound := by
  rw [step]
  split
  next generation generations hteardown =>
    have hleaves := h.leaves
    rw [hteardown] at hleaves
    obtain ⟨hsingle, hpending, hclosed, hnoted⟩ := hleaves
    have hwithin := Reloads.within_cancel a.reloads generation
    refine ⟨h.follows.within hwithin, hsingle.within hwithin, hpending, hclosed, fun t ht => ?_⟩
    obtain ⟨hlive, hother⟩ := List.mem_filter.mp ht
    rcases List.mem_cons.mp (hnoted t hlive) with hgiven | hleft
    · exact absurd hgiven (by simpa using hother)
    · exact hleft
  next => exact h

/-- **A turn** keeps what holds at any time. The turns that belong to the end
of the watcher are taken by a teardown that is at the right point, and by no
other. -/
theorem Sound.step (h : a.Sound) (turn : Turn) : (a.step turn).Sound := by
  cases turn with
  | upkeep u => exact h.upkeep u
  | raise => exact h.raise
  | note => exact h.note
  | clear => exact h.clear
  | giveUp => exact h.giveUp
  | elsewhere s => exact ⟨h.follows, h.leaves⟩
  | stop =>
    rw [Tending.step]
    split
    next hteardown =>
      have hleaves := h.leaves
      rw [hteardown] at hleaves
      exact ⟨h.follows, hleaves⟩
    next => exact h

/-- Turns keep it as well. -/
theorem Sound.run (h : a.Sound) (turns : List Turn) : (a.run turns).Sound := by
  induction turns generalizing a with
  | nil => exact h
  | cons turn turns ih => exact ih (h.step turn)

/-! ## Behind the teardown

When the last reload of the note has been given up, none is left. From there on
only somebody else can change the session, and the turn `elsewhere` is the one
that is left out. -/

/-- Nothing is under way, nothing is waited for, and no change is taken in. -/
def Ended (a : Tending) : Prop := a.watcher.IsShutDown ∧ a.reloads.pending = []

/-- A teardown that is through has left nothing. -/
theorem Sound.ended (h : a.Sound) (hdown : a.teardown = .cleared []) : a.Ended := by
  have hleaves := h.leaves
  rw [hdown] at hleaves
  obtain ⟨-, hpending, hclosed, hnoted⟩ := hleaves
  have hlive : a.reloads.live = [] :=
    List.eq_nil_iff_forall_not_mem.mpr fun t ht => List.not_mem_nil (hnoted t ht)
  exact ⟨⟨hclosed, hlive⟩, hpending⟩

/-- **What has ended stays so**, and nothing is published by it any more. Only
what happens elsewhere may change the session, and the watcher has no part in
that. -/
theorem Ended.step (h : a.Ended) (turn : Turn) :
    (a.step turn).Ended ∧
      ((∀ s, turn ≠ .elsewhere s) → (a.step turn).session = a.session) := by
  obtain ⟨hdown, hpending⟩ := h
  cases turn with
  | upkeep u =>
    obtain ⟨hafter, hnothing⟩ := hdown.after a.rest u
    -- nothing is under way any more, so that no outcome can come in, and
    -- nothing is yielded
    have hkept := Watcher.pending_after_of_closed hdown.1 hpending a.rest u
    refine ⟨⟨hafter, hkept⟩, fun _ => ?_⟩
    have hsession : (a.step (.upkeep u)).session
        = a.session.take a.watcher.locale (a.watcher.yielded? u) := rfl
    rw [hsession, hnothing]
    rfl
  | elsewhere s => exact ⟨⟨hdown, hpending⟩, fun hown => absurd rfl (hown s)⟩
  | raise =>
    rw [Tending.step]
    split
    next => exact ⟨⟨⟨rfl, hdown.2⟩, hpending⟩, fun _ => rfl⟩
    next => exact ⟨⟨⟨rfl, hdown.2⟩, hpending⟩, fun _ => rfl⟩
    next => exact ⟨⟨hdown, hpending⟩, fun _ => rfl⟩
  | stop | note =>
    rw [Tending.step]
    split <;> exact ⟨⟨hdown, hpending⟩, fun _ => rfl⟩
  | clear =>
    rw [Tending.step]
    split
    next => exact ⟨⟨hdown, rfl⟩, fun _ => rfl⟩
    next => exact ⟨⟨hdown, hpending⟩, fun _ => rfl⟩
  | giveUp =>
    rw [Tending.step]
    split
    next generation generations hteardown =>
      have hlive : (a.reloads.cancel generation).live = [] := by
        rw [Reloads.cancel, show a.reloads.live = [] from hdown.2, List.filter_nil]
      exact ⟨⟨⟨hdown.1, hlive⟩, hpending⟩, fun _ => rfl⟩
    next => exact ⟨⟨hdown, hpending⟩, fun _ => rfl⟩

/-- Whatever comes, it stays ended. -/
theorem Ended.run (h : a.Ended) (turns : List Turn) : (a.run turns).Ended := by
  induction turns generalizing a with
  | nil => exact h
  | cons turn turns ih => exact ih (h.step turn).1

/-! ## The parts put together

With nothing in between, the parts make up what `Watcher.shutDown` does in one
step. So the teardown that is studied here is the one that the session makes
use of. -/

/-- Giving up all that is left of a note. -/
theorem run_giveUp (generations : List Nat) (hcleared : a.teardown = .cleared generations) :
    a.run (List.replicate generations.length .giveUp)
      = a.withReloads
          { a.reloads with
            live := a.reloads.live.filter fun t => !generations.contains t.generation }
          (.cleared []) := by
  induction generations generalizing a with
  | nil =>
    have hall : a.reloads.live.filter (fun t => !([] : List Nat).contains t.generation)
        = a.reloads.live := List.filter_eq_self.mpr fun _ _ => rfl
    rw [hall, withReloads, ← hcleared]
    rfl
  | cons generation generations ih =>
    -- one turn gives up the first generation, and the rest are given up from
    -- the state it leaves
    have hone : a.step .giveUp
        = a.withReloads (a.reloads.cancel generation) (.cleared generations) := by
      rw [step, hcleared]
    have hfilter : (a.reloads.cancel generation).live.filter
          (fun t => !generations.contains t.generation)
        = a.reloads.live.filter fun t => !(generation :: generations).contains t.generation := by
      rw [Reloads.cancel, List.filter_filter]
      refine List.filter_congr fun t _ => ?_
      rw [List.contains_cons, Bool.not_or, Bool.and_comm]
      rfl
    have hrest := ih (a := a.withReloads (a.reloads.cancel generation) (.cleared generations)) rfl
    rw [List.length_cons, List.replicate_succ, run, List.foldl_cons, ← run, hone, hrest, ← hfilter]
    rfl

/-- **A teardown between whose parts nothing happens** is the end of the
watcher at one go. -/
theorem run_teardown (h : a.Sound) (hahead : a.teardown = .ahead) :
    a.run ([.raise, .stop, .note, .clear] ++ List.replicate a.reloads.pending.length .giveUp)
      = { a with watcher := a.watcher.shutDown, teardown := .cleared [] } := by
  have hparts : a.run [.raise, .stop, .note, .clear]
      = a.withReloads { a.reloads with closed := true, pending := [] }
          (.cleared (a.reloads.pending.map Prod.snd)) := by
    simp only [run, List.foldl_cons, List.foldl_nil, step, hahead, withReloads, reloads]
  have hnone : a.reloads.live.filter
      (fun t => !(a.reloads.pending.map Prod.snd).contains t.generation) = [] := by
    have howned := h.owned (by simp [hahead])
    refine List.filter_eq_nil_iff.mpr fun t ht => ?_
    have hnoted : t.generation ∈ a.reloads.pending.map Prod.snd :=
      List.mem_map_of_mem (howned.mem_pending ht)
    simpa using hnoted
  have hgiven := run_giveUp (a := a.withReloads
    { a.reloads with closed := true, pending := [] } (.cleared (a.reloads.pending.map Prod.snd)))
    _ rfl
  rw [List.length_map] at hgiven
  rw [run_append, hparts, hgiven]
  have hreloads : { a.reloads with closed := true, pending := [], live := [] }
      = a.reloads.shutDown := rfl
  rw [Watcher.shutDown, ← reloads, ← hreloads, ← hnone]
  rfl

/-! ## The account of the reloads, at any time

What is promised is read off the invariant at the end of an arbitrary run. The
run begins with the watcher and is not told how far the teardown has come by
its end. -/

/-- The end of a loading takes no entry away but its own. -/
theorem mem_pending_loaded {e : Path × Nat} (he : e ∈ a.reloads.pending) {generation : Nat}
    (hother : e.2 ≠ generation) (outcome : Except LoadFault Messages) :
    e ∈ (a.step (.upkeep (.loaded generation outcome))).reloads.pending := by
  have hreloads : (a.step (.upkeep (.loaded generation outcome))).reloads
      = (a.watcher.after a.rest (.loaded generation outcome)).reloads := rfl
  rw [hreloads, Watcher.after]
  split
  · exact List.mem_filter.mpr ⟨he, by simpa using hother⟩
  · exact he

/-- **Reloads are accounted for, and the end of a watcher is final.** Whatever
happens from the beginning of a watcher on, and in whatever order:

* no file has two reloads under way, and each is due to the latest change of
  its file, those left out that are heard of when the teardown has begun;
* until a teardown empties the account, the account is that of the reloads
  under way, file by file, each with its generation; behind that the account is
  empty, and what is still under way is going to be given up;
* the end of a loading takes no entry of another generation away;
* behind a teardown that is through, nothing is under way, nothing is waited
  for, and whatever happens to the watcher from then on, neither the
  dictionaries nor the announcements change by it. -/
theorem account_of_run (source : WatchSource) (now interval : Nat) (locale : String) (files : List Path)
    (s : Session) (rest : Nat) (turns : List Turn) :
    let a := (begin source now interval locale files s rest).run turns
    (Path.Apart (a.reloads.live.map (·.path)) ∧
      ∀ t ∈ a.reloads.live, LastHeard a.heard t.path t.generation) ∧
    ((∀ generations, a.teardown ≠ .cleared generations) →
      a.reloads.pending = a.reloads.live.map fun t => (t.path, t.generation)) ∧
    (∀ generations, a.teardown = .cleared generations →
      a.reloads.pending = [] ∧ ∀ t ∈ a.reloads.live, t.generation ∈ generations) ∧
    (∀ e ∈ a.reloads.pending, ∀ generation, e.2 ≠ generation → ∀ outcome,
      e ∈ (a.step (.upkeep (.loaded generation outcome))).reloads.pending) ∧
    (a.teardown = .cleared [] → ∀ later,
      let b := a.run later
      b.reloads.live = [] ∧ b.reloads.pending = [] ∧
        ∀ turn, (∀ s, turn ≠ .elsewhere s) → (b.step turn).session = b.session) := by
  intro a
  have hsound : a.Sound := (sound_begin source now interval locale files s rest).run turns
  refine ⟨⟨hsound.single, hsound.follows.latest⟩, fun hkept => (hsound.owned hkept).entries.symm,
    fun generations hcleared => ?_, fun e he generation hother outcome =>
      mem_pending_loaded he hother outcome, fun hdown later => ?_⟩
  · have hleaves := hsound.leaves
    rw [hcleared] at hleaves
    exact ⟨hleaves.2.1, hleaves.2.2.2⟩
  · intro b
    have hended : b.Ended := (hsound.ended hdown).run later
    exact ⟨hended.1.2, hended.2, fun turn hown => (hended.step turn).2 hown⟩

end Tending

end LocaleKeys
