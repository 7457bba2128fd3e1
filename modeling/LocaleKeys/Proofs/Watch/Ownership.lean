/-
Which reload is waited for.

A watcher keeps two accounts of its reloads: the ones that are under way, and
for each file the one that is waited for. They never differ (`Reloads.Owned`):
file by file, at most one reload is under way, it is the one waited for, and
the later of two reloads has the greater generation. The steps of a watcher go
by generations, so that the last point is what lets a reload be ended, or given
up, without touching that of another file.

In the source the one account is a map from paths to abort handles, tagged with
a generation, and the other one are the tasks behind these handles. A task that
has come to its end takes its entry out of the map only if the generation is
its own.
-/
import LocaleKeys.Proofs.Files.Sameness
import LocaleKeys.Watch.Reloads
import Mathlib.Data.List.Nodup

set_option autoImplicit false

namespace LocaleKeys.Reloads

/-- The two accounts of the reloads agree. -/
structure Owned (r : Reloads) : Prop where
  /-- What is waited for is what is under way. -/
  entries : r.live.map (fun t => (t.path, t.generation)) = r.pending
  /-- No file has two reloads. -/
  apart : Path.Apart (r.pending.map Prod.fst)
  /-- The later of two reloads has the greater generation. -/
  ordered : r.pending.Pairwise fun e e' => e.2 < e'.2
  /-- The latest generation is known. -/
  bounded : ∀ e ∈ r.pending, e.2 ≤ r.generation

/-- A reload of the file is under way. -/
def Awaits (r : Reloads) (p : Path) : Prop := ∃ t ∈ r.live, t.path.same p = true

theorem owned_empty : ({} : Reloads).Owned :=
  ⟨rfl, List.Pairwise.nil, List.Pairwise.nil, by simp⟩

section

variable {r : Reloads}

/-- What is under way is waited for. -/
theorem Owned.mem_pending (h : r.Owned) {t : Reload} (ht : t ∈ r.live) :
    (t.path, t.generation) ∈ r.pending := by
  rw [← h.entries]
  exact List.mem_map_of_mem ht

/-- A generation is that of one entry only. -/
theorem Owned.eq_of_generation (h : r.Owned) {e e' : Path × Nat} (he : e ∈ r.pending)
    (he' : e' ∈ r.pending) (heq : e.2 = e'.2) : e = e' := by
  have hne : r.pending.Pairwise fun e e' => e.2 ≠ e'.2 := h.ordered.imp fun hlt => Nat.ne_of_lt hlt
  have : Std.Symm fun e e' : Path × Nat => e.2 ≠ e'.2 := ⟨fun _ _ hne => hne.symm⟩
  by_contra hdiffer
  exact hne.forall he he' hdiffer heq

/-- A generation is that of one reload only. -/
theorem Owned.reload_eq (h : r.Owned) {t t' : Reload} (ht : t ∈ r.live) (ht' : t' ∈ r.live)
    (heq : t.generation = t'.generation) : t = t' := by
  have hnodup : (r.live.map fun t => (t.path, t.generation)).Nodup := by
    rw [h.entries]
    refine h.ordered.imp ?_
    rintro e e' hlt rfl
    exact Nat.lt_irrefl _ hlt
  refine List.inj_on_of_nodup_map hnodup ht ht' ?_
  exact h.eq_of_generation (h.mem_pending ht) (h.mem_pending ht') heq

/-- Giving up the reload of a file is leaving out the entries of this file. -/
theorem Owned.map_live_elim (h : r.Owned) (p : Path) :
    ((r.pendingOf p).elim r r.cancel).live.map (fun t => (t.path, t.generation))
      = r.pending.filter (!·.1.same p) := by
  cases hpending : r.pendingOf p with
  | none =>
    rw [pendingOf, Option.map_eq_none_iff, List.find?_eq_none] at hpending
    rw [Option.elim_none, h.entries, List.filter_eq_self.mpr]
    intro e he
    rw [Bool.not_eq_true', Bool.eq_false_iff]
    exact hpending e he
  | some generation =>
    obtain ⟨e, hfound, rfl⟩ := Option.map_eq_some_iff.mp hpending
    have he : e ∈ r.pending := List.mem_of_find?_eq_some hfound
    have hsame : e.1.same p = true := List.find?_some (p := fun e : Path × Nat => e.1.same p) hfound
    have hlive : r.pending.filter (·.2 != e.2)
        = (r.live.filter (·.generation != e.2)).map fun t => (t.path, t.generation) := by
      rw [← h.entries, List.filter_map]
      rfl
    rw [Option.elim_some, cancel, ← hlive]
    -- the entry of the generation and the entry of the file are one and the
    -- same
    refine List.filter_congr fun e' he' => ?_
    rw [Bool.eq_iff_iff, bne_iff_ne, Bool.not_eq_true', Bool.eq_false_iff]
    refine not_congr ⟨fun hgeneration => ?_, fun hsame' => ?_⟩
    · rw [h.eq_of_generation he' he hgeneration]
      exact hsame
    · rw [h.apart.entry_eq he' he (Path.same_trans hsame' (by rwa [Path.same_comm]))]

/-- Reloads that are not closed take a change in as a new reload behind all
others. -/
theorem receive_of_open (hopen : r.closed = false) (now rest : Nat) (p : Path) :
    r.receive now rest p =
      { generation := r.generation + 1
        live := ((r.pendingOf p).elim r r.cancel).live
          ++ [⟨p, r.generation + 1, now + rest, false⟩]
        pending := r.pending.filter (!·.1.same p) ++ [(p, r.generation + 1)]
        closed := false } := by
  rw [receive, hopen]
  cases r.pendingOf p with
  | none => simp [hopen]
  | some generation => simp [cancel, hopen]

/-- A change leaves it open or closed. -/
@[simp] theorem closed_receive (now rest : Nat) (p : Path) :
    (r.receive now rest p).closed = r.closed := by
  rw [receive]
  split
  · rfl
  · cases r.pendingOf p <;> rfl

/-- **A change keeps the account.** Its own entry is the last one, and has the
greatest generation.
-/
theorem Owned.receive (h : r.Owned) (now rest : Nat) (p : Path) : (r.receive now rest p).Owned := by
  cases hopen : r.closed with
  | true =>
    rw [Reloads.receive, hopen]
    exact h
  | false =>
    have hkept : ∀ e ∈ r.pending.filter (!·.1.same p), e ∈ r.pending := fun e he =>
      List.mem_of_mem_filter he
    -- the entries of the file are left out, and the new one comes behind all
    -- that are left
    rw [receive_of_open hopen]
    refine ⟨?_, ?_, ?_, ?_⟩
    · rw [List.map_append, h.map_live_elim]
      rfl
    · rw [List.map_append, Path.Apart, List.pairwise_append]
      refine ⟨List.pairwise_map.mpr ((List.pairwise_map.mp h.apart).filter _), by simp, ?_⟩
      intro q hq p' hp'
      obtain ⟨e, he, rfl⟩ := List.mem_map.mp hq
      obtain rfl := List.mem_singleton.mp hp'
      simpa using (List.mem_filter.mp he).2
    · rw [List.pairwise_append]
      refine ⟨h.ordered.filter _, by simp, ?_⟩
      intro e he e' he'
      rw [List.mem_singleton.mp he']
      exact Nat.lt_succ_of_le (h.bounded e (hkept e he))
    · intro e he
      rcases List.mem_append.mp he with he | he
      · exact Nat.le_succ_of_le (h.bounded e (hkept e he))
      · obtain rfl := List.mem_singleton.mp he
        exact Nat.le_refl _

/-- A reload that was under way is given up if it is of the changed file, and
only then. -/
theorem Owned.mem_live_elim (h : r.Owned) (p : Path) (t : Reload) :
    t ∈ ((r.pendingOf p).elim r r.cancel).live ↔ t ∈ r.live ∧ ¬ t.path.same p = true := by
  have hlive := h.map_live_elim p
  constructor
  · intro ht
    have hentry : (t.path, t.generation) ∈ r.pending.filter (!·.1.same p) := by
      rw [← hlive]
      exact List.mem_map_of_mem ht
    refine ⟨?_, by simpa using (List.mem_filter.mp hentry).2⟩
    cases hpending : r.pendingOf p with
    | none => simpa [hpending] using ht
    | some generation =>
      rw [hpending] at ht
      exact List.mem_of_mem_filter ht
  · rintro ⟨ht, hother⟩
    have hentry : (t.path, t.generation) ∈ r.pending.filter (!·.1.same p) :=
      List.mem_filter.mpr ⟨h.mem_pending ht, by simpa using hother⟩
    rw [← hlive] at hentry
    obtain ⟨t', ht', heq⟩ := List.mem_map.mp hentry
    -- the reload with this entry is `t` itself, since generations tell reloads
    -- apart
    have hlive' : t' ∈ r.live := by
      cases hpending : r.pendingOf p with
      | none => simpa [hpending] using ht'
      | some generation =>
        rw [hpending] at ht'
        exact List.mem_of_mem_filter ht'
    rwa [← h.reload_eq hlive' ht (Prod.mk.inj heq).2]

/-- What is under way behind a change: the reload of the changed file is new,
and those of the other files are as they were. -/
theorem Owned.mem_live_receive (h : r.Owned) (hopen : r.closed = false) (now rest : Nat) (p : Path)
    (t : Reload) :
    t ∈ (r.receive now rest p).live ↔
      (t ∈ r.live ∧ ¬ t.path.same p = true) ∨ t = ⟨p, r.generation + 1, now + rest, false⟩ := by
  rw [receive_of_open hopen, List.mem_append, List.mem_singleton, h.mem_live_elim]

/-- Behind a change, its file is awaited, and every file that was so before. -/
theorem Owned.awaits_receive (h : r.Owned) (hopen : r.closed = false) (now rest : Nat)
    (p q : Path) : (r.receive now rest p).Awaits q ↔ p.same q = true ∨ r.Awaits q := by
  constructor
  · rintro ⟨t, ht, hsame⟩
    rcases (h.mem_live_receive hopen now rest p t).mp ht with ⟨hlive, -⟩ | rfl
    · exact .inr ⟨t, hlive, hsame⟩
    · exact .inl hsame
  · intro hq
    by_cases hpq : p.same q = true
    · exact ⟨_, (h.mem_live_receive hopen now rest p _).mpr (.inr rfl), hpq⟩
    · obtain ⟨t, ht, hsame⟩ := hq.resolve_left hpq
      refine ⟨t, (h.mem_live_receive hopen now rest p t).mpr (.inl ⟨ht, fun hp => hpq ?_⟩), hsame⟩
      rw [Path.same_comm] at hp
      exact Path.same_trans hp hsame

/-! ## The end of a rest, and of a reload

The end of a rest changes no entry, because it only marks the reload as being
loaded. The end of a reload takes the entry of its generation out of both
accounts. -/

/-- The end of a rest keeps the account. -/
theorem Owned.expire (h : r.Owned) (generation : Nat) : (r.expire generation).Owned := by
  refine ⟨?_, h.apart, h.ordered, h.bounded⟩
  rw [← show _ = (r.expire generation).pending from h.entries, Reloads.expire, List.map_map]
  refine List.map_congr_left fun t _ => ?_
  rw [Function.comp_apply]
  split <;> rfl

/-- What is under way behind the end of a loading: all others. -/
theorem mem_live_finish (generation : Nat) (t : Reload) :
    t ∈ (r.finish generation).live ↔ t ∈ r.live ∧ t.generation ≠ generation := by
  rw [finish, cancel, List.mem_filter, bne_iff_ne]

/-- What is under way behind the end of a reload: all the others, as they were. -/
theorem mem_live_ended (generation : Nat) (t : Reload) :
    t ∈ ((r.expire generation).finish generation).live ↔
      t ∈ r.live ∧ t.generation ≠ generation := by
  rw [mem_live_finish, expire, List.mem_map]
  constructor
  · rintro ⟨⟨t₀, ht₀, rfl⟩, hne⟩
    by_cases hgeneration : (t₀.generation == generation) = true
    · rw [if_pos hgeneration] at hne
      exact absurd (eq_of_beq hgeneration) hne
    · rw [if_neg hgeneration] at hne ⊢
      exact ⟨ht₀, hne⟩
  · rintro ⟨ht, hne⟩
    exact ⟨⟨t, ht, if_neg (by simpa using hne)⟩, hne⟩

theorem Owned.finish (h : r.Owned) (generation : Nat) : (r.finish generation).Owned := by
  have hpending : (r.finish generation).pending = r.pending.filter (·.2 != generation) := rfl
  refine ⟨?_, ?_, ?_, ?_⟩
  · rw [hpending, ← h.entries, List.filter_map]
    rfl
  · exact List.pairwise_map.mpr ((List.pairwise_map.mp h.apart).filter _)
  · exact h.ordered.filter _
  · exact fun e he => h.bounded e (List.mem_of_mem_filter he)

end

end LocaleKeys.Reloads
