/-
What each file of a locale has given.

Contributions are looked up by path, and every change of them is a change of
what one path has given, or a new beginning with a list of files. For that no
two of the files may be the same, which no operation gives up: a load takes its
files as they are listed, and the change of a file takes the old contribution
away before it puts the new one at the end.

Paths are the same if their components are, so that a file may be asked for in
another spelling than the one under which it is held. All lemmas about looking
up are therefore stated up to `Path.same`.
-/
import LocaleKeys.Dictionary.Store
import LocaleKeys.Proofs.Files.Sameness

set_option autoImplicit false

namespace LocaleKeys

namespace Contributions

/-- No two of the files are the same. -/
def Apart (c : Contributions) : Prop := Path.Apart c.paths

/-- What is held is what is found under its path. -/
theorem Apart.find?_eq {c : Contributions} (h : c.Apart) {f : Path × Messages} (hf : f ∈ c.files)
    {p : Path} (hp : f.1.same p = true) : c.find? p = some f.2 := by
  rw [find?, Path.Apart.find?_eq h hf hp, Option.map_some]

/-- Paths that are the same lead to the same. -/
theorem find?_congr (c : Contributions) {p q : Path} (h : p.same q = true) : c.find? p = c.find? q := by
  have hsame : (fun f : Path × Messages => f.1.same p) = fun f => f.1.same q := by
    funext f
    rw [Path.same_comm, Path.same_congr h, Path.same_comm]
  rw [find?, find?, hsame]

/-! ## The change of a file

A change takes the file away and puts it at the end with what it gives now.
That no two paths of the contributions are the same is kept by this, and then
what a file has given can be looked up without regard to its place. -/

/-- Without a file, all others are left. -/
theorem paths_without {c : Contributions} (h : c.Apart) (p : Path) :
    (c.without p).paths = c.paths.filter (!·.same p) := by
  obtain ⟨files⟩ := c
  rw [paths, paths, without]
  induction files with
  | nil => rfl
  | cons f files ih =>
    obtain ⟨hf, hfiles⟩ := List.pairwise_cons.mp h
    rw [List.eraseP_cons, List.map_cons, List.filter_cons]
    cases hp : f.1.same p with
    | true =>
      -- none of the others is the same as the file that is taken away
      rw [cond_true, if_neg (by simp), List.filter_eq_self.mpr]
      intro q hq
      have hother : ¬ q.same p = true := fun hsame =>
        hf q hq (Path.same_trans hp (by rwa [Path.same_comm]))
      simpa using hother
    | false =>
      rw [cond_false, if_pos (by simp), List.map_cons]
      exact congrArg _ (ih hfiles)

section

variable (c : Contributions) (p : Path) (new m : Messages)

theorem paths_without_sublist : List.Sublist (c.without p).paths c.paths :=
  List.eraseP_sublist.map _

/-- Without a file, its path leads to nothing any more. -/
theorem find?_without_self (h : c.Apart) : (c.without p).find? p = none := by
  obtain ⟨files⟩ := c
  rw [find?, without, Option.map_eq_none_iff]
  induction files with
  | nil => rfl
  | cons f files ih =>
    obtain ⟨hf, hfiles⟩ := List.pairwise_cons.mp h
    rw [List.eraseP_cons]
    cases hp : f.1.same p with
    | true =>
      -- the others are not the same as the one that is taken away
      rw [cond_true, List.find?_eq_none]
      intro f' hf' hp'
      refine hf f'.1 (List.mem_map_of_mem hf') (Path.same_trans hp ?_)
      rwa [Path.same_comm]
    | false =>
      rw [cond_false, List.find?_cons, hp]
      exact ih hfiles

/-- Without a file, the others are what they were. -/
theorem find?_without_of_ne {q : Path} (h : ¬ p.same q = true) : (c.without p).find? q = c.find? q := by
  obtain ⟨files⟩ := c
  rw [find?, find?, without]
  congr 1
  induction files with
  | nil => rfl
  | cons f files ih =>
    rw [List.eraseP_cons]
    cases hp : f.1.same p with
    | true =>
      have hq : f.1.same q = false := by
        rw [Path.same_congr hp]
        simpa using h
      rw [cond_true, List.find?_cons, hq]
    | false =>
      rw [cond_false, List.find?_cons, List.find?_cons, ih]

/-- Behind a change, the path leads to what is left under it, or to what was
put at the end. -/
theorem find?_change (q : Path) :
    (c.change p new m).1.find? q
      = ((c.without p).find? q).or (if p.same q then some new else none) := by
  rw [show (c.change p new m).1 = ⟨(c.without p).files ++ [(p, new)]⟩ from rfl, find?, find?,
    List.find?_append]
  cases (c.without p).files.find? (·.1.same q) with
  | some f => rfl
  | none =>
    rw [Option.none_or, Option.map_none, Option.none_or, List.find?_singleton]
    split <;> rfl

/-- Behind its change a file has given what it gives now. -/
theorem find?_change_self (h : c.Apart) {q : Path} (hq : p.same q = true) :
    (c.change p new m).1.find? q = some new := by
  -- nothing is left under the path of what the file gave before
  have hnone : (c.without p).find? q = none := by
    rw [← find?_congr _ hq]
    exact c.find?_without_self p h
  rw [find?_change, hnone, if_pos hq, Option.none_or]

theorem find?_change_of_ne {q : Path} (h : ¬ p.same q = true) :
    (c.change p new m).1.find? q = c.find? q := by
  rw [find?_change, find?_without_of_ne c p h, if_neg h, Option.or_none]

/-- A change makes no two files the same. -/
theorem apart_change (h : c.Apart) : (c.change p new m).1.Apart := by
  have hnone : (c.without p).find? p = none := c.find?_without_self p h
  rw [find?, Option.map_eq_none_iff, List.find?_eq_none] at hnone
  rw [Apart, show (c.change p new m).1.paths = (c.without p).paths ++ [p] by
    simp [change, paths], Path.Apart, List.pairwise_append]
  refine ⟨h.sublist (c.paths_without_sublist p), by simp, ?_⟩
  -- what is left is not the same as the file that is put at the end
  intro q hq p' hp'
  obtain ⟨f, hf, rfl⟩ := List.mem_map.mp hq
  rw [List.mem_singleton.mp hp']
  exact hnone f hf

end

end Contributions

namespace Store

/-- Publishing replaces the contributions of its locale. -/
theorem contributionsOf_publish (s : Store) (locale other : String) (c : Contributions)
    (m : Messages) :
    (s.publish locale c m).contributionsOf other
      = if locale = other then c else s.contributionsOf other := by
  rw [contributionsOf, publish, Std.TreeMap.getElem?_insert, contributionsOf]
  simp only [Std.LawfulEqCmp.compare_eq_iff_eq]
  split <;> rfl

/-! ## Loading

A load replaces all contributions of its locale by those of its list. What each
listed file contributes depends on its own outcome and on what it gave before
(`contributed`), so that looking a file up behind a load is looking it up in
the list. -/

/-- What is evaluated is apart, if what is listed is. -/
theorem apart_evaluate {paths : List Path} (h : Path.Apart paths) (loader : Loader) (d : Disk) :
    Path.Apart ((evaluate loader d paths).map Prod.fst) := by
  rw [evaluate, List.map_map]
  rwa [show (Prod.fst ∘ fun p => (p, loader.messages d p)) = (id : Path → Path) from rfl, List.map_id]

section

variable (s : Store) (locale : String) (evaluated : List Evaluated)

/-- What is held behind a load are the contributions of the listed files. -/
theorem contributionsOf_commit :
    (s.commit locale evaluated).1.contributionsOf locale
      = ⟨evaluated.filterMap (contributed (s.contributionsOf locale))⟩ := by
  rw [commit, contributionsOf_publish, if_pos rfl]

theorem contributionsOf_commit_of_ne {other : String} (h : locale ≠ other) :
    (s.commit locale evaluated).1.contributionsOf other = s.contributionsOf other := by
  rw [commit, contributionsOf_publish, if_neg h]

/-- What is contributed for a file is contributed under its path. -/
theorem fst_of_contributed {previous : Contributions} {e : Evaluated} {f : Path × Messages}
    (h : contributed previous e = some f) : f.1 = e.1 := by
  obtain ⟨p, fault | m⟩ := e
  · obtain ⟨m, -, rfl⟩ := Option.map_eq_some_iff.mp h
    rfl
  · exact congrArg Prod.fst (Option.some.inj h).symm

variable {evaluated}

/-- What is contributed under a path comes from a file that was evaluated under
this path. -/
theorem exists_of_find?_commit {p : Path} {m : Messages}
    (h : ((s.commit locale evaluated).1.contributionsOf locale).find? p = some m) :
    ∃ e ∈ evaluated, e.1.same p = true ∧ contributed (s.contributionsOf locale) e = some (e.1, m) := by
  rw [contributionsOf_commit] at h
  obtain ⟨f, hf, rfl⟩ := Option.map_eq_some_iff.mp h
  obtain ⟨e, he, hcontributed⟩ := List.mem_filterMap.mp (List.mem_of_find?_eq_some hf)
  have hpath : f.1 = e.1 := fst_of_contributed hcontributed
  have hsame := List.find?_some (p := fun f : Path × Messages => f.1.same p) hf
  rw [hpath] at hsame
  exact ⟨e, he, hsame, by rw [hcontributed, ← hpath]⟩

/-- A file that is not listed contributes nothing. -/
theorem find?_commit_of_unlisted {p : Path} (h : ∀ e ∈ evaluated, ¬ e.1.same p = true) :
    ((s.commit locale evaluated).1.contributionsOf locale).find? p = none := by
  rw [Option.eq_none_iff_forall_ne_some]
  intro m hfind
  obtain ⟨e, he, hsame, -⟩ := s.exists_of_find?_commit locale hfind
  exact h e he hsame

variable (hevaluated : Path.Apart (evaluated.map Prod.fst))
include hevaluated

/-- What is loaded is apart, if what was evaluated is. -/
theorem apart_commit : ((s.commit locale evaluated).1.contributionsOf locale).Apart := by
  rw [contributionsOf_commit, Contributions.Apart, Contributions.paths, Path.Apart,
    List.pairwise_map, List.pairwise_filterMap]
  refine (List.pairwise_map.mp hevaluated).imp ?_
  intro e e' hne f hf f' hf'
  rwa [fst_of_contributed hf, fst_of_contributed hf']

/-- **A file that is listed** contributes what comes out for it, or what it
gave before. The entry is found under any way of writing the path, since no two
of the listed ones are the same. -/
theorem find?_commit_of_listed {e : Evaluated} (he : e ∈ evaluated) {p : Path}
    (hsame : e.1.same p = true) :
    ((s.commit locale evaluated).1.contributionsOf locale).find? p
      = (contributed (s.contributionsOf locale) e).map (·.2) := by
  cases hcontributed : contributed (s.contributionsOf locale) e with
  | some f =>
    have hapart := s.apart_commit locale hevaluated
    rw [contributionsOf_commit] at hapart ⊢
    have hmem : f ∈ evaluated.filterMap (contributed (s.contributionsOf locale)) :=
      List.mem_filterMap.mpr ⟨e, he, hcontributed⟩
    have hpath : f.1.same p = true := by rwa [fst_of_contributed hcontributed]
    exact Contributions.Apart.find?_eq hapart hmem hpath
  | none =>
    rw [Option.map_none, Option.eq_none_iff_forall_ne_some]
    intro m hfind
    -- another file under the same path would be this one
    obtain ⟨e', he', hsame', hcontributed'⟩ := s.exists_of_find?_commit locale hfind
    have heq : e' = e := hevaluated.entry_eq he' he
      (Path.same_trans hsame' (by rwa [Path.same_comm]))
    rw [heq, hcontributed] at hcontributed'
    exact absurd hcontributed' (by simp)

/-- A file that could be loaded has given what came out for it. -/
theorem find?_commit {p : Path} {m : Messages} (he : (p, .ok m) ∈ evaluated) :
    ((s.commit locale evaluated).1.contributionsOf locale).find? p = some m :=
  s.find?_commit_of_listed locale hevaluated he (Path.same_refl p)

end

/-! ## The change of a file

The same for a store. A change publishes the contributions of one locale anew,
and those of the other locales are not looked at. -/

section

variable (s : Store) (locale : String) (p : Path) (new : Messages)

/-- Behind the change of a file the contributions are changed at this file,
whatever messages were patched. -/
theorem contributionsOf_applyChange :
    ∃ m, (s.applyChange locale p new).contributionsOf locale
      = ((s.contributionsOf locale).change p new m).1 := by
  refine ⟨(s.dictionary? locale).elim ∅ (·.messages), ?_⟩
  rw [applyChange, contributionsOf_publish, if_pos rfl]

theorem contributionsOf_applyChange_of_ne {other : String} (h : locale ≠ other) :
    (s.applyChange locale p new).contributionsOf other = s.contributionsOf other := by
  rw [applyChange, contributionsOf_publish, if_neg h]

end

end Store

end LocaleKeys
