/-
The order of paths.

Paths are compared step by step, and a path comes before those that go on from
it. This is the order of lists that comes with an order of their entries
(`Path.compareSteps_eq`), and steps are ordered by their kinds first and by
their names then (`Path.Step.compare_eq`). So it is an order, in which paths
are on a level exactly if they are the same (`Path.compare_eq_iff`): a list of
paths that increases from each to the next increases as a whole, and no path is
in it twice.
-/
import LocaleKeys.Proofs.Files.Sameness
import Mathlib.Order.Defs.LinearOrder

set_option autoImplicit false

namespace LocaleKeys.Path

/-! ## Steps

Steps are compared by rank and then by name. Written as a lexicographic
comparison of two keys, the library supplies that it is transitive and that
steps on a level are equal. -/

/-- The name of a step. Only steps down have one. -/
def Step.name : Step → String
  | .down name => name
  | _ => ""

/-- Steps are ordered by their kinds, and those of one kind by their names. -/
theorem Step.compare_eq :
    Step.compare = compareLex (compareOn Step.compare.rank) (compareOn Step.name) := by
  funext a b
  rw [compareLex, compareOn, compareOn]
  cases a <;> cases b <;> rfl

instance : Std.TransCmp Step.compare := by
  rw [Step.compare_eq]
  infer_instance

instance : Std.LawfulEqCmp Step.compare where
  eq_of_compare {a b} h := by
    rw [Step.compare_eq, compareLex, Ordering.then_eq_eq] at h
    have hrank := Std.LawfulEqOrd.eq_of_compare h.1
    have hname := Std.LawfulEqOrd.eq_of_compare h.2
    cases a <;> cases b <;> simp_all [Step.compare.rank, Step.name]

/-- Two names are compared as texts. -/
theorem Step.compare_down_iff {name other : String} :
    (Step.down name).compare (.down other) = .lt ↔ name < other := compareOfLessAndEq_eq_lt

/-! ## Lists of steps

Lists are compared entry by entry, a shorter one first. What is proved here is
how the comparison sees fronts: a common front is skipped, a front comes before
the whole, and where two lists part the step there decides. -/

/-- Lists of steps are ordered as lists are. -/
theorem compareSteps_eq : compareSteps = List.compareLex Step.compare := by
  funext steps more
  induction steps generalizing more with
  | nil => cases more <;> rfl
  | cons a steps ih =>
    cases more with
    | nil => rfl
    | cons b more =>
      rw [compareSteps, ih, List.compareLex_cons_cons]

instance : Std.TransCmp compareSteps := by
  rw [compareSteps_eq]
  infer_instance

instance : Std.LawfulEqCmp compareSteps := by
  rw [compareSteps_eq]
  infer_instance

/-- What is in front of both lists does not matter. -/
theorem compareSteps_append_left (front steps more : List Step) :
    compareSteps (front ++ steps) (front ++ more) = compareSteps steps more := by
  induction front with
  | nil => rfl
  | cons a front ih =>
    have hself : a.compare a = .eq := Std.ReflCmp.compare_self
    rw [List.cons_append, List.cons_append, compareSteps, ih, hself]
    rfl

theorem compareSteps_append_self (steps : List Step) {more : List Step} (h : more ≠ []) :
    compareSteps steps (steps ++ more) = .lt := by
  obtain ⟨a, more, rfl⟩ := List.exists_cons_of_ne_nil h
  have hsteps := compareSteps_append_left steps [] (a :: more)
  rwa [List.append_nil] at hsteps

/-- Where lists part, the steps there decide, whatever follows. -/
theorem compareSteps_of_lt {a b : Step} (h : a.compare b = .lt) (front steps more : List Step) :
    compareSteps (front ++ a :: steps) (front ++ b :: more) = .lt := by
  rw [compareSteps_append_left, compareSteps, h]
  rfl

/-- Lists that are in order part, unless one goes on from the other, and where
they part nothing that follows matters. -/
theorem compareSteps_append {steps more : List Step} (h : compareSteps steps more = .lt)
    (hparts : ¬ steps <+: more) (rest rest' : List Step) :
    compareSteps (steps ++ rest) (more ++ rest') = .lt := by
  induction steps generalizing more with
  | nil => exact absurd List.nil_prefix hparts
  | cons a steps ih =>
    cases more with
    | nil => exact absurd h (by simp [compareSteps])
    | cons b more =>
      rw [List.cons_append, List.cons_append, compareSteps]
      rw [compareSteps, Ordering.then_eq_lt] at h
      -- the lists part here, or they have this step in common
      rcases h with hlt | ⟨heq, hlt⟩
      · rw [hlt]
        rfl
      · obtain rfl := Std.LawfulEqCmp.eq_of_compare heq
        rw [heq, ih hlt fun hprefix => hparts (List.cons_prefix_cons.mpr ⟨rfl, hprefix⟩)]
        rfl

/-! ## Paths

All of it carries over to paths, which are compared by their steps. On a level
are exactly the paths that are the same, so that an increasing list has no
repetitions in the sense of the program. -/

variable {p q : Path}

instance : Std.TransCmp compare where
  eq_swap {p q} := by
    rw [compare, compare]
    exact Std.OrientedCmp.eq_swap
  isLE_trans {p q r} hpq hqr := by
    rw [compare] at hpq hqr ⊢
    exact Std.TransCmp.isLE_trans hpq hqr

/-- **Paths on a level are the same.** Both the order of paths and their
sameness look at steps alone. -/
theorem compare_eq_iff : p.compare q = .eq ↔ p.same q = true := by
  rw [same_iff, compare]
  exact Std.LawfulEqCmp.compare_eq_iff_eq

/-- The paths increase, each of them before all that follow. -/
def Increasing (paths : List Path) : Prop := paths.Pairwise fun p q => p.compare q = .lt

instance (paths : List Path) : Decidable (Increasing paths) :=
  inferInstanceAs (Decidable (paths.Pairwise fun p q => p.compare q = .lt))

/-- No two paths are the same in a list that increases. -/
theorem Increasing.apart {paths : List Path} (h : Increasing paths) : Apart paths :=
  h.imp fun hlt hsame => absurd (hlt.symm.trans (compare_eq_iff.mpr hsame)) (by decide)

/-- In order, no path comes behind a greater one. -/
theorem pairwise_sorted (paths : List Path) :
    (sorted paths).Pairwise fun p q => (p.compare q).isLE = true := by
  have hle : ∀ p q : Path, ((p.compare q != .gt) = true ↔ (p.compare q).isLE = true) := fun p q => by
    rw [bne_iff_ne, Ordering.isLE_iff_ne_gt]
  refine (List.pairwise_mergeSort ?_ ?_ paths).imp fun h => (hle _ _).mp h
  · intro p q r hpq hqr
    rw [hle] at hpq hqr ⊢
    exact Std.TransCmp.isLE_trans hpq hqr
  · intro p q
    rw [Bool.or_eq_true, hle, hle, or_iff_not_imp_left]
    exact fun hlt => Ordering.isLE_of_eq_lt (Std.OrientedCmp.lt_of_not_isLE hlt)

/-- A path goes on from another if it begins with its steps. -/
theorem leads_iff : p.leads q = true ↔ p.steps <+: q.steps := List.isPrefixOf_iff_prefix

/-- What goes on from a path comes before what goes on from a later one, unless
that one goes on from the first itself. -/
theorem compare_of_prefix {r r' : Path} (h : p.compare q = .lt) (hparts : ¬ p.leads q = true)
    (hr : p.steps <+: r.steps) (hr' : q.steps <+: r'.steps) : r.compare r' = .lt := by
  obtain ⟨rest, hrest⟩ := hr
  obtain ⟨rest', hrest'⟩ := hr'
  rw [compare, ← hrest, ← hrest']
  exact compareSteps_append h (mt leads_iff.mpr hparts) rest rest'

/-! ## Lists that rise

A search may come to a file a second time, and then it is not behind all that
have been found. `Rises` allows just this: what was there already may come
again. Grown at its end, as the program grows it, such a list is increasing
once repetitions are dropped. -/

/-- Each path comes behind all that are in front of it in the list, or is in
the list already. -/
inductive Rises : List Path → Prop where
  | nil : Rises []
  | again {paths : List Path} {p : Path} (h : Rises paths) (hp : p ∈ paths) : Rises (paths ++ [p])
  | next {paths : List Path} {p : Path} (h : Rises paths) (hp : ∀ q ∈ paths, q.compare p = .lt) :
    Rises (paths ++ [p])

theorem Rises.singleton (p : Path) : Rises [p] :=
  Rises.nil.next fun _ hq => absurd hq List.not_mem_nil

/-- Lists that rise may follow each other, if what comes later is greater or
has been there. -/
theorem Rises.append {paths more : List Path} (h : Rises paths) (hmore : Rises more)
    (hbehind : ∀ p ∈ more, p ∈ paths ∨ ∀ q ∈ paths, q.compare p = .lt) : Rises (paths ++ more) := by
  induction hmore with
  | nil => rwa [List.append_nil]
  | @again more p hmore hp ih =>
    rw [← List.append_assoc]
    exact (ih (List.forall_mem_append.mp hbehind).1).again (List.mem_append_right paths hp)
  | @next more p hmore hp ih =>
    obtain ⟨hfront, hlast⟩ := List.forall_mem_append.mp hbehind
    rw [← List.append_assoc]
    rcases hlast p List.mem_cons_self with hmem | hlt
    · exact (ih hfront).again (List.mem_append_left more hmem)
    · exact (ih hfront).next (List.forall_mem_append.mpr ⟨hlt, hp⟩)

/-- Lists that rise make up one that does, if each of them comes behind all
that are in front of it, or is a part of one of them. -/
theorem Rises.flatMap {α : Type} {items : List α} {f : α → List Path} (h : ∀ a ∈ items, Rises (f a))
    (hbehind : items.Pairwise fun a b => f b ⊆ f a ∨ ∀ q ∈ f a, ∀ p ∈ f b, q.compare p = .lt) :
    Rises (items.flatMap f) := by
  induction items using List.reverseRecOn with
  | nil => exact .nil
  | append_singleton items b ih =>
    obtain ⟨hitems, -, hlast⟩ := List.pairwise_append.mp hbehind
    obtain ⟨hfront, hb⟩ := List.forall_mem_append.mp h
    rw [List.flatMap_append, List.flatMap_singleton]
    refine (ih hfront hitems).append (hb b List.mem_cons_self) fun p hp => ?_
    -- the last list adds nothing new, or comes behind everything
    by_cases hpart : ∃ a ∈ items, f b ⊆ f a
    · obtain ⟨a, ha, hsub⟩ := hpart
      exact .inl (List.mem_flatMap.mpr ⟨a, ha, hsub hp⟩)
    · refine .inr fun q hq => ?_
      obtain ⟨a, ha, hq⟩ := List.mem_flatMap.mp hq
      have hlt := (hlast a ha b List.mem_cons_self).resolve_left fun hsub => hpart ⟨a, ha, hsub⟩
      exact hlt q hq p hp

/-- Leaving paths out keeps a list rising. -/
theorem Rises.filter {paths : List Path} (h : Rises paths) (kept : Path → Bool) :
    Rises (paths.filter kept) := by
  induction h with
  | nil => exact .nil
  | @again paths p h hp ih =>
    rw [List.filter_append]
    by_cases hkept : kept p = true
    · rw [List.filter_cons_of_pos hkept, List.filter_nil]
      exact ih.again (List.mem_filter.mpr ⟨hp, hkept⟩)
    · rwa [List.filter_cons_of_neg hkept, List.filter_nil, List.append_nil]
  | @next paths p h hp ih =>
    rw [List.filter_append]
    by_cases hkept : kept p = true
    · rw [List.filter_cons_of_pos hkept, List.filter_nil]
      exact ih.next fun q hq => hp q (List.mem_filter.mp hq).1
    · rwa [List.filter_cons_of_neg hkept, List.filter_nil, List.append_nil]

/-- **A list that rises increases** without what is in it already. What comes
next is greater than all before, unless it is one of them, and then it is left
out. -/
theorem Rises.increasing_distinct {paths : List Path} (h : Rises paths) : Increasing (distinct paths) := by
  induction h with
  | nil => exact List.Pairwise.nil
  | @again paths p h hp ih =>
    rwa [distinct_concat, if_pos (List.any_eq_true.mpr ⟨p, hp, same_refl p⟩)]
  | @next paths p h hp ih =>
    rw [distinct_concat]
    split
    · exact ih
    · refine List.pairwise_append.mpr ⟨ih, List.pairwise_singleton _ p, fun q hq p' hp' => ?_⟩
      rw [List.mem_singleton.mp hp']
      exact hp q (mem_of_mem_distinct hq)

end LocaleKeys.Path
