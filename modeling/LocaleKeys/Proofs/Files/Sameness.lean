/-
When two paths are the same, and lists in which no two are.

Paths are compared by the steps they take, and not by how they are written, so
that `same` and not equality is what a look-up by path goes by. It is an
equivalence. A list of paths of which no two are the same (`Path.Apart`) is to
such look-ups what a list without repetitions is to ordinary ones: what stands
under a path in it stands there alone.
-/
import LocaleKeys.Files.Path
import Mathlib.Data.List.Induction
import Mathlib.Data.List.Pairwise

set_option autoImplicit false

namespace LocaleKeys.Path

/-- Paths are the same if they take the same steps. -/
theorem same_iff {p q : Path} : p.same q = true ↔ p.steps = q.steps := beq_iff_eq

@[simp] theorem same_refl (p : Path) : p.same p = true := same_iff.mpr rfl

theorem same_comm (p q : Path) : p.same q = q.same p := BEq.comm

theorem same_trans {p q r : Path} (h : p.same q = true) (h' : q.same r = true) : p.same r = true :=
  same_iff.mpr ((same_iff.mp h).trans (same_iff.mp h'))

theorem same_congr {p q : Path} (h : p.same q = true) (r : Path) : p.same r = q.same r := by
  rw [same, same, same_iff.mp h]

/-! ## Paths of which no two are the same

`Apart` is `Nodup` for this equivalence. What can be looked up in such a list
is there once, so that membership and look-up by path come to the same. -/

/-- No two of the paths are the same. -/
def Apart (paths : List Path) : Prop := paths.Pairwise fun p q => ¬ p.same q

instance (paths : List Path) : Decidable (Apart paths) :=
  inferInstanceAs (Decidable (paths.Pairwise fun p q => ¬ p.same q))

instance : Std.Symm fun p q : Path => ¬ p.same q := ⟨fun p q h => by rwa [same_comm]⟩

/-- Of paths of which no two are the same, those that are the same are equal. -/
theorem Apart.eq_of_same {paths : List Path} (h : Apart paths) {p q : Path} (hp : p ∈ paths)
    (hq : q ∈ paths) (hsame : p.same q = true) : p = q := by
  by_contra hne
  exact h.forall hp hq hne hsame

section Entries

variable {α : Type} {entries : List (Path × α)}

/-- Of entries under such paths, those whose paths are the same are equal. -/
theorem Apart.entry_eq (h : Apart (entries.map Prod.fst)) {e e' : Path × α} (he : e ∈ entries)
    (he' : e' ∈ entries) (hsame : e.1.same e'.1 = true) : e = e' := by
  have hpairwise : entries.Pairwise fun e e' => ¬ e.1.same e'.1 := List.pairwise_map.mp h
  have : Std.Symm fun e e' : Path × α => ¬ e.1.same e'.1 := ⟨fun e e' h => by rwa [same_comm]⟩
  by_contra hne
  exact hpairwise.forall he he' hne hsame

/-- An entry is what is found under its path. -/
theorem Apart.find?_eq (h : Apart (entries.map Prod.fst)) {e : Path × α} (he : e ∈ entries)
    {p : Path} (hsame : e.1.same p = true) : entries.find? (·.1.same p) = some e := by
  cases hfound : entries.find? (·.1.same p) with
  | none => exact absurd hsame (List.find?_eq_none.mp hfound e he)
  | some e' =>
    have hsame' : e'.1.same p = true := List.find?_some (p := fun e : Path × α => e.1.same p) hfound
    rw [h.entry_eq (List.mem_of_find?_eq_some hfound) he
      (same_trans hsame' (by rwa [same_comm]))]

end Entries

/-! ## Leaving out what is the same as an earlier path

`distinct` keeps the first of each class, in the order of the list. The program
collects what is new in reverse order, so the statements are proved for the
fold with an arbitrary start and only then for `distinct`. -/

/-- What has been found so far, in the order in which the search collects it. -/
theorem apart_foldl_distinct (paths found : List Path) (h : Apart found) :
    Apart (paths.foldl (fun found p => if found.any p.same then found else p :: found) found) := by
  induction paths generalizing found with
  | nil => exact h
  | cons p paths ih =>
    rw [List.foldl_cons]
    apply ih
    by_cases hnew : found.any p.same = true
    · rw [if_pos hnew]
      exact h
    · rw [if_neg hnew]
      refine List.pairwise_cons.mpr ⟨fun q hq hsame => hnew ?_, h⟩
      exact List.any_eq_true.mpr ⟨q, hq, hsame⟩

/-- **No two paths are left that are the same.** A path is kept only if none of
those in front of it is the same. -/
theorem apart_distinct (paths : List Path) : Apart (distinct paths) := by
  rw [distinct, Apart, List.pairwise_reverse]
  refine (apart_foldl_distinct paths [] List.Pairwise.nil).imp ?_
  intro p q h
  rwa [same_comm]

/-- What is found was there, or had been found before. -/
theorem mem_of_mem_foldl_distinct {paths found : List Path} {p : Path}
    (h : p ∈ paths.foldl (fun found p => if found.any p.same then found else p :: found) found) :
    p ∈ paths ∨ p ∈ found := by
  induction paths generalizing found with
  | nil => exact .inr h
  | cons q paths ih =>
    rcases ih h with hp | hp
    · exact .inl (List.mem_cons_of_mem q hp)
    · dsimp only at hp
      split at hp
      · exact .inr hp
      · rcases List.mem_cons.mp hp with rfl | hp
        · exact .inl List.mem_cons_self
        · exact .inr hp

/-- What is kept was there. -/
theorem mem_of_mem_distinct {paths : List Path} {p : Path} (h : p ∈ distinct paths) : p ∈ paths :=
  (mem_of_mem_foldl_distinct (List.mem_reverse.mp h)).resolve_right (by simp)

/-- Nothing is left out but what is the same as something that is found. -/
theorem exists_same_mem_distinct {paths : List Path} {p : Path} (h : p ∈ paths) :
    ∃ q ∈ distinct paths, q.same p = true := by
  suffices hfound : ∀ found : List Path, (p ∈ paths ∨ ∃ q ∈ found, q.same p = true) →
      ∃ q ∈ paths.foldl (fun found p => if found.any p.same then found else p :: found) found,
        q.same p = true by
    obtain ⟨q, hq, hsame⟩ := hfound [] (.inl h)
    exact ⟨q, List.mem_reverse.mpr hq, hsame⟩
  clear h
  induction paths with
  | nil =>
    rintro found (hp | hfound)
    · exact absurd hp List.not_mem_nil
    · exact hfound
  | cons r paths ih =>
    intro found hp
    rw [List.foldl_cons]
    apply ih
    -- either the path at the front is the same as one found before, or it is
    -- found now
    by_cases hnew : found.any r.same = true
    · rw [if_pos hnew]
      rcases hp with hp | hfound
      · rcases List.mem_cons.mp hp with rfl | hp
        · obtain ⟨q, hq, hsame⟩ := List.any_eq_true.mp hnew
          exact .inr ⟨q, hq, by rwa [same_comm]⟩
        · exact .inl hp
      · exact .inr hfound
    · rw [if_neg hnew]
      rcases hp with hp | ⟨q, hq, hsame⟩
      · rcases List.mem_cons.mp hp with rfl | hp
        · exact .inr ⟨p, List.mem_cons_self, same_refl p⟩
        · exact .inl hp
      · exact .inr ⟨q, List.mem_cons_of_mem r hq, hsame⟩

/-- At most one path is added for each that is looked at. -/
theorem length_foldl_distinct_le (paths found : List Path) :
    (paths.foldl (fun found p => if found.any p.same then found else p :: found) found).length
      ≤ paths.length + found.length := by
  induction paths generalizing found with
  | nil => simp
  | cons p paths ih =>
    rw [List.foldl_cons, List.length_cons]
    have hfound : (if found.any p.same then found else p :: found).length ≤ found.length + 1 := by
      split
      · exact Nat.le_succ _
      · exact Nat.le_refl _
    have hpaths := ih (if found.any p.same then found else p :: found)
    omega

theorem length_distinct_le (paths : List Path) : (distinct paths).length ≤ paths.length := by
  rw [distinct, List.length_reverse]
  exact length_foldl_distinct_le paths []

/-- Paths of which no two are the same are all kept. The induction carries
along what was found before, from which they are apart as well. -/
theorem foldl_distinct_of_apart (paths found : List Path) (h : Apart paths)
    (hfound : ∀ p ∈ paths, ∀ q ∈ found, ¬ p.same q) :
    paths.foldl (fun found p => if found.any p.same then found else p :: found) found
      = paths.reverse ++ found := by
  induction paths generalizing found with
  | nil => rfl
  | cons p paths ih =>
    obtain ⟨hp, hpaths⟩ := List.pairwise_cons.mp h
    have hnew : ¬ found.any p.same = true := by
      intro hany
      obtain ⟨q, hq, hsame⟩ := List.any_eq_true.mp hany
      exact hfound p List.mem_cons_self q hq hsame
    rw [List.foldl_cons, if_neg hnew, ih _ hpaths, List.reverse_cons, List.append_assoc]
    · rfl
    · intro q hq r hr
      rcases List.mem_cons.mp hr with rfl | hr
      · rw [same_comm]
        exact hp q hq
      · exact hfound q (List.mem_cons_of_mem _ hq) r hr

/-- If no two are the same, all are kept. -/
theorem distinct_of_apart {paths : List Path} (h : Apart paths) : distinct paths = paths := by
  rw [distinct, foldl_distinct_of_apart paths [] h (by simp), List.append_nil, List.reverse_reverse]

/-! ## Lists behind each other

How the list that is kept grows with the list it is made from. This is what a
scan of several places relies on. -/

/-- Whether a path is among them does not change. -/
theorem any_distinct (paths : List Path) (p : Path) :
    (distinct paths).any p.same = paths.any p.same := by
  rw [Bool.eq_iff_iff, List.any_eq_true, List.any_eq_true]
  constructor
  · rintro ⟨q, hq, hsame⟩
    exact ⟨q, mem_of_mem_distinct hq, hsame⟩
  · rintro ⟨q, hq, hsame⟩
    obtain ⟨r, hr, hsame'⟩ := exists_same_mem_distinct hq
    rw [same_comm] at hsame'
    exact ⟨r, hr, same_trans hsame hsame'⟩

/-- One more path is kept if it is new. -/
theorem distinct_concat (paths : List Path) (p : Path) :
    distinct (paths ++ [p]) = if paths.any p.same then distinct paths else distinct paths ++ [p] := by
  rw [← any_distinct, distinct, distinct, List.foldl_append, List.foldl_cons, List.foldl_nil,
    List.any_reverse]
  split
  · rfl
  · rw [List.reverse_cons]

/-- **What more paths add** is what is the same as none of the earlier ones.
The order of those that were there already does not change, so what is kept
only grows at its end. -/
theorem distinct_append (paths more : List Path) :
    distinct (paths ++ more) = distinct paths ++ (distinct more).filter fun p => !paths.any p.same := by
  induction more using List.reverseRecOn with
  | nil => rw [List.append_nil]; exact (List.append_nil _).symm
  | append_singleton more p ih =>
    rw [← List.append_assoc, distinct_concat, distinct_concat, List.any_append, ih]
    by_cases hmore : more.any p.same = true
    · rw [hmore, Bool.or_true, if_pos rfl, if_pos rfl]
    · rw [Bool.eq_false_iff.mpr hmore, Bool.or_false, if_neg Bool.false_ne_true, List.filter_append]
      by_cases hpaths : paths.any p.same = true
      · rw [if_pos hpaths, List.filter_cons_of_neg (by simpa using hpaths), List.filter_nil, List.append_nil]
      · rw [if_neg hpaths, List.filter_cons_of_pos (by simpa using hpaths), List.filter_nil,
          List.append_assoc]

end LocaleKeys.Path
