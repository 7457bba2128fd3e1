/-
What scans find.

A scan puts together what it finds at each place, sorts it and leaves out what
is there twice. None of this adds or loses a file: whatever was found at a
place is in the scan, up to how its path is written
(`Scan.exists_mem_arranged`). So which sources a command looks at is told place
by place, and path by path where paths are named (`Scan.mem_ofPaths`).

What a scan cannot look at it counts and leaves out. The count alone tells
whether the sources are all that there are, and so it is proved to be nothing
exactly where nothing was left out.
-/
import LocaleKeys.Command.Scan
import LocaleKeys.Proofs.Files.Sameness
import Mathlib.Algebra.GroupWithZero.Nat

set_option autoImplicit false

namespace LocaleKeys

namespace Scan

/-! ## Leaving out repetitions

The scan is sorted, and a path that is the same as the one kept before it is
left out. A path that goes is the same as one that stays, though perhaps
written in another way. -/

/-- What stays was there before. -/
theorem sublist_withoutRepeatsAfter (last : Path) (paths : List Path) :
    (withoutRepeatsAfter last paths).Sublist paths := by
  induction paths generalizing last with
  | nil => exact List.Sublist.refl []
  | cons p paths ih =>
    rw [withoutRepeatsAfter]
    split
    · exact (ih last).cons p
    · exact (ih p).cons_cons p

/-- So it is from the beginning on. -/
theorem sublist_withoutRepeats (paths : List Path) : (withoutRepeats paths).Sublist paths := by
  cases paths with
  | nil => exact List.Sublist.refl []
  | cons p paths => exact (sublist_withoutRepeatsAfter p paths).cons_cons p

/-- What is left out is the same as something that stays. -/
theorem exists_mem_withoutRepeatsAfter {paths : List Path} {p : Path} (h : p ∈ paths) (last : Path) :
    last.same p = true ∨ ∃ q ∈ withoutRepeatsAfter last paths, q.same p = true := by
  induction paths generalizing last with
  | nil => exact absurd h (by simp)
  | cons r paths ih =>
    rw [withoutRepeatsAfter]
    by_cases hsame : last.same r = true
    · rw [if_pos hsame]
      rcases List.mem_cons.mp h with rfl | h
      · exact .inl hsame
      · exact ih h last
    · rw [if_neg hsame]
      right
      rcases List.mem_cons.mp h with rfl | h
      · exact ⟨p, List.mem_cons_self, Path.same_refl p⟩
      · rcases ih h r with hr | ⟨q, hq, hqp⟩
        · exact ⟨r, List.mem_cons_self, hr⟩
        · exact ⟨q, List.mem_cons_of_mem r hq, hqp⟩

/-- Each path is the same as one that stays. -/
theorem exists_mem_withoutRepeats {paths : List Path} {p : Path} (h : p ∈ paths) :
    ∃ q ∈ withoutRepeats paths, q.same p = true := by
  cases paths with
  | nil => exact absurd h (by simp)
  | cons r paths =>
    rw [withoutRepeats]
    rcases List.mem_cons.mp h with rfl | h
    · exact ⟨p, List.mem_cons_self, Path.same_refl p⟩
    · rcases exists_mem_withoutRepeatsAfter h r with hr | ⟨q, hq, hqp⟩
      · exact ⟨r, List.mem_cons_self, hr⟩
      · exact ⟨q, List.mem_cons_of_mem r hq, hqp⟩

section

variable {s : Scan} {p : Path}

/-- No file is added when a scan is put in order. -/
theorem mem_of_mem_arranged (h : p ∈ s.arranged.files) : p ∈ s.files :=
  List.mem_mergeSort.mp ((sublist_withoutRepeats _).subset h)

/-- **No file is lost** when a scan is put in order. A file that is dropped was
the same as one that is kept. -/
theorem exists_mem_arranged (h : p ∈ s.files) : ∃ q ∈ s.arranged.files, q.same p = true :=
  exists_mem_withoutRepeats (List.mem_mergeSort.mpr h)

end

/-! ## Scans together

A command scans place by place and puts the scans together. Files are appended
and counts are added, so that what is proved of one place carries over to all
of them. -/

/-- The files of several scans are those of each, one after the other. -/
theorem files_foldl_append (scans : List Scan) (s : Scan) :
    (scans.foldl append s).files = s.files ++ scans.flatMap (·.files) := by
  induction scans generalizing s with
  | nil => exact (List.append_nil s.files).symm
  | cons t scans ih => rw [List.foldl_cons, ih, List.flatMap_cons, append, List.append_assoc]

/-- What is skipped is counted over all of them. -/
theorem skipped_foldl_append (scans : List Scan) (s : Scan) :
    (scans.foldl append s).skipped = s.skipped + (scans.map (·.skipped)).sum := by
  induction scans generalizing s with
  | nil => rfl
  | cons t scans ih =>
    rw [List.foldl_cons, ih, List.map_cons, List.sum_cons, append, Nat.add_assoc]

section

variable (d : Disk)

/-- What is found at a place are sources. -/
theorem isSource_of_mem_atPlace {e : Exclusions} {p q : Path} (h : q ∈ (atPlace d e p).files) :
    isSource q = true := by
  rw [atPlace] at h
  cases hfound : d.find? p with
  | none =>
    rw [hfound] at h
    exact absurd h (by simp)
  | some t =>
    rw [hfound] at h
    obtain ⟨⟨q', t'⟩, hmem, rfl⟩ := List.mem_map.mp h
    have hcounts := (List.mem_filter.mp hmem).2
    simp only [Bool.and_eq_true] at hcounts
    exact hcounts.1.2

/-- What is found in a directory are sources. -/
theorem isSource_of_mem_ofDirectory {base : Path} {includes ignores : List String}
    {ignoreTests : Bool} {p : Path} (h : p ∈ (ofDirectory d base includes ignores ignoreTests).files) :
    isSource p = true := by
  have hfound := mem_of_mem_arranged h
  rw [files_foldl_append, List.flatMap_map] at hfound
  obtain ⟨place, -, hplace⟩ := List.mem_flatMap.mp (hfound : p ∈ [] ++ _)
  exact isSource_of_mem_atPlace d hplace

/-! ## Paths that are named

A path may fail in two ways. It may lead to nothing that can be scanned, and it
may lead to a directory of which a part cannot be looked into. Both are counted
together, and only together they say that everything that was named has been
looked at (`Scan.skipped_ofPaths_eq_zero_iff`).
-/

/-- The path can be looked at: it leads to a directory, or to a source. -/
def usable (p : Path) : Bool := d.isDirectory p || (d.isFile p && isSource p)

/-- How many directories at a path and inside of it cannot be looked into. -/
def closedAt (p : Path) : Nat :=
  match d.find? p with
  | none => 0
  | some t => ((p, t) :: t.inside p).countP fun (_, t) => t.isClosed

/-- **Everything at a path can be looked at**: the path itself, and all
directories that it leads to. -/
structure Opens (p : Path) : Prop where
  usable : Scan.usable d p = true
  inside : closedAt d p = 0

variable {d} {ignores : List String} {ignoreTests : Bool} {p : Path}

/-- A directory is skipped by its parts: each of them that cannot be looked
into counts. -/
theorem skipped_ofDirectory (h : d.isDirectory p = true) :
    (ofDirectory d p [] ignores ignoreTests).skipped = closedAt d p := by
  obtain ⟨t, ht, -⟩ := (Option.any_eq_true _ _).mp h
  rw [ofDirectory, places, arranged]
  simp only [List.isEmpty_nil, if_true, List.map_cons, List.map_nil, List.foldl_cons, List.foldl_nil]
  rw [atPlace, closedAt, ht]
  exact Nat.zero_add _

/-- There is nothing inside of a file that could be closed. -/
theorem closedAt_of_isFile (h : d.isFile p = true) : closedAt d p = 0 := by
  obtain ⟨t, ht, hfile⟩ := (Option.any_eq_true _ _).mp h
  rw [closedAt, ht]
  cases t with
  | file => rfl
  | directory | closed => exact absurd hfile Bool.false_ne_true

/-- How much is skipped at a path that is named: the path itself, or what is
closed inside of it. -/
theorem skipped_ofPath (p : Path) :
    (ofPath d ignores ignoreTests p).skipped = if usable d p then closedAt d p else 1 := by
  rw [ofPath, usable]
  -- a directory counts what is closed in it, and anything but a source counts
  -- as one
  by_cases hdirectory : d.isDirectory p = true
  · rw [if_pos hdirectory, skipped_ofDirectory hdirectory, hdirectory]
    rfl
  · rw [if_neg hdirectory, eq_false_of_ne_true hdirectory, Bool.false_or]
    by_cases hsource : (d.isFile p && isSource p) = true
    · rw [if_pos hsource, if_pos hsource, closedAt_of_isFile (Bool.and_eq_true _ _ ▸ hsource).1]
    · rw [if_neg hsource, if_neg hsource]

/-- Nothing is skipped at a path if everything there can be looked at. -/
theorem skipped_ofPath_eq_zero_iff : (ofPath d ignores ignoreTests p).skipped = 0 ↔ Opens d p := by
  rw [skipped_ofPath]
  by_cases husable : usable d p = true
  · rw [if_pos husable]
    exact ⟨fun h => ⟨husable, h⟩, fun h => h.inside⟩
  · rw [if_neg husable]
    exact iff_of_false Nat.one_ne_zero fun h => husable h.usable

/-- Where a path leads to neither a directory nor a source, nothing is found. -/
theorem files_ofPath_of_not_usable (h : ¬ usable d p = true) :
    (ofPath d ignores ignoreTests p).files = [] := by
  rw [usable, Bool.or_eq_true, not_or] at h
  rw [ofPath, if_neg h.1, if_neg h.2]

theorem files_ofPath_append (paths : List Path) :
    ((paths.map (ofPath d ignores ignoreTests)).foldl append {}).files
      = paths.flatMap fun p => (ofPath d ignores ignoreTests p).files := by
  rw [files_foldl_append, List.flatMap_map]
  rfl

/-- **When nothing is skipped.** Everything at every path can be looked at. The
count of a scan is the sum of what each path adds to it. -/
theorem skipped_ofPaths_eq_zero_iff (paths : List Path) :
    (ofPaths d paths ignores ignoreTests).skipped = 0 ↔ ∀ p ∈ paths, Opens d p := by
  show ((paths.map (ofPath d ignores ignoreTests)).foldl append {}).skipped = 0 ↔ _
  rw [skipped_foldl_append]
  show 0 + _ = 0 ↔ _
  rw [Nat.zero_add, List.sum_eq_zero_iff_forall_eq_nat, List.map_map, List.forall_mem_map]
  exact forall₂_congr fun _ _ => skipped_ofPath_eq_zero_iff

/-- **Which sources are named.** What is scanned was found at a path that can
be looked at, and everything that is found at one of them is scanned. -/
theorem mem_ofPaths (d : Disk) (paths : List Path) (ignores : List String) (ignoreTests : Bool) :
    (∀ f ∈ (ofPaths d paths ignores ignoreTests).files,
        ∃ p ∈ paths, usable d p = true ∧ f ∈ (ofPath d ignores ignoreTests p).files) ∧
      ∀ p ∈ paths, ∀ f ∈ (ofPath d ignores ignoreTests p).files,
        ∃ f' ∈ (ofPaths d paths ignores ignoreTests).files, f'.same f = true := by
  refine ⟨fun f hf => ?_, fun p hp f hf => exists_mem_arranged ?_⟩
  · have hfound := mem_of_mem_arranged hf
    rw [files_ofPath_append] at hfound
    obtain ⟨p, hp, hfp⟩ := List.mem_flatMap.mp hfound
    refine ⟨p, hp, ?_, hfp⟩
    by_contra husable
    rw [files_ofPath_of_not_usable husable] at hfp
    exact absurd hfp (by simp)
  · rw [files_ofPath_append]
    exact List.mem_flatMap.mpr ⟨p, hp, hf⟩

/-- What is named are sources. -/
theorem isSource_of_mem_ofPaths {paths : List Path}
    (h : p ∈ (ofPaths d paths ignores ignoreTests).files) : isSource p = true := by
  have hfound := mem_of_mem_arranged h
  rw [files_ofPath_append] at hfound
  obtain ⟨q, -, hq⟩ := List.mem_flatMap.mp hfound
  rw [ofPath] at hq
  split at hq
  · exact isSource_of_mem_ofDirectory d hq
  · split at hq
    · -- a source that is named itself
      rename_i hsource
      rw [Bool.and_eq_true] at hsource
      exact List.mem_singleton.mp hq ▸ hsource.2
    · exact absurd hq (by simp)

end

end Scan

end LocaleKeys
