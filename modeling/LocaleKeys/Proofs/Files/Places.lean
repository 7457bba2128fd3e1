/-
Places in a tree of files, and what a change of the files does to them.

A place is given by the names that lead to it from the root (`FileTree.at?`).
Writing and erasing work on places: at every place the tree is as it was, or it
has an open directory there, or the place is the one that the change is about
(`FileTree.at?_write`, `FileTree.at?_erase`). A directory is never taken away
as long as only files are written over and only files are erased, and an open
one stays open. The directories along the way do change, because their entries
and their times do, so that nothing more than their being there can be said of
them.
-/
import LocaleKeys.Files.Tree

set_option autoImplicit false

namespace LocaleKeys

namespace FileTree

/-! ## Places

A place is a list of names, which is as independent of the tree as possible:
after a change the same names may lead to something else or to nothing.
Statements about changes are therefore statements about `at?` of the old and of
the new tree at the same names. -/

/-- What the names lead to. -/
def at? : FileTree → List String → Option FileTree
  | t, [] => some t
  | t, name :: names => (t.child? name).bind (·.at? names)

/-- The tree is a directory that can be looked into. -/
def IsOpen (t : FileTree) : Prop := ∃ entries data, t = .directory entries data

/-- A directory that can be looked into is at the place. -/
def OpenAt (t : FileTree) (names : List String) : Prop := ∃ below, t.at? names = some below ∧ below.IsOpen

/-- A directory is at the place, open or closed. -/
def DirectoryAt (t : FileTree) (names : List String) : Prop :=
  ∃ below, t.at? names = some below ∧ below.isDirectory = true

/-- Names lead on from where names have led. -/
theorem at?_append (t : FileTree) (names more : List String) :
    t.at? (names ++ more) = (t.at? names).bind (·.at? more) := by
  induction names generalizing t with
  | nil => rfl
  | cons name names ih =>
    rw [List.cons_append, at?, at?]
    cases t.child? name with
    | none => rfl
    | some below => exact ih below

theorem at?_singleton (t : FileTree) (name : String) : t.at? [name] = t.child? name := by
  rw [at?]
  cases t.child? name <;> rfl

/-- Behind a file there is nothing. -/
theorem at?_file (data : FileData) {names : List String} (h : names ≠ []) :
    (file data).at? names = none := by
  cases names with
  | nil => exact absurd rfl h
  | cons name names => rfl

theorem at?_empty {data : DirectoryData} {names : List String} (h : names ≠ []) :
    (directory [] data).at? names = none := by
  cases names with
  | nil => exact absurd rfl h
  | cons name names => rfl

/-- What can be looked into is a directory. -/
theorem IsOpen.isDirectory {t : FileTree} (h : t.IsOpen) : t.isDirectory = true := by
  obtain ⟨entries, data, rfl⟩ := h
  rfl

/-- It is one that is not closed. -/
theorem isOpen_iff {t : FileTree} : t.IsOpen ↔ t.isDirectory = true ∧ t.isClosed = false := by
  cases t with
  | directory entries data => exact ⟨fun _ => ⟨rfl, rfl⟩, fun _ => ⟨entries, data, rfl⟩⟩
  | file data => simp [IsOpen, isDirectory]
  | closed data => simp [IsOpen, isClosed]

/-- A place that can be looked into has a directory. -/
theorem OpenAt.directoryAt {t : FileTree} {names : List String} (h : t.OpenAt names) :
    t.DirectoryAt names := by
  obtain ⟨below, hbelow, hopen⟩ := h
  exact ⟨below, hbelow, hopen.isDirectory⟩

theorem openAt_nil {t : FileTree} (h : t.IsOpen) : t.OpenAt [] := ⟨t, rfl, h⟩

/-- A file has data. -/
theorem exists_file {t : FileTree} (h : t.isFile = true) : ∃ data, t = .file data := by
  cases t with
  | directory entries data => exact absurd h (by simp [isFile, isDirectory])
  | closed data => exact absurd h (by simp [isFile, isDirectory])
  | file data => exact ⟨data, rfl⟩

/-- Only an open directory has something in it. -/
theorem isOpen_of_child? {t below : FileTree} {name : String} (h : t.child? name = some below) :
    t.IsOpen := by
  cases t with
  | directory entries data => exact ⟨entries, data, rfl⟩
  | file data => exact absurd h (by simp [child?])
  | closed data => exact absurd h (by simp [child?])

/-! ## Entries

Putting an entry into a list and taking one out of it. Look-ups find the entry
that was put and all others as before; where it was put in the list does not
matter. -/

section Entries

variable (name : String) (t : FileTree) (entries : List (String × FileTree))

/-- What was put is found. -/
theorem lookup_put_self : (put name t entries).lookup name = some t := by
  induction entries with
  | nil => simp [put]
  | cons e es ih =>
    rw [put]
    by_cases hsame : (name == e.1) = true
    · rw [if_pos hsame]
      simp
    · rw [if_neg hsame]
      split
      · simp
      · rw [List.lookup_cons, Bool.eq_false_iff.mpr hsame]
        exact ih

/-- Under all other names nothing has changed. -/
theorem lookup_put_of_ne {other : String} (h : other ≠ name) :
    (put name t entries).lookup other = entries.lookup other := by
  have hother : (other == name) = false := by simpa using h
  induction entries with
  | nil => rw [put, List.lookup_cons, hother]
  | cons e es ih =>
    rw [put]
    by_cases hsame : (name == e.1) = true
    · have he : (other == e.1) = false := by rw [← eq_of_beq hsame, hother]
      rw [if_pos hsame, List.lookup_cons, hother, List.lookup_cons, he]
    · rw [if_neg hsame]
      split
      · rw [List.lookup_cons, hother]
      · rw [List.lookup_cons, List.lookup_cons, ih]

/-- What was taken out is not found. -/
theorem lookup_filter_self : (entries.filter (·.1 != name)).lookup name = none := by
  induction entries with
  | nil => rfl
  | cons e es ih =>
    rw [List.filter_cons]
    by_cases hne : (e.1 != name) = true
    · have he : (name == e.1) = false := beq_eq_false_iff_ne.mpr (bne_iff_ne.mp hne).symm
      rw [if_pos hne, List.lookup_cons, he]
      exact ih
    · rw [if_neg hne]
      exact ih

/-- Under all other names nothing has changed. -/
theorem lookup_filter_of_ne {other : String} (h : other ≠ name) :
    (entries.filter (·.1 != name)).lookup other = entries.lookup other := by
  induction entries with
  | nil => rfl
  | cons e es ih =>
    rw [List.filter_cons]
    by_cases hne : (e.1 != name) = true
    · rw [if_pos hne, List.lookup_cons, List.lookup_cons, ih]
    · have he : e.1 = name := by simpa using hne
      have hother : (other == e.1) = false := by rw [he]; simpa using h
      rw [if_neg hne, ih, List.lookup_cons, hother]

end Entries

/-! ## Writing and erasing

Three things may be said of a place after a change: it is as it was, it has an
open directory, or it is the one that the change is about. The middle case
covers the directories on the way, whose entries are others now, and those that
had to be made. No more is needed, since what is asked about later are files.
The inductions follow the names of the target, and the names of the place along
with them. -/

/-- What is below an entry that was put into a directory. -/
theorem at?_put (entries : List (String × FileTree)) (data : DirectoryData) (first : String)
    (below : FileTree) (name : String) (names : List String) :
    (directory (put first below entries) data).at? (name :: names)
      = if name = first then below.at? names else (directory entries).at? (name :: names) := by
  rw [at?, at?, child?, child?]
  by_cases hname : name = first
  · rw [if_pos hname, hname, lookup_put_self, Option.bind_some]
  · rw [if_neg hname, lookup_put_of_ne _ _ _ hname]

/-- What is below the name in a directory that has something under it. -/
theorem at?_of_lookup {entries : List (String × FileTree)} {data : DirectoryData} {name : String}
    {below : FileTree} (h : entries.lookup name = some below) (names : List String) :
    (directory entries data).at? (name :: names) = below.at? names := by
  rw [at?, child?, h, Option.bind_some]

/-- Where a file is written and nothing was before, there are directories on
the way to it, and nothing else. -/
theorem at?_write_anew (target : List String) (data : FileData) (names : List String) :
    ((directory []).write target (.file data)).at? names = none ∨
      ((directory []).write target (.file data)).OpenAt names ∨
      names = target ∧ ((directory []).write target (.file data)).at? names = some (.file data) := by
  induction target generalizing names with
  | nil =>
    rw [write]
    cases names with
    | nil => exact .inr (.inr ⟨rfl, rfl⟩)
    | cons name names => exact .inl rfl
  | cons first rest ih =>
    rw [write]
    cases names with
    | nil => exact .inr (.inl (openAt_nil ⟨_, _, rfl⟩))
    | cons name names =>
      rw [OpenAt, at?_put]
      by_cases hname : name = first
      · rw [if_pos hname, hname, List.cons.injEq, and_iff_right rfl]
        exact ih names
      · rw [if_neg hname, at?_empty (by simp)]
        exact .inl rfl

/-- **What writing a file does to a place**, unless it would put the file in
the place of a directory. The induction follows the names to the place that is
written. -/
theorem at?_write (t : FileTree) (target : List String) (data : FileData)
    (hfree : ¬ t.DirectoryAt target) (names : List String) :
    (t.write target (.file data)).at? names = t.at? names ∨
      (t.write target (.file data)).OpenAt names ∨
      names = target ∧ (t.write target (.file data)).at? names = some (.file data) := by
  induction target generalizing t names with
  | nil =>
    rw [write]
    cases t with
    | directory entries old => exact absurd ⟨_, rfl, rfl⟩ hfree
    | closed old => exact absurd ⟨_, rfl, rfl⟩ hfree
    | file old =>
      cases names with
      | nil => exact .inr (.inr ⟨rfl, rfl⟩)
      | cons name names => exact .inl rfl
  | cons first rest ih =>
    cases t with
    | file old => exact .inl rfl
    | closed old => exact .inl rfl
    | directory entries old =>
      rw [write]
      cases names with
      | nil => exact .inr (.inl (openAt_nil ⟨_, _, rfl⟩))
      | cons name names =>
        rw [OpenAt, at?_put]
        -- the place goes on by the same name as the target, or it is beside it
        by_cases hname : name = first
        · rw [if_pos hname, hname, List.cons.injEq, and_iff_right rfl]
          cases hlookup : entries.lookup first with
          | some below =>
            have hbelow : ¬ below.DirectoryAt rest := fun ⟨there, hthere, hdirectory⟩ =>
              hfree ⟨there, (at?_of_lookup hlookup rest).trans hthere, hdirectory⟩
            rw [at?_of_lookup hlookup]
            exact ih below hbelow names
          | none =>
            -- what is below is made anew
            rw [at?, child?, hlookup]
            exact at?_write_anew rest data names
        · exact .inl (if_neg hname)

/-- **What erasing a file does to a place.** The place is as before, or it is a
directory that can still be looked into, or it is the place of the file
itself. -/
theorem at?_erase (t : FileTree) (target : List String)
    (hfile : ∃ data, t.at? target = some (.file data)) (names : List String) :
    (t.erase target).at? names = t.at? names ∨ (t.erase target).OpenAt names ∨
      names = target ∧ (t.erase target).at? names = none := by
  induction target generalizing t names with
  | nil => exact .inl (by rw [erase])
  | cons first rest ih =>
    obtain ⟨data, hdata⟩ := hfile
    cases t with
    | file old => exact .inl (by cases rest <;> rfl)
    | closed old => exact .inl (by cases rest <;> rfl)
    | directory entries old =>
      rw [at?, child?] at hdata
      obtain ⟨below, hbelow, hat⟩ := Option.bind_eq_some_iff.mp hdata
      -- the file is an entry of this directory, or it is further below
      cases rest with
      | nil =>
        obtain rfl : below = .file data := Option.some.inj hat
        rw [erase]
        cases names with
        | nil => exact .inr (.inl (openAt_nil ⟨_, _, rfl⟩))
        | cons name names =>
          by_cases hname : name = first
          · rw [hname, at?, child?, lookup_filter_self, Option.bind_none]
            cases names with
            | nil => exact .inr (.inr ⟨rfl, rfl⟩)
            | cons name' names =>
              -- behind the file there was nothing either
              rw [at?_of_lookup hbelow, at?_file _ (by simp)]
              exact .inl rfl
          · refine .inl ?_
            rw [at?, child?, lookup_filter_of_ne _ _ hname, at?, child?]
      | cons second rest =>
        rw [erase, hbelow]
        · dsimp only
          cases names with
          | nil => exact .inr (.inl (openAt_nil ⟨_, _, rfl⟩))
          | cons name names =>
            rw [OpenAt, at?_put]
            by_cases hname : name = first
            · rw [if_pos hname, hname, at?_of_lookup hbelow, List.cons.injEq, and_iff_right rfl]
              exact ih below ⟨data, hat⟩ names
            · exact .inl (if_neg hname)
        · simp

section Kept

variable {t : FileTree} {names target : List String}

/-- At a place that has a directory, a file is neither written nor erased. -/
theorem not_file_of_directoryAt {data : FileData} (h : t.DirectoryAt names) :
    t.at? names ≠ some (.file data) := by
  obtain ⟨below, hbelow, hdirectory⟩ := h
  rw [hbelow]
  rintro heq
  rw [Option.some.inj heq] at hdirectory
  exact absurd hdirectory (by simp [isDirectory])

/-- Writing a file takes no directory away. -/
theorem DirectoryAt.write (h : t.DirectoryAt names) (hfree : ¬ t.DirectoryAt target)
    (data : FileData) : (t.write target (.file data)).DirectoryAt names := by
  rcases at?_write t target data hfree names with hsame | hopen | ⟨rfl, -⟩
  · rwa [DirectoryAt, hsame]
  · exact hopen.directoryAt
  · exact absurd h hfree

/-- Writing a file closes no directory. -/
theorem OpenAt.write (h : t.OpenAt names) (hfree : ¬ t.DirectoryAt target) (data : FileData) :
    (t.write target (.file data)).OpenAt names := by
  rcases at?_write t target data hfree names with hsame | hopen | ⟨rfl, -⟩
  · rwa [OpenAt, hsame]
  · exact hopen
  · exact absurd h.directoryAt hfree

/-- Erasing a file takes no directory away. -/
theorem DirectoryAt.erase (h : t.DirectoryAt names) (hfile : ∃ data, t.at? target = some (.file data)) :
    (t.erase target).DirectoryAt names := by
  rcases at?_erase t target hfile names with hsame | hopen | ⟨rfl, -⟩
  · rwa [DirectoryAt, hsame]
  · exact hopen.directoryAt
  · obtain ⟨data, hdata⟩ := hfile
    exact absurd hdata (not_file_of_directoryAt h)

/-- Erasing a file closes no directory. -/
theorem OpenAt.erase (h : t.OpenAt names) (hfile : ∃ data, t.at? target = some (.file data)) :
    (t.erase target).OpenAt names := by
  rcases at?_erase t target hfile names with hsame | hopen | ⟨rfl, -⟩
  · rwa [OpenAt, hsame]
  · exact hopen
  · obtain ⟨data, hdata⟩ := hfile
    exact absurd hdata (not_file_of_directoryAt h.directoryAt)

end Kept

end FileTree

end LocaleKeys
