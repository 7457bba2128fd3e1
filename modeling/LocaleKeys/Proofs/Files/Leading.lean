/-
Where a path leads.

A path is not a place: it may go through directories and leave them again. But
directories stay as long as only files are written and erased, they stay open
if they are, and while those are there that the path goes through, it leads to
the same place. So a path that has led to a file once leads to its place from
then on, whatever becomes of the file (`Disk.exists_leads`).
-/
import LocaleKeys.Dictionary.Loading
import LocaleKeys.Proofs.Files.Places
import LocaleKeys.Proofs.Outcomes

set_option autoImplicit false

namespace LocaleKeys.Disk

namespace Location

/-! ## Locations in a tree

A location remembers the directories it came through, since `..` leads back to
them. It belongs to a tree if each of these is the child of the one above
(`Chain`). Then the names alone determine what is there. -/

/-- The directories above a tree lead down to it from the root. -/
def Chain (root : FileTree) : FileTree → List (String × FileTree) → Prop
  | t, [] => t = root
  | t, (name, parent) :: above => parent.child? name = some t ∧ Chain root parent above

/-- The location is one of this tree. -/
def Stands (root : FileTree) (l : Location) : Prop := Chain root l.tree l.above

/-- What is at a location is what is at its place. -/
theorem Stands.at? {root : FileTree} {l : Location} (h : Stands root l) :
    root.at? l.names = some l.tree := by
  obtain ⟨t, above⟩ := l
  rw [names]
  induction above generalizing t with
  | nil => rw [show t = root from h]; rfl
  | cons entry above ih =>
    obtain ⟨name, parent⟩ := entry
    obtain ⟨hchild, hparent⟩ := h
    rw [List.map_cons, List.reverse_cons, FileTree.at?_append, ih parent hparent, Option.bind_some,
      FileTree.at?_singleton]
    exact hchild

/-- A piece of a path that is a step down. -/
def IsName (piece : String) : Prop := Path.isIdle piece = false ∧ piece ≠ ".."

/-! ## Steps

The kinds of pieces and what each does. All of them need an open directory,
even those that stay, so a path through a file or through a closed directory
leads nowhere. -/

section

variable {root : FileTree} {l m : Location} {piece : String}

/-- Every step needs an open directory to stand in. -/
theorem isOpen_of_step (hstep : l.step piece = .ok m) : l.tree.IsOpen := by
  rw [FileTree.isOpen_iff]
  rw [Location.step] at hstep
  cases hdirectory : l.tree.isDirectory with
  | false =>
    rw [hdirectory] at hstep
    exact absurd hstep (by simp)
  | true =>
    cases hclosed : l.tree.isClosed with
    | false => exact ⟨rfl, rfl⟩
    | true =>
      rw [hdirectory, hclosed] at hstep
      exact absurd hstep (by simp)

/-- An idle piece stays. -/
theorem step_idle (hopen : l.tree.IsOpen) (hidle : Path.isIdle piece = true) :
    l.step piece = .ok l := by
  obtain ⟨hdirectory, hclosed⟩ := FileTree.isOpen_iff.mp hopen
  rw [Location.step, hdirectory, hclosed, hidle]
  rfl

/-- Two dots lead to the directory above, and stay at the root. -/
theorem step_up (hopen : l.tree.IsOpen) :
    l.step ".." = .ok (match l.above with | [] => l | (_, t) :: above => ⟨t, above⟩) := by
  obtain ⟨hdirectory, hclosed⟩ := FileTree.isOpen_iff.mp hopen
  rw [Location.step, hdirectory, hclosed]
  obtain ⟨t, above⟩ := l
  cases above <;> rfl

/-- A name leads to the child of that name, if there is one. -/
theorem step_name (hopen : l.tree.IsOpen) (hname : IsName piece) :
    l.step piece = match l.tree.child? piece with
      | some t => .ok ⟨t, (piece, l.tree) :: l.above⟩
      | none => .error .missing := by
  obtain ⟨hdirectory, hclosed⟩ := FileTree.isOpen_iff.mp hopen
  rw [Location.step, hdirectory, hclosed, hname.1, beq_false_of_ne hname.2]
  rfl

/-- Where a name has led, there is such a child. -/
theorem step_name_eq_ok (hname : IsName piece) (hstep : l.step piece = .ok m) :
    ∃ t, l.tree.child? piece = some t ∧ m = ⟨t, (piece, l.tree) :: l.above⟩ := by
  rw [step_name (isOpen_of_step hstep) hname] at hstep
  cases hchild : l.tree.child? piece with
  | none =>
    rw [hchild] at hstep
    exact absurd hstep (by simp)
  | some t =>
    rw [hchild] at hstep
    exact ⟨t, rfl, (Except.ok.inj hstep).symm⟩

/-- A piece is none, or leads up, or is a name. -/
theorem piece_cases (piece : String) : Path.isIdle piece = true ∨ piece = ".." ∨ IsName piece := by
  by_cases hidle : Path.isIdle piece = true
  · exact .inl hidle
  · by_cases hup : piece = ".."
    · exact .inr (.inl hup)
    · exact .inr (.inr ⟨by simpa using hidle, hup⟩)

/-- A step leads to a location of the same tree. Only a step down can lead to
anything but an open directory. -/
theorem Stands.step (h : Stands root l) (hstep : l.step piece = .ok m) :
    Stands root m ∧ (m.tree.IsOpen ∨
      IsName piece ∧ l.tree.child? piece = some m.tree ∧ m.names = l.names ++ [piece]) := by
  have hopen := isOpen_of_step hstep
  rcases piece_cases piece with hidle | rfl | hname
  · rw [step_idle hopen hidle] at hstep
    obtain rfl := Except.ok.inj hstep
    exact ⟨h, .inl hopen⟩
  · rw [step_up hopen] at hstep
    obtain rfl := Except.ok.inj hstep
    obtain ⟨t, above⟩ := l
    cases above with
    | nil => exact ⟨h, .inl hopen⟩
    | cons entry above => exact ⟨h.2, .inl (FileTree.isOpen_of_child? h.1)⟩
  · obtain ⟨t, hchild, rfl⟩ := step_name_eq_ok hname hstep
    exact ⟨⟨hchild, h⟩, .inr ⟨hname, hchild, by simp [names]⟩⟩

theorem follow_cons (l : Location) (piece : String) (pieces : List String) :
    l.follow (piece :: pieces) = (l.step piece).bind (·.follow pieces) := rfl

theorem follow_append (l : Location) (pieces more : List String) :
    l.follow (pieces ++ more) = (l.follow pieces).bind (·.follow more) := by
  rw [follow, List.foldlM_append]
  rfl

/-- A way that can be gone begins with a step that can be taken. -/
theorem follow_cons_eq_ok {pieces : List String} (h : l.follow (piece :: pieces) = .ok m) :
    ∃ l', l.step piece = .ok l' ∧ l'.follow pieces = .ok m := by
  rw [follow_cons] at h
  exact bind_eq_ok_iff.mp h

/-- All along the way the location is one of the tree. -/
theorem Stands.follow {pieces : List String} (h : Stands root l) (hfollow : l.follow pieces = .ok m) :
    Stands root m := by
  induction pieces generalizing l with
  | nil => exact Except.ok.inj hfollow ▸ h
  | cons piece pieces ih =>
    obtain ⟨l', hstep, hrest⟩ := follow_cons_eq_ok hfollow
    exact ih (h.step hstep).1 hrest

/-- Who comes to an open directory has started in one. -/
theorem isOpen_of_follow {pieces : List String} (hfollow : l.follow pieces = .ok m)
    (hm : m.tree.IsOpen) : l.tree.IsOpen := by
  cases pieces with
  | nil => exact Except.ok.inj hfollow ▸ hm
  | cons piece pieces =>
    obtain ⟨l', hstep, -⟩ := follow_cons_eq_ok hfollow
    exact isOpen_of_step hstep

/-! ### Idle pieces

Idle pieces stay, but they ask for an open directory to stay in, which is where
the program differs from a plain comparison of names: `a.json/.` leads nowhere.
Such a piece may be left out if another one follows, which asks for the
same. -/

/-- From a file and from a closed directory no step leads on, whichever it is. -/
theorem exists_error_of_not_isOpen (h : ¬ l.tree.IsOpen) :
    ∃ fault, ∀ piece, l.step piece = .error fault := by
  rw [FileTree.isOpen_iff, not_and, Bool.not_eq_false] at h
  by_cases hdirectory : l.tree.isDirectory = true
  · exact ⟨.denied, fun piece => by rw [step, hdirectory, h hdirectory]; rfl⟩
  · exact ⟨.notDirectory, fun piece => by rw [step, Bool.eq_false_iff.mpr hdirectory]; rfl⟩

/-- What is no step may be left out in front of others. -/
theorem follow_idle {idles way : List String} (hidle : ∀ x ∈ idles, Path.isIdle x = true)
    (hway : way ≠ []) (l : Location) : l.follow (idles ++ way) = l.follow way := by
  induction idles with
  | nil => rfl
  | cons x idles ih =>
    obtain ⟨hx, hidle⟩ := List.forall_mem_cons.mp hidle
    rw [List.cons_append, follow_cons]
    by_cases hopen : l.tree.IsOpen
    · rw [step_idle hopen hx]
      exact ih hidle
    · obtain ⟨piece, more, rfl⟩ := List.exists_cons_of_ne_nil hway
      obtain ⟨fault, hfault⟩ := exists_error_of_not_isOpen hopen
      rw [hfault, follow_cons, hfault]
      rfl

/-- What is no step leads nowhere else, but it needs an open directory. -/
theorem follow_of_idle {idles : List String} (hidle : ∀ x ∈ idles, Path.isIdle x = true)
    (hne : idles ≠ []) (h : l.follow idles = .ok m) : m = l ∧ m.tree.IsOpen := by
  induction idles with
  | nil => exact absurd rfl hne
  | cons x idles ih =>
    obtain ⟨hx, hidle⟩ := List.forall_mem_cons.mp hidle
    obtain ⟨l', hstep, hrest⟩ := follow_cons_eq_ok h
    have hopen := isOpen_of_step hstep
    rw [step_idle hopen hx] at hstep
    obtain rfl := Except.ok.inj hstep
    by_cases hnil : idles = []
    · rw [hnil] at hrest
      obtain rfl := Except.ok.inj hrest
      exact ⟨rfl, hopen⟩
    · exact ih hidle hnil hrest

end

/-! ## The same steps in another tree

What a path goes through are open directories, from the first to the last but
one. In a tree that has them as well, each step can be taken again, and it
leads to a location with the same names; the trees at the two locations need
not have more in common than being open. -/

section

variable {root root' : FileTree} (hkept : ∀ names, root.OpenAt names → root'.OpenAt names)
include hkept

/-- Where an open directory was there is still one. -/
theorem Stands.kept {l l' : Location} (h : Stands root l) (h' : Stands root' l')
    (hnames : l'.names = l.names) (hopen : l.tree.IsOpen) : l'.tree.IsOpen := by
  obtain ⟨below, hbelow, hstill⟩ := hkept l.names ⟨l.tree, h.at?, hopen⟩
  rw [← hnames, h'.at?] at hbelow
  rw [Option.some.inj hbelow]
  exact hstill

/-- **A step between open directories leads to the same place** in every tree
that has them as well. A step looks at the directory it is in and at no other,
so that changes elsewhere do not matter. -/
theorem Stands.step_kept {l l' m : Location} {piece : String} (h : Stands root l)
    (h' : Stands root' l') (hnames : l'.names = l.names) (hstep : l.step piece = .ok m)
    (hm : m.tree.IsOpen) :
    ∃ m', l'.step piece = .ok m' ∧ Stands root' m' ∧ m'.names = m.names := by
  have hopen := isOpen_of_step hstep
  have hopen' := h.kept hkept h' hnames hopen
  have habove : l'.above.map Prod.fst = l.above.map Prod.fst := List.reverse_inj.mp hnames
  -- a step that stays, one that leads up, and one that leads down
  rcases piece_cases piece with hidle | rfl | hname
  · rw [step_idle hopen hidle] at hstep
    obtain rfl := Except.ok.inj hstep
    exact ⟨l', step_idle hopen' hidle, h', hnames⟩
  · rw [step_up hopen] at hstep
    obtain rfl := Except.ok.inj hstep
    refine ⟨_, step_up hopen', (h'.step (step_up hopen')).1, ?_⟩
    obtain ⟨t, above⟩ := l
    obtain ⟨t', above'⟩ := l'
    cases above with
    | nil => obtain rfl : above' = [] := List.map_eq_nil_iff.mp habove; rfl
    | cons entry above =>
      obtain ⟨entry', above', rfl, -, htail⟩ := List.map_eq_cons_iff.mp habove
      exact congrArg List.reverse htail
  · -- the directory below is there in the other tree, under the same name
    obtain ⟨t, hchild, rfl⟩ := step_name_eq_ok hname hstep
    obtain ⟨below, hat, -⟩ := hkept (l.names ++ [piece])
      ⟨t, by rw [FileTree.at?_append, h.at?, Option.bind_some, FileTree.at?_singleton, hchild], hm⟩
    rw [← hnames, FileTree.at?_append, h'.at?, Option.bind_some, FileTree.at?_singleton] at hat
    refine ⟨⟨below, (piece, l'.tree) :: l'.above⟩, ?_, ⟨hat, h'⟩, ?_⟩
    · rw [step_name hopen' hname, hat]
    · rw [names, names, List.map_cons, List.map_cons, habove]

/-- **A way between open directories leads to the same place** in every tree
that has them as well.
-/
theorem Stands.follow_kept {pieces : List String} {l l' m : Location} (h : Stands root l)
    (h' : Stands root' l') (hnames : l'.names = l.names) (hfollow : l.follow pieces = .ok m)
    (hm : m.tree.IsOpen) :
    ∃ m', l'.follow pieces = .ok m' ∧ Stands root' m' ∧ m'.names = m.names := by
  induction pieces generalizing l l' with
  | nil =>
    obtain rfl := Except.ok.inj hfollow
    exact ⟨l', rfl, h', hnames⟩
  | cons piece pieces ih =>
    obtain ⟨l₁, hstep, hrest⟩ := follow_cons_eq_ok hfollow
    obtain ⟨l₁', hstep', h₁', hnames₁⟩ :=
      h.step_kept hkept h' hnames hstep (isOpen_of_follow hrest hm)
    obtain ⟨m', hrest', hm', hnames'⟩ := ih (h.step hstep).1 h₁' hnames₁ hrest
    refine ⟨m', ?_, hm', hnames'⟩
    rw [follow_cons, hstep']
    exact hrest'

end

end Location

/-! ## Paths and places

A disk has a tree and the place where the program runs. `Keeps` is what becomes
of a disk while files are written and erased: its directories are still there,
and still open. Under `Keeps` a path that has led to a file leads to the same
place for good (`Leads`), although the file may be gone. So a watcher may be
spoken of by places instead of paths. -/

/-- A directory is at the path. -/
theorem isDirectory_iff {d : Disk} {p : Path} :
    d.isDirectory p = true ↔ ∃ t, d.find? p = some t ∧ t.isDirectory = true := Option.any_eq_true _ _

/-- The pieces of the way that a path takes from the root. -/
def route (d : Disk) (p : Path) : List String :=
  if p.isAbsolute then p.pieces.drop 1 else d.working ++ p.pieces

/-- A path that is not empty is followed along its route. -/
theorem locate_eq (d : Disk) (p : Path) :
    d.locate p = if p.text.isEmpty then .error .missing
      else (Location.mk d.root []).follow (d.route p) := by
  rw [locate, route]
  split
  · rfl
  · split
    · rfl
    · rw [Location.follow_append]
      rfl

/-- The directories of one disk are there on the other one too, and as open. -/
structure Keeps (d d' : Disk) : Prop where
  working : d'.working = d.working
  directories : ∀ names, d.root.DirectoryAt names → d'.root.DirectoryAt names
  opened : ∀ names, d.root.OpenAt names → d'.root.OpenAt names

theorem Keeps.refl (d : Disk) : d.Keeps d := ⟨rfl, fun _ h => h, fun _ h => h⟩

theorem Keeps.trans {d d' d'' : Disk} (h : d.Keeps d') (h' : d'.Keeps d'') : d.Keeps d'' :=
  ⟨h'.working.trans h.working, fun names hnames => h'.directories names (h.directories names hnames),
    fun names hnames => h'.opened names (h.opened names hnames)⟩

/-- The path leads to the place, whatever becomes of the files. -/
def Leads (d : Disk) (p : Path) (names : List String) : Prop :=
  ∀ d' : Disk, d.Keeps d' → d'.find? p = d'.root.at? names

/-- What is found at the path is what is at the place. -/
theorem Leads.find? {d : Disk} {p : Path} {names : List String} (h : d.Leads p names) :
    d.find? p = d.root.at? names := h d (.refl d)

/-- It still leads there when directories have been kept. -/
theorem Leads.of_keeps {d d' : Disk} {p : Path} {names : List String} (h : d.Leads p names)
    (hkeeps : d.Keeps d') : d'.Leads p names := fun d'' h' => h d'' (hkeeps.trans h')

/-- **Where a file was found.** The path leads there from now on. A file is
found behind the last piece of its path, and up to there all places are
directories that can be looked into. -/
theorem exists_leads {d : Disk} {p : Path} {data : FileData} (h : d.find? p = some (.file data)) :
    ∃ names, d.Leads p names := by
  rw [Disk.find?, locate_eq] at h
  have hnonempty : ¬ p.text.isEmpty = true := by
    intro hempty
    rw [if_pos hempty] at h
    exact absurd h (by simp [Except.toOption])
  rw [if_neg hnonempty] at h
  obtain ⟨m, hm, hfile⟩ := Option.map_eq_some_iff.mp h
  have hfollow : (Location.mk d.root []).follow (d.route p) = .ok m := toOption_eq_some_iff.mp hm
  have hlocate : ∀ d' : Disk, d'.working = d.working →
      d'.find? p = ((Location.mk d'.root []).follow (d.route p)).toOption.map (·.tree) := by
    intro d' hworking
    rw [Disk.find?, locate_eq, if_neg hnonempty, route, hworking, route]
  rcases List.eq_nil_or_concat (d.route p) with hnil | ⟨init, name, hroute⟩
  -- a path without pieces leads to where it is followed from
  · refine ⟨[], fun d' hkeeps => ?_⟩
    rw [hlocate d' hkeeps.working, hnil]
    rfl
  · -- all but the last step are between open directories, and the last one leads down
    rw [hroute, List.concat_eq_append, Location.follow_append] at hfollow
    obtain ⟨l, hinit, hlast⟩ := bind_eq_ok_iff.mp hfollow
    obtain ⟨m', hstep, hm'⟩ := Location.follow_cons_eq_ok hlast
    obtain rfl := Except.ok.inj hm'
    have hroot : ∀ root : FileTree, Location.Stands root ⟨root, []⟩ := fun _ => rfl
    have hstands := (hroot d.root).follow hinit
    have hname : Location.IsName name := by
      rcases (hstands.step hstep).2 with hopen | ⟨hname, -, -⟩
      · rw [hfile] at hopen
        exact absurd hopen.isDirectory (by simp [FileTree.isDirectory])
      · exact hname
    refine ⟨l.names ++ [name], fun d' hkeeps => ?_⟩
    have hopen := Location.isOpen_of_step hstep
    obtain ⟨l', hinit', hstands', hnames⟩ :=
      (hroot d.root).follow_kept hkeeps.opened (hroot d'.root) rfl hinit hopen
    have hopen' := hstands.kept hkeeps.opened hstands' hnames hopen
    rw [hlocate d' hkeeps.working, hroute, List.concat_eq_append, Location.follow_append, hinit',
      ← hnames, FileTree.at?_append, hstands'.at?, Option.bind_some, FileTree.at?_singleton]
    change ((l'.follow [name]).toOption.map (·.tree)) = _
    rw [Location.follow_cons, Location.step_name hopen' hname]
    cases l'.tree.child? name with
    | none => rfl
    | some t => rfl

/-! ## Changes of a file

The two changes that can happen to a file, as the program sees the disk from
outside. `Altered` says of both that nothing but one place is different, in the
way in which `at?_write` and `at?_erase` put it. -/

/-- The disk where a file is written at a place. A directory cannot be written
over. -/
def writeAt (d : Disk) (place : List String) (data : FileData) : Disk :=
  if (d.root.at? place).any (·.isDirectory) then d
  else { d with root := d.root.write place (.file data) }

/-- The disk without the file at a place, if there is one. -/
def removeAt (d : Disk) (place : List String) : Disk :=
  if (d.root.at? place).any (·.isFile) then { d with root := d.root.erase place } else d

/-- Nothing has changed but one file, and `new` is in its place now.
Directories that lead there may have been made, and those that were there have
other entries and other times. -/
structure Altered (d d' : Disk) (place : List String) (new : Option FileData) : Prop where
  keeps : d.Keeps d'
  places : ∀ names, d'.root.at? names = d.root.at? names ∨ d'.root.OpenAt names ∨
    names = place ∧ d'.root.at? names = new.map .file

theorem Altered.refl (d : Disk) (place : List String) (new : Option FileData) :
    d.Altered d place new := ⟨.refl d, fun _ => .inl rfl⟩

/-- What a change of a file does to a path that leads somewhere. -/
theorem Altered.find?_cases {d d' : Disk} {place : List String} {new : Option FileData}
    (h : d.Altered d' place new) {p : Path} {names : List String} (hp : d.Leads p names) :
    d'.find? p = d.find? p ∨ d'.root.DirectoryAt names ∨
      names = place ∧ d'.find? p = new.map .file := by
  rw [hp d' h.keeps, hp.find?]
  exact (h.places names).imp_right (Or.imp_left FileTree.OpenAt.directoryAt)

/-! ## What is read

A locale file is read through its path, and only what is found there matters.
So two disks on which a path leads to the same file are read alike. -/

/-- What a file says depends on what is found at its path and on nothing else. -/
theorem jsonLoader_eq_ok_iff {d : Disk} {p : Path} {value : Json.Value} :
    jsonLoader d p = .ok value ↔ ∃ data text, d.find? p = some (.file data) ∧
      data.text = some text ∧ Json.read text.toList = .ok value := by
  rw [jsonLoader, read, Disk.find?]
  cases d.locate p with
  | error fault => simp [bind, Except.bind, Except.toOption]
  | ok l =>
    obtain ⟨t, above⟩ := l
    cases t with
    | directory entries data => simp [bind, Except.bind, Except.toOption]
    | closed data => simp [bind, Except.bind, Except.toOption]
    | file data =>
      obtain ⟨text, size, modified⟩ := data
      -- a file whose bytes are no text cannot be read
      cases text with
      | none => simp [bind, Except.bind, Except.toOption]
      | some text =>
        simp only [bind, Except.bind, Except.toOption, Option.map_some]
        constructor
        · intro hvalue
          refine ⟨_, text, rfl, rfl, ?_⟩
          cases hread : Json.read text.toList with
          | error fault => rw [hread] at hvalue; exact absurd hvalue (by simp)
          | ok value' => rw [hread] at hvalue; exact congrArg _ (Except.ok.inj hvalue)
        · rintro ⟨data', text', hdata, htext, hread⟩
          obtain rfl := FileTree.file.inj (Option.some.inj hdata)
          obtain rfl := Option.some.inj htext
          rw [hread]

end LocaleKeys.Disk
