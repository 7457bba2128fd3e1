/-
How paths go on, and what is below a directory.

What is inside of a directory is found under paths that go on from that of the
directory as it is written. So one and the same file has different paths,
depending on how the directory is named. Seen from the place where the program
runs they are the same places (`Disk.find?_under`), and what is inside is seen
alike (`FileTree.Proper.inside_under`). Wherever a path leads, one that goes on
from it leads on from there (`Disk.locate_join_bind`).

In a directory names are told apart, and none of them has a slash in it
(`FileTree.Proper`). Then no two paths inside are the same, so that a search by
path finds each file once.
-/
import LocaleKeys.Proofs.Files.Leading
import LocaleKeys.Proofs.Files.Sameness
import LocaleKeys.Proofs.Glob.Steps

set_option autoImplicit false

namespace LocaleKeys

namespace Path

/-! ## Steps and pieces

A path is a text. Its pieces are what stands between slashes, empty ones
included, and its steps are what these mean: the first piece may be the root or
a dot, all others are names or lead up, and idle pieces are dropped. Equations
about joining are proved for pieces first, since that is where slashes are
counted. -/

/-- The step that the first piece of a path is. -/
def firstStep (piece : String) : Step :=
  if piece = "" then .root else if piece = "." then .here else stepOf piece

theorem pieces_ne_nil (p : Path) : p.pieces ≠ [] := by
  rw [pieces, Text.piecesOf]
  exact fun h => Text.pieces_ne_nil _ _ (List.map_eq_nil_iff.mp h)

/-- Only the empty path has nothing but an empty piece. -/
theorem text_eq_of_pieces {p : Path} (h : p.pieces = [""]) : p.text = "" := by
  obtain ⟨piece, hpiece, hempty⟩ := List.map_eq_singleton_iff.mp h
  have hnil : piece = [] := String.ofList_eq_empty_iff.mp hempty
  rw [hnil] at hpiece
  apply String.toList_eq_nil_iff.mp
  cases hlist : p.text.toList with
  | nil => rfl
  | cons c r =>
    rw [hlist, Text.pieces] at hpiece
    by_cases hc : (c == '/') = true
    · rw [if_pos hc] at hpiece
      exact absurd (List.cons.inj hpiece).2 (Text.pieces_ne_nil '/' r)
    · rw [if_neg hc] at hpiece
      split at hpiece
      · exact absurd (List.cons.inj hpiece).1 (by simp)
      · exact absurd (List.cons.inj hpiece).1 (by simp)

/-- The first piece is a step of its own kind, and all others are alike. -/
theorem steps_of_pieces {p : Path} (hp : p.text ≠ "") {first : String} {rest : List String}
    (hpieces : p.pieces = first :: rest) : p.steps = firstStep first :: stepsOf rest := by
  rw [steps, hpieces, firstStep]
  dsimp only
  by_cases hempty : first = ""
  · have hrest : ¬ rest.isEmpty = true := by
      intro hnil
      rw [hempty, List.isEmpty_iff.mp hnil] at hpieces
      exact hp (text_eq_of_pieces hpieces)
    rw [if_pos (by simpa using hempty), if_pos hempty, if_neg hrest]
  · rw [if_neg (by simpa using hempty), if_neg hempty]
    by_cases hdot : first = "."
    · rw [if_pos (by simpa using hdot), if_pos hdot]
    · rw [if_neg (by simpa using hdot), if_neg hdot]

theorem stepsOf_append (pieces more : List String) :
    stepsOf (pieces ++ more) = stepsOf pieces ++ stepsOf more := by
  rw [stepsOf, List.filter_append, List.map_append]
  rfl

/-- The steps of a path, without the one to the root and without a dot in
front. -/
def way (p : Path) : List Step := stepsOf p.pieces

/-! ## Going on

What `join` does to the text, to its pieces and to its steps. A slash at the
end is used and not doubled, which shows in the pieces (an empty one less) but
not in the steps. Only what is relative is joined here; an absolute text would
replace the path. -/

section

variable {p : Path} (hp : p.text ≠ "") {text : String} (htext : (Path.mk text).isAbsolute = false)
include hp htext

/-- How a path goes on. A slash that is there already is used. -/
theorem join_text : (p.join text).text
    = if p.text.toList.getLast? = some '/' then p.text ++ text else p.text ++ "/" ++ text := by
  have hempty : p.text.isEmpty = false := by simpa using hp
  rw [join, htext, hempty]
  simp only [Bool.or_self, Bool.false_eq_true, if_false, beq_iff_eq]
  split <;> rfl

/-- A path goes on from where it starts. -/
theorem head?_join : (p.join text).text.toList.head? = p.text.toList.head? := by
  obtain ⟨c, r, hlist⟩ : ∃ c r, p.text.toList = c :: r :=
    List.exists_cons_of_ne_nil fun hnil => hp (String.toList_eq_nil_iff.mp hnil)
  rw [join_text hp htext]
  split <;> simp [hlist]

/-- What goes on is not empty. -/
theorem text_join_ne : (p.join text).text ≠ "" := by
  intro hempty
  have hhead := head?_join hp htext
  rw [hempty] at hhead
  exact hp (String.toList_eq_nil_iff.mp (List.head?_eq_none_iff.mp hhead.symm))

/-- It starts at the root if the path did. -/
theorem isAbsolute_join : (p.join text).isAbsolute = p.isAbsolute := by
  rw [isAbsolute, isAbsolute, head?_join hp htext]

/-- The pieces of what the path goes on by come last. -/
theorem pieces_join : ∃ front, front ≠ [] ∧ (p.join text).pieces = front ++ (Path.mk text).pieces ∧
    (p.pieces = front ∨ p.pieces = front ++ [""]) := by
  rw [pieces, pieces, pieces, Text.piecesOf, Text.piecesOf, Text.piecesOf, join_text hp htext]
  by_cases hlast : p.text.toList.getLast? = some '/'
  · -- the path ends in a slash, behind which there was an empty piece
    obtain ⟨front, hfront⟩ := List.getLast?_eq_some_iff.mp hlast
    rw [if_pos hlast, String.toList_append, hfront, List.append_assoc, List.singleton_append,
      Text.pieces_append, Text.pieces_append]
    refine ⟨(Text.pieces '/' front).map String.ofList, ?_, List.map_append, .inr ?_⟩
    · exact fun hnil => Text.pieces_ne_nil _ _ (List.map_eq_nil_iff.mp hnil)
    · rw [List.map_append]
      rfl
  -- otherwise the slash is added, and all pieces stay
  · rw [if_neg hlast, String.toList_append, String.toList_append,
      show "/".toList = ['/'] from rfl, List.append_assoc, List.singleton_append,
      Text.pieces_append]
    exact ⟨_, p.pieces_ne_nil, List.map_append, .inl rfl⟩

/-- The way grows by the way of what is joined. -/
theorem way_join : (p.join text).way = p.way ++ (Path.mk text).way := by
  obtain ⟨front, -, hjoined, hpieces⟩ := pieces_join hp htext
  have hway : p.way = stepsOf front := by
    rcases hpieces with hpieces | hpieces
    · rw [way, hpieces]
    · rw [way, hpieces, stepsOf_append]
      exact List.append_nil _
  rw [way, hjoined, stepsOf_append, hway, way]

/-- A path begins as before when it goes on. -/
theorem head?_pieces_join : (p.join text).pieces.head? = p.pieces.head? := by
  obtain ⟨front, hfront, hjoined, hpieces⟩ := pieces_join hp htext
  obtain ⟨first, rest, rfl⟩ := List.exists_cons_of_ne_nil hfront
  rw [hjoined]
  rcases hpieces with hpieces | hpieces <;> rw [hpieces] <;> rfl

/-- **To go on** is to take more steps. The slash that joining puts in, and an
empty piece that a slash at the end of the path leaves, are no steps. -/
theorem steps_join : (p.join text).steps = p.steps ++ (Path.mk text).way := by
  obtain ⟨front, hfront, hjoined, hpieces⟩ := pieces_join hp htext
  obtain ⟨first, rest, rfl⟩ := List.exists_cons_of_ne_nil hfront
  rw [List.cons_append] at hjoined
  have hsteps := steps_of_pieces (text_join_ne hp htext) hjoined
  rw [stepsOf_append] at hsteps
  rw [hsteps, way]
  rcases hpieces with hpieces | hpieces
  · rw [steps_of_pieces hp hpieces, List.cons_append]
  · rw [List.cons_append] at hpieces
    rw [steps_of_pieces hp hpieces, stepsOf_append, show stepsOf [""] = [] from rfl,
      List.append_nil, List.cons_append]

end

/-! ## Names of entries

A name of an entry is one step down and nothing else: it is not idle, does not
lead up and holds no slash. -/

/-- The text is the name of something in a directory. -/
def IsEntryName (name : String) : Prop := Disk.Location.IsName name ∧ '/' ∉ name.toList

instance (name : String) : Decidable (IsEntryName name) :=
  inferInstanceAs (Decidable ((isIdle name = false ∧ name ≠ "..") ∧ '/' ∉ name.toList))

/-- A name is relative. -/
theorem IsEntryName.isAbsolute {name : String} (h : IsEntryName name) :
    (Path.mk name).isAbsolute = false := by
  rw [Path.isAbsolute, beq_eq_false_iff_ne]
  exact fun hhead => h.2 (List.mem_of_mem_head? hhead)

/-- It is one step down. -/
theorem IsEntryName.way_eq {name : String} (h : IsEntryName name) :
    (Path.mk name).way = [.down name] := by
  rw [way, pieces, Text.piecesOf, Text.pieces_of_notMem h.2, List.map_singleton,
    String.ofList_toList, stepsOf, List.filter_cons_of_pos (by rw [h.1.1]; rfl), List.filter_nil,
    List.map_singleton, stepOf, if_neg (by simpa using h.1.2)]

/-- To go on by a name is to take one more step. -/
theorem steps_join_name {p : Path} (hp : p.text ≠ "") {name : String} (hname : IsEntryName name) :
    (p.join name).steps = p.steps ++ [.down name] := by
  rw [steps_join hp hname.isAbsolute, hname.way_eq]

section

variable {p : Path} (hp : p.text ≠ "") {names : List String}
  (hnames : ∀ name ∈ names, IsEntryName name)
include hp hnames

/-- To go on by names is to take these steps. -/
theorem steps_foldl_join :
    (names.foldl join p).steps = p.steps ++ names.map .down ∧
      (names.foldl join p).way = p.way ++ names.map .down := by
  induction names generalizing p with
  | nil => exact ⟨(List.append_nil p.steps).symm, (List.append_nil p.way).symm⟩
  | cons name names ih =>
    obtain ⟨hname, hnames⟩ := List.forall_mem_cons.mp hnames
    obtain ⟨hsteps, hway⟩ := ih (text_join_ne hp hname.isAbsolute) hnames
    refine ⟨hsteps.trans ?_, hway.trans ?_⟩
    · rw [steps_join_name hp hname, List.append_assoc]
      rfl
    · rw [way_join hp hname.isAbsolute, hname.way_eq, List.append_assoc]
      rfl

/-- Names do not change how a path begins. -/
theorem head?_pieces_foldl_join : (names.foldl join p).pieces.head? = p.pieces.head? := by
  induction names generalizing p with
  | nil => rfl
  | cons name names ih =>
    obtain ⟨hname, hnames⟩ := List.forall_mem_cons.mp hnames
    rw [List.foldl_cons, ih (text_join_ne hp hname.isAbsolute) hnames,
      head?_pieces_join hp hname.isAbsolute]

end

/-- The name that was joined last is the name of the file. -/
theorem fileName?_join {p : Path} (hp : p.text ≠ "") {name : String} (hname : IsEntryName name) :
    (p.join name).fileName? = some name := by
  rw [fileName?, steps_join_name hp hname, List.getLast?_concat]

/-! ## Seen from elsewhere

The same file has another path when the directory that the program runs in is
named. `under` is what a path becomes then. It commutes with going on, and so
nothing that is told of what is inside depends on how the directory was
named. -/

/-- The path says something, and it starts where the program runs. -/
def Relative (p : Path) : Prop := p.text ≠ "" ∧ p.isAbsolute = false

instance (p : Path) : Decidable p.Relative :=
  inferInstanceAs (Decidable (p.text ≠ "" ∧ p.isAbsolute = false))

/-- The path where the place that it starts from has the path `root`. -/
def under (p root : Path) : Path := root.join p.text

section

variable {p root : Path} (hroot : root.text ≠ "") (hp : p.Relative)
include hroot hp

/-- As a text, a slash comes in between unless there is one. -/
theorem under_text : (p.under root).text
    = if root.text.toList.getLast? = some '/' then root.text ++ p.text
      else root.text ++ "/" ++ p.text := join_text hroot hp.2

/-- It is not empty. -/
theorem text_under_ne : (p.under root).text ≠ "" := text_join_ne hroot hp.2

/-- It takes the steps of both. -/
theorem steps_under : (p.under root).steps = root.steps ++ p.way := steps_join hroot hp.2

end

section

variable {p root : Path} (hroot : root.text ≠ "") (hp : p.Relative) {name : String}
  (hname : IsEntryName name)
include hp hname

/-- What goes on from a relative path is relative. -/
theorem Relative.join : (p.join name).Relative :=
  ⟨text_join_ne hp.1 hname.isAbsolute, (isAbsolute_join hp.1 hname.isAbsolute).trans hp.2⟩

include hroot

/-- **What a path goes on by** is the same from wherever it is seen. Joining
looks at the last character of the path alone, and that is the same with a root
in front. -/
theorem under_join : (p.under root).join name = (p.join name).under root := by
  have hlast : (p.under root).text.toList.getLast? = p.text.toList.getLast? := by
    obtain ⟨c, r, hlist⟩ : ∃ c r, p.text.toList = c :: r :=
      List.exists_cons_of_ne_nil fun hnil => hp.1 (String.toList_eq_nil_iff.mp hnil)
    rw [under_text hroot hp]
    split <;> simp [hlist, List.getLast?_cons]
  have htext : ((p.under root).join name).text = ((p.join name).under root).text := by
    rw [join_text (text_under_ne hroot hp) hname.isAbsolute, hlast, under_text hroot hp,
      under_text hroot (hp.join hname), join_text hp.1 hname.isAbsolute]
    split <;> split <;> simp only [String.append_assoc]
  exact congrArg Path.mk htext

end

/-- Also by several names. -/
theorem Relative.foldl_join {p : Path} (hp : p.Relative) {names : List String}
    (hnames : ∀ name ∈ names, IsEntryName name) : (names.foldl Path.join p).Relative := by
  induction names generalizing p with
  | nil => exact hp
  | cons name names ih =>
    obtain ⟨hname, hnames⟩ := List.forall_mem_cons.mp hnames
    exact ih (hp.join hname) hnames

/-- The kind of what names lead to is the same from wherever it is seen. -/
theorem extension?_under {p root : Path} (hroot : root.text ≠ "") (hp : p.Relative)
    {names : List String} (hnonempty : names ≠ []) (hnames : ∀ name ∈ names, IsEntryName name) :
    ((names.foldl join p).under root).extension? = (names.foldl join p).extension? := by
  obtain ⟨init, name, rfl⟩ := (List.eq_nil_or_concat names).resolve_left hnonempty
  rw [List.concat_eq_append] at hnames ⊢
  obtain ⟨hinit, hlast⟩ := List.forall_mem_append.mp hnames
  have hname := hlast name List.mem_cons_self
  have hfront := hp.foldl_join hinit
  rw [List.foldl_append, List.foldl_cons, List.foldl_nil, extension?, extension?,
    ← under_join hroot hfront hname,
    fileName?_join (text_under_ne hroot hfront) hname, fileName?_join hfront.1 hname]

end Path

/-! ## What is inside

`Proper` is the one assumption on trees: names in a directory are names, and no
two of them are equal. A file system guarantees it. From it follows that a name
leads to at most one thing, and that no two paths inside are the same, by the
first step in which they differ. -/

namespace FileTree

/-- In every directory names are told apart, and each of them is one. Of a
closed directory no names are seen. -/
inductive Proper : FileTree → Prop where
  | file (data : FileData) : Proper (.file data)
  | closed (data : DirectoryData) : Proper (.closed data)
  | directory {entries : List (String × FileTree)} {data : DirectoryData}
    (hnodup : (entries.map Prod.fst).Nodup) (hnames : ∀ e ∈ entries, Path.IsEntryName e.1)
    (hbelow : ∀ e ∈ entries, Proper e.2) : Proper (.directory entries data)

theorem Proper.empty {data : DirectoryData} : (FileTree.directory [] data).Proper :=
  .directory (by simp) (by simp) (by simp)

/-- A new name may be added. -/
theorem Proper.cons {name : String} {t : FileTree} {entries : List (String × FileTree)}
    {data : DirectoryData} (hname : Path.IsEntryName name) (hfresh : name ∉ entries.map Prod.fst)
    (ht : t.Proper) (h : (FileTree.directory entries data).Proper) :
    (FileTree.directory ((name, t) :: entries) data).Proper := by
  cases h with
  | directory hnodup hnames hbelow =>
    exact .directory (List.nodup_cons.mpr ⟨hfresh, hnodup⟩) (List.forall_mem_cons.mpr ⟨hname, hnames⟩)
      (List.forall_mem_cons.mpr ⟨ht, hbelow⟩)

/-- What is below is proper. -/
theorem Proper.child? {t below : FileTree} (h : t.Proper) {name : String}
    (hchild : t.child? name = some below) : below.Proper := by
  cases h with
  | file data => exact absurd hchild (by simp [FileTree.child?])
  | closed data => exact absurd hchild (by simp [FileTree.child?])
  | directory hnodup hnames hbelow =>
    obtain ⟨front, rest, hentries, -⟩ := List.lookup_eq_some_iff.mp hchild
    exact hbelow (name, below) (by rw [hentries]; simp)

/-- So is what is further below. -/
theorem Proper.at? {t below : FileTree} (h : t.Proper) {names : List String}
    (hat : t.at? names = some below) : below.Proper := by
  induction names generalizing t with
  | nil => exact Option.some.inj hat ▸ h
  | cons name names ih =>
    obtain ⟨t', hchild, hrest⟩ := Option.bind_eq_some_iff.mp hat
    exact ih (h.child? hchild) hrest

/-- **What is inside of a directory** is seen from where the directory is seen.
All paths inside are joined to that of the directory, one name at a time, and
the root stays in front of all of them. -/
theorem Proper.inside_under {t : FileTree} (h : t.Proper) {p root : Path} (hroot : root.text ≠ "")
    (hp : p.Relative) :
    t.inside (p.under root) = (t.inside p).map fun e => (e.1.under root, e.2) := by
  induction h generalizing p with
  | file data => rfl
  | closed data => rfl
  | @directory entries data hnodup hnames hbelow ih =>
    rw [inside, inside]
    clear hnodup hbelow
    induction entries with
    | nil => rfl
    | cons e entries ih' =>
      obtain ⟨name, t⟩ := e
      obtain ⟨hname, hnames⟩ := List.forall_mem_cons.mp hnames
      obtain ⟨ih, ihs⟩ := List.forall_mem_cons.mp ih
      rw [insideAll, insideAll, List.map_append, List.map_cons, Path.under_join hroot hp hname,
        ih (hp.join hname), ih' hnames ihs]

/-- **Everything inside of a directory** is reached by names, the first of
which is that of an entry. None of these names is a dot, two dots or empty,
since entries of a proper directory have proper names. -/
theorem Proper.exists_names {t : FileTree} (h : t.Proper) (p : Path) :
    ∀ e ∈ t.inside p, ∃ name ∈ t.entries.map Prod.fst, ∃ more,
      (∀ n ∈ name :: more, Path.IsEntryName n) ∧ e.1 = (name :: more).foldl Path.join p := by
  induction h generalizing p with
  | file data => exact fun e he => absurd he (by simp [inside])
  | closed data => exact fun e he => absurd he (by simp [inside])
  | @directory entries data hnodup hnames hbelow ih =>
    rw [inside, FileTree.entries]
    clear hnodup hbelow
    induction entries with
    | nil => exact fun e he => absurd he (by simp [insideAll])
    | cons e entries ih' =>
      obtain ⟨name, t⟩ := e
      obtain ⟨hname, hnames⟩ := List.forall_mem_cons.mp hnames
      obtain ⟨ih, ihs⟩ := List.forall_mem_cons.mp ih
      intro e he
      rcases List.mem_append.mp he with he | he
      · -- the entry itself is reached by its name alone, and what is inside of it by further ones
        refine ⟨name, List.mem_cons_self, ?_⟩
        rcases List.mem_cons.mp he with rfl | he
        · exact ⟨[], by simpa using hname, rfl⟩
        · obtain ⟨name', -, more, hmore, hpath⟩ := ih (p.join name) e he
          exact ⟨name' :: more, List.forall_mem_cons.mpr ⟨hname, hmore⟩, hpath⟩
      · obtain ⟨name', hname', hmore⟩ := ih' hnames ihs e he
        exact ⟨name', List.mem_cons_of_mem name hname', hmore⟩

/-- What is inside goes on from the directory by the name of an entry. -/
theorem Proper.steps_inside {t : FileTree} (h : t.Proper) {p : Path} (hp : p.text ≠ "") :
    ∀ e ∈ t.inside p, ∃ name ∈ t.entries.map Prod.fst, ∃ more,
      e.1.steps = p.steps ++ .down name :: more := by
  intro e he
  obtain ⟨name, hname, more, hnames, hpath⟩ := h.exists_names p e he
  exact ⟨name, hname, _, by rw [hpath, (Path.steps_foldl_join hp hnames).1, List.map_cons]⟩

/-- **No two paths inside of a directory are the same.** Two entries have
different names, and two paths in one entry are behind the same name and differ
further down. -/
theorem Proper.apart_inside {t : FileTree} (h : t.Proper) {p : Path} (hp : p.text ≠ "") :
    Path.Apart ((t.inside p).map Prod.fst) := by
  induction h generalizing p with
  | file data => exact List.Pairwise.nil
  | closed data => exact List.Pairwise.nil
  | @directory entries data hnodup hnames hbelow ih =>
    rw [inside]
    induction entries with
    | nil => exact List.Pairwise.nil
    | cons e entries ih' =>
      obtain ⟨name, t⟩ := e
      obtain ⟨hname, hnames⟩ := List.forall_mem_cons.mp hnames
      obtain ⟨ht, hbelow⟩ := List.forall_mem_cons.mp hbelow
      obtain ⟨ih, ihs⟩ := List.forall_mem_cons.mp ih
      obtain ⟨hfresh, hnodup⟩ := List.nodup_cons.mp hnodup
      have hjoin := Path.text_join_ne hp hname.isAbsolute
      rw [insideAll, List.map_append, Path.Apart, List.pairwise_append]
      refine ⟨?_, ih' hnodup hnames hbelow ihs, ?_⟩
      · rw [List.map_cons, List.pairwise_cons]
        refine ⟨fun q hq hsame => ?_, ih hjoin⟩
        -- what is inside of the entry is further on than the entry itself
        obtain ⟨e, he, rfl⟩ := List.mem_map.mp hq
        obtain ⟨name', -, more, hsteps⟩ := ht.steps_inside hjoin e he
        rw [Path.same_iff, hsteps, List.self_eq_append_right] at hsame
        exact absurd hsame (by simp)
      · intro q hq q' hq' hsame
        obtain ⟨e, he, rfl⟩ := List.mem_map.mp hq
        obtain ⟨e', he', rfl⟩ := List.mem_map.mp hq'
        have hsteps : ∃ more, e.1.steps = p.steps ++ .down name :: more := by
          rcases List.mem_cons.mp he with rfl | he
          · exact ⟨[], Path.steps_join_name hp hname⟩
          · obtain ⟨name', -, more, hsteps⟩ := ht.steps_inside hjoin e he
            rw [Path.steps_join_name hp hname, List.append_assoc] at hsteps
            exact ⟨_, hsteps⟩
        obtain ⟨more, hsteps⟩ := hsteps
        obtain ⟨name', hname', more', hsteps'⟩ :=
          (@Proper.directory _ data hnodup hnames hbelow).steps_inside hp e' he'
        rw [Path.same_iff, hsteps, hsteps', List.append_cancel_left_eq] at hsame
        obtain ⟨hnames, -⟩ := List.cons.inj hsame
        exact hfresh (Path.Step.down.inj hnames ▸ hname')

end FileTree

/-! ## What is at a path

From paths back to the disk. A path is followed from the root or from where the
program runs; joining follows the rest from where the front has led, which is
the same place however the front was spelled. -/

namespace Disk

variable {d : Disk} {p : Path} {t : FileTree}

/-- What is at a path is the tree where it leads. -/
theorem find?_eq_some_iff : d.find? p = some t ↔ ∃ l, d.locate p = .ok l ∧ l.tree = t := by
  rw [find?, Option.map_eq_some_iff]
  simp only [toOption_eq_some_iff]

/-- What is at a path is a part of the whole. -/
theorem exists_at?_of_find? (h : d.find? p = some t) : ∃ names, d.root.at? names = some t := by
  obtain ⟨l, hlocate, rfl⟩ := find?_eq_some_iff.mp h
  rw [locate_eq] at hlocate
  split at hlocate
  · exact nomatch hlocate
  · have hstands : Location.Stands d.root ⟨d.root, []⟩ := rfl
    exact ⟨_, (hstands.follow hlocate).at?⟩

/-- What is found is as proper as the disk. -/
theorem proper_of_find? (hproper : d.root.Proper) (h : d.find? p = some t) : t.Proper := by
  obtain ⟨names, hat⟩ := exists_at?_of_find? h
  exact hproper.at? hat

/-- The empty path leads nowhere. -/
theorem text_ne_of_locate {l : Location} (h : d.locate p = .ok l) : p.text ≠ "" := by
  intro hempty
  rw [locate_eq, hempty] at h
  exact nomatch h

/-- **To go on from a path** is to go on from where it leads, whether it leads
anywhere or not. If the path leads nowhere, then neither does the longer one,
for the same reason. -/
theorem locate_join_bind {text : String} (hp : p.text ≠ "") (htext : (Path.mk text).isAbsolute = false) :
    d.locate (p.join text) = (d.locate p).bind (·.follow (Path.mk text).pieces) := by
  obtain ⟨front, hfront, hjoined, hpieces⟩ := Path.pieces_join hp htext
  obtain ⟨first, rest, rfl⟩ := List.exists_cons_of_ne_nil hfront
  -- the way to the place, but for an empty piece at its end
  let way := if p.isAbsolute then rest else d.working ++ (first :: rest)
  have hroute : d.route (p.join text) = way ++ (Path.mk text).pieces := by
    rw [route, Path.isAbsolute_join hp htext, hjoined]
    simp only [way]
    split
    · rfl
    · rw [List.append_assoc]
  have hroute' : d.route p = way ∨ d.route p = way ++ [""] := by
    rw [route]
    simp only [way]
    rcases hpieces with hpieces | hpieces
    · exact .inl (by rw [hpieces]; rfl)
    · refine .inr ?_
      rw [hpieces]
      split
      · rfl
      · rw [List.append_assoc]
  rw [locate_eq, if_neg (by simpa using Path.text_join_ne hp htext), hroute, Location.follow_append,
    locate_eq, if_neg (by simpa using hp)]
  -- a slash at the end adds an idle piece, which may be left out in front of
  -- what follows
  rcases hroute' with hroute' | hroute' <;> rw [hroute']
  rw [Location.follow_append]
  cases (Location.mk d.root []).follow way with
  | error fault => rfl
  | ok l =>
    show l.follow (Path.mk text).pieces = (l.follow [""]).bind (·.follow (Path.mk text).pieces)
    rw [← Location.follow_append]
    exact (Location.follow_idle (by simp [Path.isIdle]) (Path.mk text).pieces_ne_nil l).symm

/-- To go on from a place is to start there. -/
theorem locate_join {l : Location} (hlocate : d.locate p = .ok l) {text : String}
    (htext : (Path.mk text).isAbsolute = false) :
    d.locate (p.join text) = l.follow (Path.mk text).pieces := by
  rw [locate_join_bind (text_ne_of_locate hlocate) htext, hlocate]
  rfl

/-- **Seen from where the program runs** everything is in its place. The root
is a path to the directory in which a relative path is followed, and so it
makes no difference if it is written in front. -/
theorem find?_under {root : Path} (hroot : d.locate root = d.locate ⟨"."⟩) (hp : p.Relative)
    (h : d.find? p = some t) : root.text ≠ "" ∧ d.find? (p.under root) = some t := by
  obtain ⟨l, hlocate, htree⟩ := find?_eq_some_iff.mp h
  rw [locate_eq, if_neg (by simpa using hp.1), route, hp.2, if_neg Bool.false_ne_true,
    Location.follow_append] at hlocate
  obtain ⟨start, hstart, hfollow⟩ := bind_eq_ok_iff.mp hlocate
  -- the first step of the path is taken in an open directory, which is where
  -- the program runs
  obtain ⟨first, rest, hpieces⟩ := List.exists_cons_of_ne_nil p.pieces_ne_nil
  rw [hpieces] at hfollow
  obtain ⟨l', hstep, -⟩ := Location.follow_cons_eq_ok hfollow
  have hopen := Location.isOpen_of_step hstep
  have hhere : d.locate root = .ok start := by
    rw [hroot, locate_eq, if_neg (by decide), route, if_neg (by decide), Location.follow_append, hstart]
    show start.follow ["."] = _
    rw [Location.follow_cons, Location.step_idle hopen rfl]
    rfl
  refine ⟨text_ne_of_locate hhere, find?_eq_some_iff.mpr ⟨l, ?_, htree⟩⟩
  rw [Path.under, locate_join hhere hp.2]
  show start.follow p.pieces = _
  rw [hpieces]
  exact hfollow

end Disk

end LocaleKeys
