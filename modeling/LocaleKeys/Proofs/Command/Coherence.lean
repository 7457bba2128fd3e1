/-
What a report says, and that it does not contradict the status.

A report says one thing after the other (`Report.Block`): which keys are
missing in a source and, if it is asked to, which ones are resolved, or that
the source could not be analysed. What each of these looks like is laid down
here line by line (`Report.Block.lines`), apart from how the report is put
together, and the report is proved to consist of just these lines
(`Report.outcomeText_eq`).

Sources that are analysed side by side come out in any order. If no path is
among them twice, there is but one order of their paths, and the report keeps
to it. Its gutter and its totals are the same in every order, too, so that
nothing in the text tells one order from another.

The totals are counted apart from what is said, and so is the status. Both are
told here by counting blocks (`Report.text_coherent`).
-/
import LocaleKeys.Proofs.Command.Analysing
import LocaleKeys.Proofs.Files.Ordering

set_option autoImplicit false

namespace LocaleKeys.Report

variable {outcomes again : List FileOutcome}

/-! ## Blocks

The specification of a report is a list of blocks, and of each block the lines
that it takes. It is given apart from the functions that write the report:
`Block.lines` lists whole lines, while the report is put together from pieces
with line feeds in them. What a block says of a missing key is the warning, the
place that is pointed at, and the excerpt of the source if the line exists. -/

/-- One thing that a report says. -/
inductive Block where
  | missing (path : Path) (source : String) (entry : Entry)
  | resolved (path : Path) (entry : Entry)
  | failed (path : Path) (message : String)

namespace Block

/-- The lines that it takes, where the numbers of lines have `gutter`
characters. A missing key takes a headline and a line with its place, then the
line of the source with a bar above it and a caret below it, if the source has
that line, and an empty line at the end. A source that could not be analysed
takes a headline, the reason, and an empty line. What is resolved takes one
line. -/
def lines (gutter : Nat) : Block → List String
  | missing p source e =>
    let place := shownPath p ++ ":" ++ toString e.position.line ++ ":" ++ toString e.position.column
    let sourceLine := (linesOf source.toList)[e.position.line - 1]?
    ["error: " ++ e.text, "  --> " ++ place]
      ++ (sourceLine.elim [] fun line =>
        [blanks gutter ++ " |",
          rightAligned gutter (toString e.position.line) ++ " | " ++ String.ofList line,
          blanks gutter ++ " | " ++ blanks (Text.width (.ofList (line.take (e.position.column - 1)))) ++ "^"])
      ++ [""]
  | resolved p e =>
    let place := shownPath p ++ ":" ++ toString e.position.line ++ ":" ++ toString e.position.column
    ["✓ " ++ place ++ " " ++ e.key ++ " " ++ e.text]
  | failed p message =>
    ["error: could not analyze " ++ shownPath p, blanks gutter ++ " = " ++ message, ""]

/-- How it is said: each of its lines with a line feed at the end. -/
def text (gutter : Nat) (b : Block) : String := String.join ((b.lines gutter).map (· ++ "\n"))

/-- A key is missing. -/
def isMissing : Block → Bool
  | missing .. => true
  | _ => false

/-- A key has a text. -/
def isResolved : Block → Bool
  | resolved .. => true
  | _ => false

/-- A source could not be analysed. -/
def isFailed : Block → Bool
  | failed .. => true
  | _ => false

end Block

/-- The missing keys of a source, in their order. -/
def missingIn : FileOutcome → List Block
  | .analysed p source report => report.missing.map (.missing p source)
  | .failed _ _ => []

/-- The resolved keys of a source, in their order. -/
def resolvedIn : FileOutcome → List Block
  | .analysed p _ report => report.resolved.map (.resolved p)
  | .failed _ _ => []

/-- That a source could not be analysed, if so. -/
def failedIn : FileOutcome → List Block
  | .analysed _ _ _ => []
  | .failed p message => [.failed p message]

/-- What a report says about a source. -/
def blocksOf (showResolved : Bool) (o : FileOutcome) : List Block :=
  missingIn o ++ (if showResolved then resolvedIn o else []) ++ failedIn o

/-! ### What the report writes

Each piece of the report writes the lines of its block. The pieces are joined
from left to right and the lines one by one, so that this is a matter of where
the brackets stand.
-/

/-- A missing key is written as its block says. -/
theorem missingBlock_eq (gutter : Nat) (p : Path) (source : String) (e : Entry) :
    missingBlock gutter (shownPath p) source e = (Block.missing p source e).text gutter := by
  have hplace : "\n  --> " = "\n" ++ "  --> " := by decide +kernel
  have hbar : " | " = " |" ++ " " := by decide +kernel
  have hcaret : "^\n" = "^" ++ "\n" := by decide +kernel
  rw [missingBlock, Block.text, Block.lines]
  -- the line may be missing from the source, and then there is no excerpt
  cases (linesOf source.toList)[e.position.line - 1]? with
  | none =>
    simp only [shownPlace, Option.elim_none, List.append_nil, List.cons_append, List.nil_append,
      List.map_cons, List.map_nil, String.join_cons, String.join_nil, String.append_assoc, String.append_empty,
      String.empty_append, hplace]
  | some line =>
    simp only [shownPlace, excerpt, Option.elim_some, List.cons_append, List.nil_append, List.map_cons,
      List.map_nil, String.join_cons, String.join_nil, String.append_assoc, String.append_empty,
      String.empty_append, hplace, hbar, hcaret]

/-- A resolved key is written in one line. -/
theorem resolvedLine_eq (gutter : Nat) (p : Path) (e : Entry) :
    resolvedLine (shownPath p) e = (Block.resolved p e).text gutter := by
  have hmark : successMark ++ " " = "✓ " := by decide +kernel
  rw [resolvedLine, hmark, Block.text, Block.lines]
  simp only [shownPlace, List.map_cons, List.map_nil, String.join_cons, String.join_nil,
    String.append_assoc, String.append_empty]

/-- A source that could not be analysed is written as its block says. -/
theorem failedBlock_eq (gutter : Nat) (p : Path) (message : String) :
    failedBlock gutter p message = (Block.failed p message).text gutter := by
  have hend : message ++ "\n\n" = message ++ "\n" ++ "\n" := by
    rw [String.append_assoc]
    exact congrArg (message ++ ·) (by decide +kernel)
  unfold failedBlock Block.text Block.lines
  simp only [List.map_cons, List.map_nil, String.join_cons, String.join_nil, String.append_empty,
    String.empty_append, String.append_assoc] at hend ⊢
  rw [hend]

/-- What is said about a source is what its blocks say. -/
theorem outcomeText_eq (gutter : Nat) (showResolved : Bool) (o : FileOutcome) :
    outcomeText gutter showResolved o
      = String.join ((blocksOf showResolved o).map (Block.text gutter)) := by
  rw [blocksOf, List.map_append, List.map_append, String.join_append, String.join_append]
  cases o with
  | analysed p source report =>
    have hmissing : (missingIn (.analysed p source report)).map (Block.text gutter)
        = report.missing.map (missingBlock gutter (shownPath p) source) := by
      rw [missingIn, List.map_map]
      exact List.map_congr_left fun e _ => (missingBlock_eq gutter p source e).symm
    have hresolved : (resolvedIn (.analysed p source report)).map (Block.text gutter)
        = report.resolved.map (resolvedLine (shownPath p)) := by
      rw [resolvedIn, List.map_map]
      exact List.map_congr_left fun e _ => (resolvedLine_eq gutter p e).symm
    rw [outcomeText, hmissing]
    cases showResolved with
    | true => simp [hresolved, failedIn]
    | false => simp [failedIn]
  | failed p message => simp [outcomeText, missingIn, resolvedIn, failedIn, failedBlock_eq]

/-- Texts of several sources are the texts of all their blocks. -/
theorem join_outcomeText (gutter : Nat) (showResolved : Bool) (files : List FileOutcome) :
    String.join (files.map (outcomeText gutter showResolved))
      = String.join ((files.flatMap (blocksOf showResolved)).map (Block.text gutter)) := by
  induction files with
  | nil => rfl
  | cons o files ih =>
    rw [List.map_cons, String.join_cons, ih, outcomeText_eq, List.flatMap_cons, List.map_append,
      String.join_append]

/-! ### Blocks of one kind

A report mixes blocks of several kinds, file by file. Filtered by kind they are
the entries of that kind, in the order of the files, and what is counted in the
last line is compared with these lists. -/

/-- The blocks about missing keys are those of the missing keys. -/
theorem filter_isMissing_blocksOf (showResolved : Bool) (o : FileOutcome) :
    (blocksOf showResolved o).filter (·.isMissing) = missingIn o := by
  cases o <;> cases showResolved <;>
    simp [blocksOf, missingIn, resolvedIn, failedIn, List.filter_map, Function.comp_def,
      Block.isMissing]

/-- Those about resolved keys are there if they are shown. -/
theorem filter_isResolved_blocksOf (showResolved : Bool) (o : FileOutcome) :
    (blocksOf showResolved o).filter (·.isResolved) = if showResolved then resolvedIn o else [] := by
  cases o <;> cases showResolved <;>
    simp [blocksOf, missingIn, resolvedIn, failedIn, List.filter_map, Function.comp_def,
      Block.isResolved]

/-- Those about failures are those of failures. -/
theorem filter_isFailed_blocksOf (showResolved : Bool) (o : FileOutcome) :
    (blocksOf showResolved o).filter (·.isFailed) = failedIn o := by
  cases o <;> cases showResolved <;>
    simp [blocksOf, missingIn, resolvedIn, failedIn, List.filter_map, Function.comp_def,
      Block.isFailed]

/-! ## The order of the sources

Threads finish in any order, so that the outcomes come as some permutation.
They are sorted by path. If the paths are apart the sorted list is strictly
increasing, and two such lists with the same elements are equal. The gutter is
a maximum and the totals are sums, neither of which sees the order. -/

/-- Outcomes with distinct paths have increasing paths once they are arranged. -/
theorem increasing_arranged (hapart : Path.Apart (outcomes.map (·.path))) :
    Path.Increasing ((arranged outcomes).map (·.path)) := by
  have hsorted : (arranged outcomes).map (·.path) = Path.sorted (outcomes.map (·.path)) := by
    rw [arranged, Path.sorted]
    exact List.map_mergeSort fun a _ b _ => rfl
  have hperm : (Path.sorted (outcomes.map (·.path))).Perm (outcomes.map (·.path)) :=
    List.mergeSort_perm _ _
  rw [hsorted]
  have hapart' : Path.Apart (Path.sorted (outcomes.map (·.path))) :=
    hperm.symm.pairwise hapart fun h => by rwa [Path.same_comm]
  -- sorted and apart is strictly sorted
  refine (hapart'.and (Path.pairwise_sorted _)).imp fun ⟨hne, hle⟩ => ?_
  exact (Ordering.isLE_iff_eq_lt_or_eq_eq.mp hle).resolve_right fun heq =>
    hne (Path.compare_eq_iff.mp heq)

/-- **There is but one order** in which the paths of outcomes increase. No two
of the paths are on a level then, so that of any two outcomes one has to come
first. -/
theorem eq_of_perm_of_increasing {files files' : List FileOutcome} (hperm : files.Perm files')
    (h : Path.Increasing (files.map (·.path))) (h' : Path.Increasing (files'.map (·.path))) :
    files = files' := by
  refine hperm.eq_of_pairwise ?_ (List.pairwise_map.mp h) (List.pairwise_map.mp h')
  intro o o' _ _ hlt hgt
  exact absurd hgt (Std.OrientedCmp.not_lt_of_lt hlt)

/-- The same outcomes are arranged in the same way. -/
theorem arranged_eq_of_perm (hperm : again.Perm outcomes)
    (hapart : Path.Apart (outcomes.map (·.path))) : arranged again = arranged outcomes := by
  have hapart' : Path.Apart (again.map (·.path)) :=
    (hperm.symm.map _).pairwise hapart fun h => by rwa [Path.same_comm]
  have harranged : (arranged again).Perm (arranged outcomes) :=
    (List.mergeSort_perm _ _).trans (hperm.trans (List.mergeSort_perm _ _).symm)
  exact eq_of_perm_of_increasing harranged (increasing_arranged hapart') (increasing_arranged hapart)

theorem max?_eq_of_perm {lines lines' : List Nat} (hperm : lines.Perm lines') :
    lines.max? = lines'.max? := by
  refine Option.ext fun n => ?_
  simp only [List.max?_eq_some_iff, hperm.mem_iff]

theorem gutter_eq_of_perm (hperm : again.Perm outcomes) : gutter again = gutter outcomes := by
  rw [gutter, gutter, max?_eq_of_perm ((hperm.filterMap _).flatMap_right _)]

theorem summary_eq_of_perm (hperm : again.Perm outcomes) : Summary.of again = Summary.of outcomes := by
  rw [Summary.of_eq, Summary.of_eq, hperm.length_eq, (hperm.map _).sum_nat, (hperm.map _).sum_nat,
    hperm.countP_eq]

/-! ## Totals

The totals are counted from the outcomes, and the blocks are listed from them.
Both go over the same outcomes, and what they find in each has the same
number. -/

/-- The totals of what is said about sources. -/
def totals (files : List FileOutcome) : Summary where
  files := files.length
  resolved := (files.flatMap resolvedIn).length
  missing := (files.flatMap missingIn).length
  failed := (files.flatMap failedIn).length

/-- **The totals count blocks.** The numbers of entries that the totals add up
are the numbers of blocks of the same sources. -/
theorem summary_eq_totals (files : List FileOutcome) : Summary.of files = totals files := by
  have hresolved : ∀ o : FileOutcome, o.report?.elim 0 (·.resolved.length) = (resolvedIn o).length := by
    intro o
    cases o <;> simp [FileOutcome.report?, resolvedIn]
  have hmissing : ∀ o : FileOutcome, o.report?.elim 0 (·.missing.length) = (missingIn o).length := by
    intro o
    cases o <;> simp [FileOutcome.report?, missingIn]
  have hfailed : files.countP (·.report?.isNone) = (files.flatMap failedIn).length := by
    induction files with
    | nil => rfl
    | cons o files ih =>
      rw [List.countP_cons, List.flatMap_cons, List.length_append, ih, Nat.add_comm]
      cases o <;> rfl
  rw [Summary.of_eq, totals, List.length_flatMap, List.length_flatMap, hfailed]
  simp only [hresolved, hmissing]

/-! ## The summary

The last line is one of two. They begin with different marks, so that the line
tells which one it is. Both the line and the status ask the same two totals,
and this is the only connection between what is printed and the exit code. -/

/-- The line that says that no key is missing. -/
def successLine (files resolved : Nat) (locale : String) : String :=
  successMark ++ (" Checked " ++ toString files ++ " source " ++ plural files "file" "files" ++ " against "
    ++ locale ++ " - " ++ toString resolved ++ " " ++ plural resolved "key" "keys"
    ++ " resolved, none missing\n")

/-- The line that says how much is amiss. -/
def failureLine (s : Summary) (locale : String) : String :=
  failureMark ++ (" Checked " ++ toString s.files ++ " source " ++ plural s.files "file" "files"
    ++ " against " ++ locale ++ ": " ++ toString s.missing ++ " missing "
    ++ plural s.missing "key" "keys" ++ ", " ++ toString s.resolved ++ " resolved, "
    ++ toString s.failed ++ " unreadable\n")

/-- The two lines differ in their marks. -/
theorem failureLine_ne_successLine (s : Summary) (files resolved : Nat) (locale : String) :
    failureLine s locale ≠ successLine files resolved locale := by
  intro h
  have hsuccess : ∀ rest, (successMark ++ rest).toList = '✓' :: rest.toList := fun rest =>
    String.toList_append
  have hfailure : ∀ rest, (failureMark ++ rest).toList = '✘' :: rest.toList := fun rest =>
    String.toList_append
  have hlists := congrArg String.toList h
  rw [failureLine, successLine, hsuccess, hfailure] at hlists
  exact absurd (List.head_eq_of_cons_eq hlists) (by decide)

/-- The last line says that all is well, or what is amiss. -/
theorem summaryLine_eq (s : Summary) (locale : String) :
    summaryLine s locale = if s.isFine then successLine s.files s.resolved locale
      else failureLine s locale := by
  rw [summaryLine, successLine, failureLine]
  simp only [String.append_assoc]

/-- The line of the summary is the good one exactly if all is well. -/
theorem summaryLine_eq_successLine_iff (s : Summary) (locale : String) :
    summaryLine s locale = successLine s.files s.resolved locale ↔ s.isFine = true := by
  rw [summaryLine_eq]
  cases s.isFine with
  | true => simp
  | false => simpa using failureLine_ne_successLine s _ _ locale

/-- The status is told from the totals as the summary is. -/
theorem statusOf_eq_success_iff : statusOf outcomes = .success ↔ (Summary.of outcomes).isFine = true := by
  rw [statusOf, Summary.isFine]
  split
  · next hfailed => simpa using fun _ => Nat.ne_of_gt hfailed
  · next hfailed =>
    split
    · next hmissing => simpa using fun h : _ = 0 => absurd h (Nat.ne_of_gt hmissing)
    · next hmissing => simpa using ⟨Nat.eq_zero_of_not_pos hmissing, Nat.eq_zero_of_not_pos hfailed⟩

/-- **The report in any order, and its status.** Outcomes with distinct paths
are reported alike in whatever order they come. A report goes through the
sources in the order of their paths: a block for each key that is missing, in
the order of the source, if asked a line for each one that is resolved, and a
block for each source that could not be analysed. The totals in its last line
are how many of them there are, and that line says that all is well exactly if
the status does. -/
theorem text_coherent (hapart : Path.Apart (outcomes.map (·.path))) (locale : String)
    (showResolved : Bool) :
    (∀ again : List FileOutcome, again.Perm outcomes →
      text again locale showResolved = text outcomes locale showResolved) ∧
    ∃ files : List FileOutcome, files.Perm outcomes ∧ Path.Increasing (files.map (·.path)) ∧
      ∃ (blocks : List Block) (last : String),
        blocks = files.flatMap (blocksOf showResolved) ∧
        blocks.filter (·.isMissing) = files.flatMap missingIn ∧
        blocks.filter (·.isFailed) = files.flatMap failedIn ∧
        blocks.filter (·.isResolved) = (if showResolved then files.flatMap resolvedIn else []) ∧
        text outcomes locale showResolved
          = String.join (blocks.map (Block.text (gutter outcomes))) ++ last ∧
        last = (if statusOf outcomes = .success
          then successLine files.length (files.flatMap resolvedIn).length locale
          else failureLine
            { files := files.length
              resolved := (files.flatMap resolvedIn).length
              missing := (blocks.filter (·.isMissing)).length
              failed := (blocks.filter (·.isFailed)).length } locale) ∧
        (last = successLine files.length (files.flatMap resolvedIn).length locale
          ↔ statusOf outcomes = .success) := by
  refine ⟨fun again hperm => ?_, arranged outcomes, List.mergeSort_perm _ _, increasing_arranged hapart, ?_⟩
  · rw [text, text, arranged_eq_of_perm hperm hapart, gutter_eq_of_perm hperm, summary_eq_of_perm hperm]
  -- each kind of block, picked from the whole listing, is what the files have
  -- of that kind in their order
  have hmissing : ((arranged outcomes).flatMap (blocksOf showResolved)).filter (·.isMissing)
      = (arranged outcomes).flatMap missingIn := by
    simp only [List.filter_flatMap, filter_isMissing_blocksOf]
  have hfailed : ((arranged outcomes).flatMap (blocksOf showResolved)).filter (·.isFailed)
      = (arranged outcomes).flatMap failedIn := by
    simp only [List.filter_flatMap, filter_isFailed_blocksOf]
  have hresolved : ((arranged outcomes).flatMap (blocksOf showResolved)).filter (·.isResolved)
      = if showResolved then (arranged outcomes).flatMap resolvedIn else [] := by
    simp only [List.filter_flatMap, filter_isResolved_blocksOf]
    cases showResolved <;> simp
  have htotals : Summary.of outcomes = totals (arranged outcomes) := by
    rw [← summary_eq_totals]
    exact (summary_eq_of_perm (List.mergeSort_perm _ _)).symm
  refine ⟨_, summaryLine (Summary.of outcomes) locale, rfl, hmissing, hfailed, hresolved, ?_, ?_, ?_⟩
  · rw [text, join_outcomeText]
  · rw [summaryLine_eq, hmissing, hfailed]
    simp only [statusOf_eq_success_iff, htotals]
    rfl
  · rw [statusOf_eq_success_iff, ← summaryLine_eq_successLine_iff _ locale, htotals]
    rfl

/-- A source that could not be read is reported in front of one with a missing
key, although it came out after it. -/
theorem text_coherent_of_late :
    let report : FileReport :=
      { uri := "src/b.ts", version := 0, locale := "de", resolved := []
        missing := [⟨"k", ⟨1, 19⟩, "missing key: k"⟩] }
    let late : List FileOutcome :=
      [.analysed ⟨"src/b.ts"⟩ "let t=useI18n();t('k')" report, .failed ⟨"src//a.ts"⟩ "not found"]
    Path.Apart (late.map (·.path)) ∧ text late.reverse "de" true = text late "de" true ∧
      text late "de" true
        = "error: could not analyze src//a.ts\n  = not found\n\n"
          ++ "error: missing key: k\n  --> src/b.ts:1:19\n  |\n1 | let t=useI18n();t('k')\n"
          ++ "  |                   ^\n\n"
          ++ "✘ Checked 2 source files against de: 1 missing key, 0 resolved, 1 unreadable\n" := by
  intro report late
  have hapart : Path.Apart (late.map (·.path)) := by decide +kernel
  obtain ⟨hperm, files, hfiles, hincreasing, blocks, last, hblocks, -, -, -, htext, hlast, -⟩ :=
    text_coherent hapart "de" true
  -- there is only one order of the two paths
  obtain rfl : files = late.reverse :=
    eq_of_perm_of_increasing (hfiles.trans (List.reverse_perm late).symm) hincreasing (by decide +kernel)
  rw [if_neg (by decide)] at hlast
  refine ⟨hapart, hperm _ (List.reverse_perm _), ?_⟩
  rw [htext, hlast, hblocks]
  decide +kernel

end LocaleKeys.Report
