/-
The report on sources.

A missing key is shown with its place and with the line it is in, where a caret
stands below the place. The numbers of lines are aligned to the longest of
them, and so is what stands under them. The report ends with a summary.
-/
import LocaleKeys.Analysis.Completion
import LocaleKeys.Analysis.Resolution
import LocaleKeys.Files.Path
import LocaleKeys.Text.Width

set_option autoImplicit false

namespace LocaleKeys

/-- What came out of a source. -/
inductive FileOutcome where
  | analysed (path : Path) (source : String) (report : FileReport)
  | failed (path : Path) (message : String)
deriving Repr, DecidableEq, Inhabited

namespace FileOutcome

/-- The path of the source. -/
def path : FileOutcome → Path
  | analysed p _ _ => p
  | failed p _ => p

/-- The report on the source, if it could be analysed. -/
def report? : FileOutcome → Option FileReport
  | analysed _ _ r => some r
  | failed _ _ => none

end FileOutcome

/-! ## Summaries

The last line of a report counts, and says by its mark whether that is a good
end or a bad one. -/

/-- Totals over sources. -/
structure Summary where
  files : Nat := 0
  resolved : Nat := 0
  missing : Nat := 0
  failed : Nat := 0
deriving Repr, DecidableEq, Inhabited

namespace Summary

/-- The totals with one more source. -/
def add (s : Summary) (o : FileOutcome) : Summary :=
  match o.report? with
  | some r =>
    { s with
      files := s.files + 1
      resolved := s.resolved + r.resolved.length
      missing := s.missing + r.missing.length }
  | none => { s with files := s.files + 1, failed := s.failed + 1 }

/-- The totals over sources (`Summary::of`). -/
def of (outcomes : List FileOutcome) : Summary := outcomes.foldl add {}

/-- Every source could be analysed, and no key is missing. -/
def isFine (s : Summary) : Bool := s.missing == 0 && s.failed == 0

end Summary

namespace Report

/-- What marks a good end. -/
def successMark : String := "✓"

/-- What marks a bad end. -/
def failureMark : String := "✘"

/-- The word for one thing or for several. -/
def plural (n : Nat) (one several : String) : String := if n == 1 then one else several

/-- The line of the summary (`print_summary`). -/
def summaryLine (s : Summary) (locale : String) : String :=
  let checked := " Checked " ++ toString s.files ++ " source " ++ plural s.files "file" "files"
    ++ " against " ++ locale
  if s.isFine then
    successMark ++ checked ++ " - " ++ toString s.resolved ++ " "
      ++ plural s.resolved "key" "keys" ++ " resolved, none missing\n"
  else
    failureMark ++ checked ++ ": " ++ toString s.missing ++ " missing "
      ++ plural s.missing "key" "keys" ++ ", " ++ toString s.resolved ++ " resolved, "
      ++ toString s.failed ++ " unreadable\n"

/-! ## Lines of sources

A line is cut out of the text as it is shown: without the line feed, and
without one carriage return in front of that. -/

/-- A line without the carriage return that belongs to its end. -/
def withoutReturn (line : List Char) : List Char :=
  if line.getLast? == some '\r' then line.dropLast else line

/-- The lines of a text. A line ends at a line feed, or at the end of the text. -/
def linesOf (text : List Char) : List (List Char) :=
  let pieces := Text.pieces '\n' text
  let last := pieces.getLastD []
  pieces.dropLast.map withoutReturn ++ if last.isEmpty then [] else [last]

/-- So many blanks. Any number of them can be written here, where a formatter
may give up: some refuse a width above 65535 that is known at run time only,
and end the program. Places behind so wide a text are spoken of as if it went
on. -/
def blanks (n : Nat) : String := String.ofList (List.replicate n ' ')

/-- A text with blanks in front, so that it has at least so many characters. -/
def rightAligned (width : Nat) (text : String) : String := blanks (width - text.length) ++ text

/-! ## Entries

Each kind of entry is a text of its own, and what is said about a source is the
texts of its entries one after the other. -/

/-- The path as it is shown (`display_path`). -/
def shownPath (p : Path) : String := Text.replaced p.withoutDot.text "\\" "/"

/-- A path and a place in the file. -/
def shownPlace (file : String) (p : Text.Position) : String :=
  file ++ ":" ++ toString p.line ++ ":" ++ toString p.column

/-- The source line of an entry with a caret below, where the numbers of lines
have `gutter` characters. -/
def excerpt (gutter : Nat) (p : Text.Position) (line : List Char) : String :=
  let bar := blanks gutter ++ " |"
  bar ++ "\n"
    ++ rightAligned gutter (toString p.line) ++ " | " ++ String.ofList line ++ "\n"
    ++ bar ++ " " ++ blanks (Text.width (String.ofList (line.take (p.column - 1)))) ++ "^\n"

/-- What is said about a missing key (`print_missing`). -/
def missingBlock (gutter : Nat) (file source : String) (e : Entry) : String :=
  "error: " ++ e.text ++ "\n  --> " ++ shownPlace file e.position ++ "\n"
    ++ ((linesOf source.toList)[e.position.line - 1]?).elim "" (excerpt gutter e.position) ++ "\n"

/-- What is said about a key that has a text (`print_resolved`). -/
def resolvedLine (file : String) (e : Entry) : String :=
  successMark ++ " " ++ shownPlace file e.position ++ " " ++ e.key ++ " " ++ e.text ++ "\n"

/-- What is said about a source that could not be analysed. -/
def failedBlock (gutter : Nat) (p : Path) (message : String) : String :=
  "error: could not analyze " ++ shownPath p ++ "\n" ++ blanks gutter ++ " = " ++ message ++ "\n\n"

/-- What is said about a source. -/
def outcomeText (gutter : Nat) (showResolved : Bool) : FileOutcome → String
  | .analysed p source report =>
    let file := shownPath p
    String.join (report.missing.map (missingBlock gutter file source))
      ++ if showResolved then String.join (report.resolved.map (resolvedLine file)) else ""
  | .failed p message => failedBlock gutter p message

/-- How many characters the numbers of lines have (`calculate_max_line_width`). -/
def gutter (outcomes : List FileOutcome) : Nat :=
  let lines := (outcomes.filterMap (·.report?)).flatMap fun r => r.missing.map (·.position.line)
  lines.max?.elim 1 fun n => (toString n).length

/-- The outcomes in the order of their paths. -/
def arranged (outcomes : List FileOutcome) : List FileOutcome :=
  outcomes.mergeSort fun a b => a.path.compare b.path != .gt

/-- The report on sources (`report_to`). -/
def text (outcomes : List FileOutcome) (locale : String) (showResolved : Bool) : String :=
  String.join ((arranged outcomes).map (outcomeText (gutter outcomes) showResolved))
    ++ summaryLine (Summary.of outcomes) locale

/-- Keys with their texts, one on each line (`print_completions`). -/
def completionLines (completions : List Completion) : String :=
  let widest := (completions.map fun c => Text.width c.label).max?.getD 0
  String.join (completions.map fun c =>
    c.label ++ blanks (widest - Text.width c.label) ++ "  " ++ c.detail ++ "\n")

end Report

end LocaleKeys
