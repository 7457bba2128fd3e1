/-
What a report says without the texts of keys.

Unless it is asked to, a report shows no texts of resolved keys, only how many
of them there are. So it can be told from outcomes without the words of the
texts (`Report.text_wordless`), and sessions whose messages have the same keys
get the same report (`Project.text_outcomes_eq`).

The functions that make up a report are gone through one by one. Each asks an
outcome for its path, its missing keys, or the number of its resolved keys, and
none of these is changed where the words are taken out.
-/
import LocaleKeys.Command.Project
import LocaleKeys.Proofs.Analysis.Classifying

set_option autoImplicit false

namespace LocaleKeys

/-- The outcome without the words of texts. -/
def FileOutcome.wordless : FileOutcome → FileOutcome
  | .analysed p source report => .analysed p source report.wordless
  | .failed p message => .failed p message

namespace Report

variable (outcomes : List FileOutcome)

theorem path_wordless (o : FileOutcome) : o.wordless.path = o.path := by
  cases o <;> rfl

theorem arranged_wordless :
    arranged (outcomes.map (·.wordless)) = (arranged outcomes).map (·.wordless) := by
  rw [arranged, arranged, List.map_mergeSort]
  intro a _ b _
  rw [path_wordless, path_wordless]

/-- What is said of a source stays, as nothing is said of its resolved keys. -/
theorem outcomeText_wordless (gutter : Nat) (o : FileOutcome) :
    outcomeText gutter false o.wordless = outcomeText gutter false o := by
  cases o <;> rfl

/-- The gutter is that of the missing keys. -/
theorem gutter_wordless : gutter (outcomes.map (·.wordless)) = gutter outcomes := by
  have hmissing : ∀ o : FileOutcome, o.wordless.report?.map (·.missing) = o.report?.map (·.missing) := by
    intro o
    cases o <;> rfl
  have hlines : ∀ outcomes : List FileOutcome,
      (outcomes.filterMap (·.report?)).flatMap (fun r => r.missing.map (·.position.line))
        = (outcomes.filterMap fun o => o.report?.map (·.missing)).flatMap
            fun missing => missing.map (·.position.line) := by
    intro outcomes
    rw [← List.map_filterMap, List.flatMap_map]
  rw [gutter, gutter, hlines, hlines, List.filterMap_map]
  simp only [Function.comp_def, hmissing]

/-- The totals count entries and read none. -/
theorem add_wordless (s : Summary) (o : FileOutcome) : s.add o.wordless = s.add o := by
  cases o with
  | analysed p source report =>
    simp only [FileOutcome.wordless, Summary.add, FileOutcome.report?, FileReport.wordless,
      List.length_map]
  | failed p message => rfl

theorem summary_wordless : Summary.of (outcomes.map (·.wordless)) = Summary.of outcomes := by
  rw [Summary.of, Summary.of, List.foldl_map]
  simp only [add_wordless]

/-- **A report without texts** is told from the outcomes without the words of
the texts. -/
theorem text_wordless (locale : String) :
    text (outcomes.map (·.wordless)) locale false = text outcomes locale false := by
  rw [text, text, arranged_wordless, gutter_wordless, summary_wordless, List.map_map]
  congr 2
  exact List.map_congr_left fun o _ => outcomeText_wordless _ o

end Report

namespace Project

variable {p p' : Project}

/-- What comes out of a source, but for the words of texts. -/
theorem wordless_outcome (hsettings : p'.session.settings = p.session.settings)
    (hlocale : p'.session.locale = p.session.locale)
    (hkeys : p.session.settings.enabled = true →
      p.session.messages.SameKeys p'.session.messages) (d : Disk) (path : Path) :
    (p.outcome d path).wordless = (p'.outcome d path).wordless := by
  rw [outcome, outcome]
  cases d.read path with
  | error fault => rfl
  | ok source =>
    have hreport := Session.wordless_report hsettings hlocale hkeys (.ofFile path source)
    dsimp only
    cases h : p.session.report (.ofFile path source) with
    | error u =>
      cases h' : p'.session.report (.ofFile path source) with
      | error u' =>
        rw [h, h'] at hreport
        rw [Except.error.inj hreport]
      | ok r' => rw [h, h'] at hreport; exact absurd hreport (by simp [Except.map])
    | ok r =>
      cases h' : p'.session.report (.ofFile path source) with
      | error u' => rw [h, h'] at hreport; exact absurd hreport (by simp [Except.map])
      | ok r' =>
        rw [h, h'] at hreport
        exact congrArg (FileOutcome.analysed path source) (Except.ok.inj hreport)

/-- **Projects with the same keys get the same report** on their sources: the
same missing keys at the same places, and the same counts. -/
theorem text_outcomes_eq (hsettings : p'.session.settings = p.session.settings)
    (hlocale : p'.session.locale = p.session.locale)
    (hkeys : p.session.settings.enabled = true →
      p.session.messages.SameKeys p'.session.messages) (d : Disk) (sources : List Path)
    (locale : String) :
    Report.text (p.outcomes d sources) locale false
      = Report.text (p'.outcomes d sources) locale false := by
  rw [← Report.text_wordless, ← Report.text_wordless (p'.outcomes d sources), outcomes, outcomes,
    List.map_map, List.map_map]
  congr 1
  exact List.map_congr_left fun path _ => wordless_outcome hsettings hlocale hkeys d path

end Project

end LocaleKeys
