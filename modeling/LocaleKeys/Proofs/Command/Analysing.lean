/-
What comes out of sources.

A source that can be read and analysed has a report, and a key is missing in it
if the source uses a key that the messages do not have
(`Project.exists_report?_iff`, `Project.exists_missing_iff`). A session that is
not enabled looks into no source, so that nothing is missing there. The status
of several sources is told from their outcomes one by one (`statusOf_cases`).
-/
import LocaleKeys.Command.Check
import LocaleKeys.Proofs.Analysis.Classifying
import Mathlib.Algebra.GroupWithZero.Nat

set_option autoImplicit false

namespace LocaleKeys

/-! ## Totals

The totals of a run are made by folding over the outcomes, and the status is
told from the totals. Both are brought back to the outcomes: a total is a sum,
and a sum is positive if one of its terms is. After `statusOf_cases` nothing
about counting is needed any more. -/

namespace Summary

/-- Adding outcomes one by one is adding their sums. -/
theorem foldl_add (outcomes : List FileOutcome) (s : Summary) :
    outcomes.foldl add s =
      { files := s.files + outcomes.length
        resolved := s.resolved + (outcomes.map fun o => o.report?.elim 0 (·.resolved.length)).sum
        missing := s.missing + (outcomes.map fun o => o.report?.elim 0 (·.missing.length)).sum
        failed := s.failed + outcomes.countP (·.report?.isNone) } := by
  induction outcomes generalizing s with
  | nil => rfl
  | cons o outcomes ih =>
    rw [List.foldl_cons, ih, List.countP_cons, add]
    simp only [List.length_cons, List.map_cons, List.sum_cons]
    cases o.report? with
    | none => simp [Nat.add_assoc, Nat.add_comm 1]
    | some r => simp [Nat.add_assoc, Nat.add_comm 1]

/-- **Totals are sums** over the sources. The program adds source by source to
all totals at once, and here each total is a sum of its own. -/
theorem of_eq (outcomes : List FileOutcome) :
    Summary.of outcomes =
      { files := outcomes.length
        resolved := (outcomes.map fun o => o.report?.elim 0 (·.resolved.length)).sum
        missing := (outcomes.map fun o => o.report?.elim 0 (·.missing.length)).sum
        failed := outcomes.countP (·.report?.isNone) } := by
  rw [Summary.of, foldl_add]
  simp

end Summary

/-- Either a source could not be analysed, or all could and a key is missing in
one of them, or none is. -/
theorem statusOf_cases (outcomes : List FileOutcome) :
    ((∃ o ∈ outcomes, o.report? = none) ∧ statusOf outcomes = .error) ∨
      (∀ o ∈ outcomes, ∃ r, o.report? = some r) ∧
        (((∃ o ∈ outcomes, ∃ r, o.report? = some r ∧ r.missing ≠ []) ∧ statusOf outcomes = .failure) ∨
          ((∀ o ∈ outcomes, ∀ r, o.report? = some r → r.missing = []) ∧
            statusOf outcomes = .success)) := by
  have hfailed : (Summary.of outcomes).failed > 0 ↔ ∃ o ∈ outcomes, o.report? = none := by
    rw [Summary.of_eq]
    show 0 < List.countP _ _ ↔ _
    rw [List.countP_pos_iff]
    simp only [Option.isNone_iff_eq_none]
  have hmissing : (Summary.of outcomes).missing > 0 ↔
      ∃ o ∈ outcomes, ∃ r, o.report? = some r ∧ r.missing ≠ [] := by
    have hsome : ∀ o : FileOutcome, 0 < o.report?.elim 0 (·.missing.length) ↔
        ∃ r, o.report? = some r ∧ r.missing ≠ [] := by
      intro o
      cases o.report? with
      | none => simp
      | some r => simp [List.length_pos_iff]
    rw [Summary.of_eq]
    show 0 < List.sum _ ↔ _
    rw [List.sum_pos_iff_exists_pos_nat]
    simp only [List.mem_map, exists_exists_and_eq_and, hsome]
  -- a file that could not be read is asked about first: it outweighs a missing
  -- key
  rw [statusOf]
  by_cases hanyFailed : (Summary.of outcomes).failed > 0
  · rw [if_pos hanyFailed]
    exact .inl ⟨hfailed.mp hanyFailed, rfl⟩
  rw [if_neg hanyFailed]
  refine .inr ⟨fun o ho => ?_, ?_⟩
  · cases hreport : o.report? with
    | none => exact absurd (hfailed.mpr ⟨o, ho, hreport⟩) hanyFailed
    | some r => exact ⟨r, rfl⟩
  by_cases hanyMissing : (Summary.of outcomes).missing > 0
  · rw [if_pos hanyMissing]
    exact .inl ⟨hmissing.mp hanyMissing, rfl⟩
  · rw [if_neg hanyMissing]
    refine .inr ⟨fun o ho r hr => ?_, rfl⟩
    by_contra hne
    exact hanyMissing (hmissing.mpr ⟨o, ho, r, hr, hne⟩)
/-! ## Sources

What the claims about exit codes say of a source, without sessions and reports:
that it can be read and parsed (`Disk.Outlines`), that it can be analysed
(`Analyses`), and that it uses a key that no file of the locale has (`Misses`).
The key of a use is composed as it is for the look-up. -/

/-- The file at the path is a source that can be read, with this outline. -/
def Disk.Outlines (d : Disk) (path : Path) (o : Outline) : Prop :=
  ∃ text dialect, d.read path = .ok text ∧
    path.extension?.bind Script.Dialect.ofExtension? = some dialect ∧
    Outline.ofSource dialect text = .ok o

/-- The whole key of a use. -/
def KeyUse.key (use : KeyUse) (bindings : List Binding) : String :=
  composeKey ((bindings[use.binding]?).elim "" (·.prefixKey)) use.suffix

namespace Session

/-- The file can be read, and if the session is enabled it can be analysed. -/
def Analyses (s : Session) (d : Disk) (path : Path) : Prop :=
  (∃ text, d.read path = .ok text) ∧ (s.settings.enabled = true → ∃ o, d.Outlines path o)

/-- The session is enabled, and the file uses a key that none of the given
files of the locale has. -/
def Misses (s : Session) (d : Disk) (files : List Path) (path : Path) : Prop :=
  s.settings.enabled = true ∧ ∃ o, d.Outlines path o ∧
    ∃ use ∈ o.keyUses s.settings (o.bindings s.settings), ∀ f ∈ files, ∀ m,
      s.loader.messages d f = .ok m → use.key (o.bindings s.settings) ∉ m
end Session

/-! ## What comes out of a source

An outcome is a report or a failure. The chain from the file to the report is
read backwards: a report was made because the file was read, its extension is
that of a dialect, and its text was parsed. Without analysis the report is
empty, and only the reading can fail; the two cases are kept apart from here
on. -/

namespace FileReport

/-- A key is missing if a result has no text. -/
theorem missing_eq_nil_iff (uri : String) (version : Int) (locale : String)
    (results : List Resolution) :
    (ofResolutions uri version locale results).missing = [] ↔ ∀ r ∈ results, r.text ≠ none := by
  rw [ofResolutions, List.filterMap_eq_nil_iff]
  apply forall₂_congr
  intro r _
  rw [Resolution.asMissing?]
  cases r.text <;> simp

end FileReport

/-- A key use is resolved if the messages have its key. -/
theorem Outline.resolve_text_iff (o : Outline) (settings : Settings) (bindings : List Binding)
    (messages : Messages) :
    (∀ r ∈ o.resolve settings bindings messages, r.text ≠ none) ↔
      ∀ use ∈ o.keyUses settings bindings, use.key bindings ∈ messages := by
  rw [resolve, List.forall_mem_map]
  apply forall₂_congr
  intro use _
  rw [Std.TreeMap.mem_iff_isSome_getElem?, Option.isSome_iff_ne_none]
  rfl

namespace Project

variable {p : Project} {d : Disk} {path : Path} {r : FileReport}

/-- What comes out of a source is the report on it, if it can be read and there
is one. -/
theorem report?_outcome :
    (p.outcome d path).report? = some r ↔
      ∃ text, d.read path = .ok text ∧ p.session.report (.ofFile path text) = .ok r := by
  rw [outcome]
  cases d.read path with
  | error fault => simp [FileOutcome.report?]
  | ok text =>
    dsimp only
    cases hreport : p.session.report (.ofFile path text) with
    | error u => simp [FileOutcome.report?, hreport]
    | ok r' => simp [FileOutcome.report?, hreport]

/-- A source is analysed if it can be read and there is a report on it. -/
theorem outcome_eq_analysed_iff {source : String} :
    p.outcome d path = .analysed path source r ↔
      d.read path = .ok source ∧ p.session.report (.ofFile path source) = .ok r := by
  rw [outcome]
  cases d.read path with
  | error fault => simp
  | ok text =>
    dsimp only
    cases hreport : p.session.report (.ofFile path text) with
    | error u =>
      refine iff_of_false (by simp) ?_
      rintro ⟨htext, hsource⟩
      obtain rfl := Except.ok.inj htext
      exact absurd (hreport.symm.trans hsource) (by simp)
    | ok r' =>
      rw [FileOutcome.analysed.injEq, Except.ok.injEq]
      constructor
      · rintro ⟨-, rfl, rfl⟩
        exact ⟨rfl, hreport⟩
      · rintro ⟨rfl, hsource⟩
        exact ⟨rfl, rfl, Except.ok.inj (hreport.symm.trans hsource)⟩

/-- A session that is not enabled has nothing to say of a source that can be
read. -/
theorem report?_outcome_of_disabled (hdisabled : ¬ p.session.settings.enabled = true) :
    (p.outcome d path).report? = some r ↔
      (∃ text, d.read path = .ok text) ∧ r = .empty path.text 0 p.session.locale := by
  have hreport : ∀ text, p.session.report (.ofFile path text)
      = .ok (.empty path.text 0 p.session.locale) := by
    intro text
    rw [Session.report, Session.analysis?, if_pos (by simpa using hdisabled)]
    rfl
  rw [report?_outcome]
  constructor
  · rintro ⟨text, hread, hr⟩
    exact ⟨⟨text, hread⟩, (Except.ok.inj ((hreport text).symm.trans hr)).symm⟩
  · rintro ⟨⟨text, hread⟩, rfl⟩
    exact ⟨text, hread, hreport text⟩

variable (hsource : Scan.isSource path = true)
include hsource

/-- A session that is enabled reports on the key uses of a source that can be
analysed. -/
theorem report?_outcome_of_enabled (henabled : p.session.settings.enabled = true) :
    (p.outcome d path).report? = some r ↔
      ∃ o, d.Outlines path o ∧ r = .ofResolutions path.text 0 p.session.locale
        (o.resolve p.session.settings (o.bindings p.session.settings) p.session.messages) := by
  obtain ⟨dialect, hdialect⟩ := Option.isSome_iff_exists.mp hsource
  have hreport : ∀ text, p.session.report (.ofFile path text) = .ok r ↔
      ∃ o, Outline.ofSource dialect text = .ok o ∧ r = .ofResolutions path.text 0 p.session.locale
        (o.resolve p.session.settings (o.bindings p.session.settings) p.session.messages) := by
    intro text
    rw [Session.report, Session.analysis?, henabled,
      show (Document.ofFile path text).dialect? = some dialect from hdialect]
    simp only [Bool.not_true, Bool.false_eq_true, if_false, Option.map_some]
    rw [show (Document.ofFile path text).text = text from rfl]
    cases Outline.ofSource dialect text with
    | error u => simp [bind, Except.bind]
    | ok o =>
      simp only [bind, Except.bind, pure, Except.pure, Except.ok.injEq, exists_eq_left']
      exact eq_comm
  rw [report?_outcome]
  simp only [hreport]
  constructor
  · rintro ⟨text, hread, o, ho, hr⟩
    exact ⟨o, ⟨text, dialect, hread, hdialect, ho⟩, hr⟩
  · rintro ⟨o, ⟨text, dialect', hread, hdialect', ho⟩, hr⟩
    obtain rfl := Option.some.inj (hdialect.symm.trans hdialect')
    exact ⟨text, hread, o, ho, hr⟩

/-- A source has a report if it can be analysed. -/
theorem exists_report?_iff :
    (∃ r, (p.outcome d path).report? = some r) ↔ p.session.Analyses d path := by
  rw [Session.Analyses]
  by_cases henabled : p.session.settings.enabled = true
  · simp only [report?_outcome_of_enabled hsource henabled]
    constructor
    · rintro ⟨r, o, ⟨text, dialect, hread, ho⟩, -⟩
      exact ⟨⟨text, hread⟩, fun _ => ⟨o, text, dialect, hread, ho⟩⟩
    · rintro ⟨-, ho⟩
      obtain ⟨o, ho⟩ := ho henabled
      exact ⟨_, o, ho, rfl⟩
  · simp only [report?_outcome_of_disabled henabled]
    exact ⟨fun ⟨_, hread, _⟩ => ⟨hread, fun h => absurd h henabled⟩,
      fun ⟨hread, _⟩ => ⟨_, hread, rfl⟩⟩

/-- A source has a report with a missing key if it uses a key that the messages
do not have. -/
theorem exists_missing_iff :
    (∃ r, (p.outcome d path).report? = some r ∧ r.missing ≠ []) ↔
      p.session.settings.enabled = true ∧ ∃ o, d.Outlines path o ∧
        ∃ use ∈ o.keyUses p.session.settings (o.bindings p.session.settings),
          use.key (o.bindings p.session.settings) ∉ p.session.messages := by
  have hmissing : ∀ o : Outline, (FileReport.ofResolutions path.text 0 p.session.locale
      (o.resolve p.session.settings (o.bindings p.session.settings) p.session.messages)).missing ≠ [] ↔
        ∃ use ∈ o.keyUses p.session.settings (o.bindings p.session.settings),
          use.key (o.bindings p.session.settings) ∉ p.session.messages := by
    intro o
    rw [Ne, FileReport.missing_eq_nil_iff, Outline.resolve_text_iff]
    simp only [not_forall, exists_prop]
  by_cases henabled : p.session.settings.enabled = true
  · simp only [report?_outcome_of_enabled hsource henabled, ← hmissing]
    constructor
    · rintro ⟨r, ⟨o, ho, rfl⟩, hr⟩
      exact ⟨henabled, o, ho, hr⟩
    · rintro ⟨-, o, ho, hr⟩
      exact ⟨_, ⟨o, ho, rfl⟩, hr⟩
  · simp only [report?_outcome_of_disabled henabled]
    refine iff_of_false ?_ fun ⟨h, _⟩ => henabled h
    rintro ⟨r, ⟨-, rfl⟩, hr⟩
    exact hr rfl

end Project

end LocaleKeys
