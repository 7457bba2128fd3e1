/-
Which key uses are resolved.

A key use is resolved or missing, and which of the two depends on nothing but
the keys of the messages. The texts appear in what is said of resolved keys
only. So two sets of messages that have the same keys sort the key uses of a
document alike, and the reports on it differ in the words of texts at most
(`FileReport.wordless`).
-/
import LocaleKeys.Session.Documents
import Mathlib.Data.List.Forall2

set_option autoImplicit false

namespace LocaleKeys

/-- Both have texts under the same keys. -/
def Messages.SameKeys (m m' : Messages) : Prop := ∀ key, key ∈ m ↔ key ∈ m'

/-- Whether a key has a text is the same in both. -/
theorem Messages.SameKeys.isSome_eq {m m' : Messages} (h : m.SameKeys m') (key : String) :
    (m[key]?).isSome = (m'[key]?).isSome := by
  rw [Bool.eq_iff_iff, ← Std.TreeMap.mem_iff_isSome_getElem?, ← Std.TreeMap.mem_iff_isSome_getElem?]
  exact h key

/-! ## Results

A key use is resolved by composing its key and looking it up. The messages come
in at the end only, so that all but the text is the same on both sides, and
whether there is a text is the same if the keys are. -/

/-- The result is about the same key at the same place, and it has a text if
the other one has. -/
def Resolution.SortedLike (r r' : Resolution) : Prop :=
  r.key = r'.key ∧ r.position = r'.position ∧ r.span = r'.span ∧ r.text.isSome = r'.text.isSome

/-- **A key use is sorted by the keys of the messages.** Its key is put
together from the use and its binding, and the messages are only asked whether
they have it. -/
theorem KeyUse.sortedLike_resolve {m m' : Messages} (h : m.SameKeys m') (use : KeyUse)
    (bindings : List Binding) : (use.resolve bindings m).SortedLike (use.resolve bindings m') :=
  ⟨rfl, rfl, rfl, h.isSome_eq _⟩

/-- The key uses of a document are sorted alike, one by one. -/
theorem Outline.sortedLike_resolve {m m' : Messages} (h : m.SameKeys m') (o : Outline)
    (settings : Settings) (bindings : List Binding) :
    List.Forall₂ Resolution.SortedLike (o.resolve settings bindings m)
      (o.resolve settings bindings m') := by
  rw [Outline.resolve, Outline.resolve, List.forall₂_map_left_iff, List.forall₂_map_right_iff,
    List.forall₂_same]
  exact fun use _ => use.sortedLike_resolve h bindings

/-! ## Reports

A report keeps the text of a resolved key, and of a missing one only the key,
in a warning. Taking out the texts of the resolved ones therefore leaves what
depends on the keys (`wordless`), and that is what announcing compares: a text
that has changed is no reason to sort the keys anew. -/

/-- The entry without the words of its text. -/
def Entry.wordless (e : Entry) : Entry := { e with text := "" }

/-- The report without the words of the texts. What is said of missing keys
stays. -/
def FileReport.wordless (r : FileReport) : FileReport :=
  { r with resolved := r.resolved.map Entry.wordless }

section

variable {r r' : Resolution} (h : r.SortedLike r')
include h

/-- Both are missing, with the same warning, or neither is. -/
theorem Resolution.SortedLike.asMissing?_eq : r.asMissing? = r'.asMissing? := by
  obtain ⟨hkey, hposition, -, htext⟩ := h
  rw [asMissing?, asMissing?, hkey, hposition, ← Option.not_isSome, htext, Option.not_isSome]

/-- Both are resolved, perhaps with different texts, or neither is. -/
theorem Resolution.SortedLike.wordless_asResolved?_eq :
    r.asResolved?.map Entry.wordless = r'.asResolved?.map Entry.wordless := by
  obtain ⟨key, position, span, text⟩ := r
  obtain ⟨key', position', span', text'⟩ := r'
  obtain ⟨rfl, rfl, -, htext⟩ := h
  cases text with
  | none =>
    obtain rfl : text' = none := by simpa using htext.symm
    rfl
  | some text =>
    obtain ⟨text', rfl⟩ := Option.isSome_iff_exists.mp htext.symm
    rfl

end

/-- Results that are sorted alike give the same report, but for the words of
the texts. -/
theorem FileReport.wordless_ofResolutions {results results' : List Resolution}
    (h : List.Forall₂ Resolution.SortedLike results results') (uri : String) (version : Int)
    (locale : String) :
    (ofResolutions uri version locale results).wordless
      = (ofResolutions uri version locale results').wordless := by
  have hboth : results.filterMap (·.asMissing?) = results'.filterMap (·.asMissing?) ∧
      results.filterMap (fun r => r.asResolved?.map Entry.wordless)
        = results'.filterMap (fun r => r.asResolved?.map Entry.wordless) := by
    -- result by result, each goes to the same list on both sides
    induction h with
    | nil => exact ⟨rfl, rfl⟩
    | cons hr _ ih =>
      refine ⟨?_, ?_⟩
      · rw [List.filterMap_cons, List.filterMap_cons, hr.asMissing?_eq, ih.1]
      · rw [List.filterMap_cons, List.filterMap_cons, hr.wordless_asResolved?_eq, ih.2]
  obtain ⟨hmissing, hresolved⟩ := hboth
  rw [wordless, wordless, ofResolutions, ofResolutions, hmissing]
  dsimp only
  rw [List.map_filterMap, List.map_filterMap]
  exact congrArg (FileReport.mk uri version locale · _) hresolved

/-- **The report on a document** depends on the keys of the messages, but for
the words of texts. -/
theorem Session.wordless_report {s s' : Session} (hsettings : s'.settings = s.settings)
    (hlocale : s'.locale = s.locale)
    (hkeys : s.settings.enabled = true → s.messages.SameKeys s'.messages) (doc : Document) :
    (s.report doc).map (·.wordless) = (s'.report doc).map (·.wordless) := by
  rw [report, report, analysis?, analysis?, hsettings, hlocale]
  -- without analysis there is no report on either side
  cases henabled : s.settings.enabled with
  | false => rfl
  | true =>
    cases doc.dialect? with
    | none => rfl
    | some dialect =>
      simp only [Bool.not_true, Bool.false_eq_true, if_false, Option.map_some]
      cases Outline.ofSource dialect doc.text with
      | error u => rfl
      | ok o =>
        exact congrArg Except.ok (FileReport.wordless_ofResolutions
          (o.sortedLike_resolve (hkeys henabled) _ _) _ _ _)

end LocaleKeys
