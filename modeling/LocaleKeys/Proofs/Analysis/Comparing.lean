/-
One document against two dictionaries.

The messages come in last. Which keys a document uses, and where, is settled
before they are looked at, and all they add is a text for each key or none. So
the results of two dictionaries differ in their texts only
(`map_about_resolve`), and more messages never take a text away
(`forall₂_resolve_of_extends`).

A report sorts the results into two lists (`Sorts`), and which list a result
goes to does depend on the messages. What the report lists as the entries of
the document still does not: it puts the lists one behind the other and sorts
them by place again, and since no two uses end at the same place
(`nodup_positions`) there is only one way to do so (`entries_eq_of_perm`).
-/
import LocaleKeys.Proofs.Analysis.SourceOrder
import LocaleKeys.Proofs.Script.Parsing

set_option autoImplicit false

namespace LocaleKeys

open LocaleKeys.Script
open Text (Position)

/-! ## Results

A result is a key, a place and perhaps a text, and only the text comes from the
messages. `about` forgets it, on the results and on the uses alike, so that two
lists of results can be compared with the uses they come from. -/

/-- What a result says without the messages: the key, and where it stands. -/
def Resolution.about (r : Resolution) : String × Position × Text.Span := (r.key, r.position, r.span)

/-- What is looked up for a key use, and where it stands. -/
def KeyUse.about (bindings : List Binding) (use : KeyUse) : String × Position × Text.Span :=
  (composeKey ((bindings[use.binding]?).elim "" (·.prefixKey)) use.suffix, use.position, use.span)

/-- Each text of the first is a text of the second, under the same key. -/
def Messages.Extends (m m' : Messages) : Prop := ∀ key text : String, m[key]? = some text → m'[key]? = some text

namespace Outline

variable (o : Outline) (settings : Settings) (bindings : List Binding)

/-- **There is a result for each key use**, about its key and its place,
whatever the messages are. The messages only decide which of the two kinds of
result it is. -/
theorem map_about_resolve (m : Messages) :
    (o.resolve settings bindings m).map Resolution.about
      = (o.keyUses settings bindings).map (KeyUse.about bindings) := by
  rw [resolve, List.map_map]
  exact List.map_congr_left fun use _ => rfl

/-- A key that has a text keeps it in messages that extend the first ones. -/
theorem forall₂_resolve_of_extends {m m' : Messages} (h : m.Extends m') :
    List.Forall₂ (fun r r' => ∀ text, r.text = some text → r'.text = some text)
      (o.resolve settings bindings m) (o.resolve settings bindings m') := by
  rw [resolve, resolve, List.forall₂_map_left_iff, List.forall₂_map_right_iff, List.forall₂_same]
  exact fun use _ text htext => h _ text htext

end Outline

/-! ## Two lists

`Sorts` is the specification of a report as a relation: results go to one list
or the other, by whether they have a text, and keep their order. It determines
the lists, and the report is proved to be them (`sorts_ofResolutions`). What
both lists have together is then a permutation of what the results are
about. -/

/-- The results are sorted into entries with the texts of keys and entries with
warnings. Each result has one entry, and both lists keep the order of the
results. -/
inductive Sorts : List Resolution → List Entry → List Entry → Prop
  | nil : Sorts [] [] []
  | resolved {r : Resolution} {results : List Resolution} {found missing : List Entry} {text : String}
      (htext : r.text = some text) (h : Sorts results found missing) :
      Sorts (r :: results) (⟨r.key, r.position, text⟩ :: found) missing
  | missing {r : Resolution} {results : List Resolution} {found missing : List Entry}
      (htext : r.text = none) (h : Sorts results found missing) :
      Sorts (r :: results) found (⟨r.key, r.position, missingWarning r.key⟩ :: missing)

/-- The key of an entry and its place. -/
def Entry.about (e : Entry) : String × Position := (e.key, e.position)

/-- Together both lists are about what the results are about. -/
theorem Sorts.perm {results : List Resolution} {found missing : List Entry} (h : Sorts results found missing) :
    ((found ++ missing).map Entry.about).Perm (results.map fun r => (r.key, r.position)) := by
  induction h with
  | nil => exact List.Perm.refl _
  | resolved _ _ ih => exact ih.cons _
  | missing _ _ ih =>
    rw [List.map_cons, List.map_append, List.map_cons]
    refine List.perm_middle.trans (List.Perm.cons _ ?_)
    rwa [← List.map_append]

namespace FileReport

section

variable (uri : String) (version : Int) (locale : String)

/-- **A report sorts the results.** The two lists are made by two passes over
the same results, and each result appears in one of them. -/
theorem sorts_ofResolutions (results : List Resolution) :
    Sorts results (ofResolutions uri version locale results).resolved
      (ofResolutions uri version locale results).missing := by
  rw [ofResolutions]
  induction results with
  | nil => exact Sorts.nil
  | cons r results ih =>
    cases htext : r.text with
    | some text =>
      rw [List.filterMap_cons_some (b := ⟨r.key, r.position, text⟩) (by rw [Resolution.asResolved?, htext]; rfl),
        List.filterMap_cons_none (by rw [Resolution.asMissing?, htext]; rfl)]
      exact Sorts.resolved htext ih
    | none =>
      rw [List.filterMap_cons_none (by rw [Resolution.asResolved?, htext]; rfl),
        List.filterMap_cons_some (b := ⟨r.key, r.position, missingWarning r.key⟩)
          (by rw [Resolution.asMissing?, htext]; rfl)]
      exact Sorts.missing htext ih

theorem entries_perm (results : List Resolution) :
    (ofResolutions uri version locale results).entries.Perm (results.map fun r => (r.key, r.position)) :=
  (List.mergeSort_perm _ _).trans (sorts_ofResolutions uri version locale results).perm

end

/-! ## Entries in the order of their places

The entries of a report are sorted by place. A sorted list without two entries
at one place is determined by what is in it, so that two reports that are about
the same have the same entries, whatever their lists are. -/

/-- The entries are in reading order. -/
theorem pairwise_upTo_entries (r : FileReport) : r.entries.Pairwise fun a b => a.2.upTo b.2 = true := by
  refine List.pairwise_mergeSort (fun a b c hab hbc => ?_) (fun a b => ?_) _
  · rw [Position.upTo_iff] at hab hbc ⊢
    omega
  · rw [Bool.or_eq_true, Position.upTo_iff, Position.upTo_iff]
    omega

/-- Entries at different places follow each other. -/
theorem inOrder_entries {r : FileReport} (h : (r.entries.map Prod.snd).Nodup) :
    Position.InOrder (r.entries.map Prod.snd) := by
  rw [Position.InOrder, List.pairwise_map]
  refine (r.pairwise_upTo_entries.and (List.pairwise_map.mp h)).imp ?_
  rintro a b ⟨hle, hne⟩
  exact Position.before_of_upTo hle hne

/-- **There is one list of entries** for entries at different places. They
stand in reading order, and a list in which no two elements are on a level is
fixed by its order. -/
theorem entries_eq_of_perm {r r' : FileReport} (hperm : r.entries.Perm r'.entries)
    (h : (r.entries.map Prod.snd).Nodup) : r.entries = r'.entries := by
  have h' := (hperm.map Prod.snd).nodup_iff.mp h
  have hsorted : r.entries.Pairwise fun a b => a.2.before b.2 = true := List.pairwise_map.mp (inOrder_entries h)
  have hsorted' : r'.entries.Pairwise fun a b => a.2.before b.2 = true :=
    List.pairwise_map.mp (inOrder_entries h')
  refine List.Perm.eq_of_pairwise (fun a b _ _ hab hba => ?_) hsorted hsorted' hperm
  exact absurd (Position.before_trans hab hba) (Position.not_before_self _)

end FileReport

/-! ## Uses at different places

A use is placed at the end of its literal. The literals of uses are among those
of the tree, each used once (`exists_literals_of_uses`), and the tree has its
literals one behind the other. That is where the parser comes in. -/

/-- **No two key uses of a source end at the same place**, since they are at
literals that stand one behind the other. -/
theorem Outline.nodup_positions {dialect : Dialect} {source : String} {o : Outline}
    (h : Outline.ofSource dialect source = .ok o) (settings : Settings) :
    ((o.keyUses settings (o.bindings settings)).map (·.position)).Nodup := by
  obtain ⟨t, ht, rfl⟩ := ofSource_eq_ok h
  obtain ⟨es, ⟨fs, hperm, hsub⟩, hes⟩ := exists_literals_of_uses (Text.Document.ofString source) t settings
  -- the place of a use is the end of its literal
  have hpositions : ((ofModule (Text.Document.ofString source) t).keyUses settings
      ((ofModule (Text.Document.ofString source) t).bindings settings)).map (·.position)
      = es.map fun e => ((Text.Document.ofString source).place e.hi).position := by
    rw [← List.forall₂_eq_eq_eq, List.forall₂_map_left_iff, List.forall₂_map_right_iff]
    exact hes.imp fun use e hat => hat.2
  -- the ends of all literals of the tree follow each other, so that no two are
  -- the same
  have hwritten : (writtenEnds (Text.Document.ofString source) t).Nodup := by
    refine (inOrder_writtenEnds (runs_parseModule ht)).imp fun {p q} hbefore => ?_
    rintro rfl
    exact Position.not_before_self p hbefore
  rw [hpositions, ← (hperm.map _).nodup_iff]
  exact hwritten.sublist (hsub.map _)

/-- **The messages decide which keys are missing, and nothing else.** Against
any two dictionaries the key uses of a document have the same results but for
the texts: one for each use, about the same key at the same place. A report
sorts them, each into one of its two lists and in their order. Its entries are
about all results, each once, and they follow each other in the document; so
they are the same list for both dictionaries. And a key that has a text keeps
it in messages that extend the first ones. -/
theorem messages_only_classify {dialect : Dialect} {source : String} {o : Outline}
    (hsource : Outline.ofSource dialect source = .ok o) (settings : Settings) (m m' : Messages) :
    let bindings := o.bindings settings
    let results := o.resolve settings bindings m
    let results' := o.resolve settings bindings m'
    results.map Resolution.about = (o.keyUses settings bindings).map (KeyUse.about bindings) ∧
      results'.map Resolution.about = results.map Resolution.about ∧
      (∀ uri version locale uri' version' locale',
        let report := FileReport.ofResolutions uri version locale results
        let report' := FileReport.ofResolutions uri' version' locale' results'
        Sorts results report.resolved report.missing ∧
          report.entries.Perm (results.map fun r => (r.key, r.position)) ∧
          Position.InOrder (report.entries.map Prod.snd) ∧ report'.entries = report.entries) ∧
      (m.Extends m' →
        List.Forall₂ (fun r r' => ∀ text, r.text = some text → r'.text = some text) results results') := by
  intro bindings results results'
  have habout : results'.map Resolution.about = results.map Resolution.about := by
    rw [o.map_about_resolve, o.map_about_resolve]
  refine ⟨o.map_about_resolve settings bindings m, habout, ?_, o.forall₂_resolve_of_extends settings bindings⟩
  intro uri version locale uri' version' locale' report report'
  have hperm := FileReport.entries_perm uri version locale results
  have hnodup : (report.entries.map Prod.snd).Nodup := by
    rw [(hperm.map Prod.snd).nodup_iff, List.map_map]
    have huses := Outline.nodup_positions hsource settings
    have heq := congrArg (List.map fun x => x.2.1) (o.map_about_resolve settings bindings m)
    rw [List.map_map, List.map_map] at heq
    exact heq ▸ huses
  -- entries that differ in place have one order by place, so that what they
  -- are is all that decides the list
  refine ⟨FileReport.sorts_ofResolutions uri version locale results, hperm, FileReport.inOrder_entries hnodup, ?_⟩
  have hsame : (results'.map fun r => (r.key, r.position)) = results.map fun r => (r.key, r.position) := by
    have heq := congrArg (List.map fun x => (x.1, x.2.1)) habout
    rwa [List.map_map, List.map_map] at heq
  refine (FileReport.entries_eq_of_perm ?_ hnodup).symm
  exact hperm.trans (hsame ▸ (FileReport.entries_perm uri' version' locale' results').symm)

/-- A source that uses two keys, against messages with a text for one of them
and for both. -/
theorem messages_only_classify_of_call :
    ∃ o, Outline.ofSource .tsx "let t=useI18n();t('a');t('b')" = .ok o ∧
      let m : Messages := (∅ : Messages).insert "a" "A"
      let m' : Messages := m.insert "b" "B"
      let results := o.resolve {} (o.bindings {}) m
      let results' := o.resolve {} (o.bindings {}) m'
      m.Extends m' ∧ results'.map Resolution.about = results.map Resolution.about ∧
        (FileReport.ofResolutions "a.tsx" 0 "en" results').entries
          = (FileReport.ofResolutions "a.tsx" 0 "en" results).entries ∧
        List.Forall₂ (fun r r' => ∀ text, r.text = some text → r'.text = some text) results results' := by
  obtain ⟨o, ho, -⟩ : ∃ o, Outline.ofSource .tsx "let t=useI18n();t('a');t('b')" = .ok o ∧
      (o.nodes.size == 11) = true :=
    exists_ok_of_any (by decide +kernel)
  refine ⟨o, ho, ?_⟩
  intro m m' results results'
  have hextends : m.Extends m' := by
    intro key text h
    rw [Std.TreeMap.getElem?_insert] at h ⊢
    split at h
    · obtain rfl : "a" = key := by simpa using ‹compare "a" key = .eq›
      rw [if_neg (by decide)]
      exact (Std.TreeMap.getElem?_insert_self).trans h
    · exact absurd h (by simp)
  obtain ⟨-, habout, hreport, htexts⟩ := messages_only_classify ho {} m m'
  exact ⟨hextends, habout, (hreport "a.tsx" 0 "en" "a.tsx" 0 "en").2.2.2, htexts hextends⟩

end LocaleKeys
