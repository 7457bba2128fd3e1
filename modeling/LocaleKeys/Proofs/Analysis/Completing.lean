/-
Completion, seen from a single label.

Completion goes through all keys and takes prefixes off them, and resolution
puts a prefix in front of what is written and looks up one key. The first finds
what the second does: taking a prefix and its dot off undoes composing
(`mem_belowIn`), so that below one prefix a label stands for a single key. What
several prefixes offer for a label is decided by the first of them that offers
anything (`getElem?_foldl_add`), and that is what composing and looking up,
binding by binding, comes to (`find?_candidates`).

None of this asks in which order the keys were gone through, and so the
completions do not depend on it (`completeFrom_eq_complete`).
-/
import LocaleKeys.Analysis.Completion
import LocaleKeys.Analysis.Resolution
import LocaleKeys.Proofs.Messages.Keys
import LocaleKeys.Proofs.Outcomes

set_option autoImplicit false

namespace LocaleKeys

namespace Completion

/-! ## Different labels

Completions are collected in a map under their labels, and the first one that
comes for a label stays. The map is in the order of the labels, so its values
come sorted and without repetitions. That is all that is used of it later:
`mem_distinct` says what is in the list by a search through the candidates, and
`pairwise_label_distinct` says how it is ordered. -/

/-- A completion is entered only where its label is free. -/
theorem getElem?_add (offered : Std.TreeMap String Completion) (c : Completion) (label : String) :
    (add offered c)[label]? = offered[label]?.or (if c.label = label then some c else none) := by
  rw [add]
  by_cases hlabel : c.label = label
  · subst hlabel
    -- the label is free, or what is there stays
    cases hold : offered[c.label]? with
    | none =>
      have hfree : ¬ offered.contains c.label = true := by
        simp [Std.TreeMap.contains_eq_isSome_getElem?, hold]
      rw [if_neg hfree]
      simp
    | some old =>
      have htaken : offered.contains c.label = true := by
        simp [Std.TreeMap.contains_eq_isSome_getElem?, hold]
      rw [if_pos htaken, hold]
      rfl
  · rw [if_neg hlabel, Option.or_none]
    split
    · rfl
    · simp [Std.TreeMap.getElem?_insert, hlabel]

/-- **The first counts.** Of the candidates for a label that is not taken, the
first one is offered.
-/
theorem getElem?_foldl_add (candidates : List Completion)
    (offered : Std.TreeMap String Completion) (label : String) :
    (candidates.foldl add offered)[label]?
      = offered[label]?.or (candidates.find? (·.label = label)) := by
  induction candidates generalizing offered with
  | nil => simp
  | cons c candidates ih =>
    rw [List.foldl_cons, ih, getElem?_add, Option.or_assoc, List.find?_cons]
    by_cases hlabel : c.label = label <;> simp [hlabel]

/-- What is offered for a label is the first candidate with it. -/
theorem getElem?_offered (candidates : List Completion) (label : String) :
    (candidates.foldl add ∅)[label]? = candidates.find? (·.label = label) := by
  rw [getElem?_foldl_add]
  simp

theorem values_eq_map_toList {α β : Type} {cmp : α → α → Ordering} (m : Std.TreeMap α β cmp) :
    m.values = m.toList.map (·.2) := by
  have hfold : m.values = m.foldr (fun _ value values => value :: values) [] := rfl
  rw [hfold, Std.TreeMap.foldr_eq_foldr_toList, List.foldr_cons_eq_append, List.append_nil]

/-- Every completion is kept under its label. -/
theorem label_of_mem_toList {candidates : List Completion} {entry : String × Completion}
    (h : entry ∈ (candidates.foldl add ∅).toList) :
    entry.2.label = entry.1 ∧ candidates.find? (·.label = entry.1) = some entry.2 := by
  obtain ⟨label, c⟩ := entry
  rw [Std.TreeMap.mem_toList_iff_getElem?_eq_some, getElem?_offered] at h
  exact ⟨by simpa using List.find?_some h, h⟩

/-- A completion is offered if it is the first candidate with its label. -/
theorem mem_distinct {candidates : List Completion} {c : Completion} :
    c ∈ distinct candidates ↔ candidates.find? (·.label = c.label) = some c := by
  rw [distinct, values_eq_map_toList, List.mem_map]
  constructor
  · rintro ⟨entry, hentry, rfl⟩
    obtain ⟨hlabel, hfind⟩ := label_of_mem_toList hentry
    rwa [hlabel]
  · intro h
    -- a completion is kept under its own label
    refine ⟨(c.label, c), ?_, rfl⟩
    rwa [Std.TreeMap.mem_toList_iff_getElem?_eq_some, getElem?_offered]

/-- The completions come in the order of their labels. -/
theorem pairwise_label_distinct (candidates : List Completion) :
    ((distinct candidates).map (·.label)).Pairwise (· < ·) := by
  have hlabels : (distinct candidates).map (·.label) = (candidates.foldl add ∅).keys := by
    rw [distinct, values_eq_map_toList, List.map_map, ← Std.TreeMap.map_fst_toList_eq_keys]
    refine List.map_congr_left ?_
    intro entry hentry
    exact (label_of_mem_toList hentry).1
  rw [hlabels]
  have hordered : (candidates.foldl add ∅).keys.Pairwise fun a b => compare a b = .lt :=
    Std.TreeMap.ordered_keys
  exact hordered.imp fun h => compareOfLessAndEq_eq_lt.mp h

/-- Candidates of which the same count for every label give the same
completions. -/
theorem distinct_congr {candidates candidates' : List Completion}
    (h : ∀ label, candidates.find? (·.label = label) = candidates'.find? (·.label = label)) :
    distinct candidates = distinct candidates' := by
  refine Std.TreeMap.Equiv.values_eq (Std.TreeMap.Equiv.of_forall_constGet?_eq ?_)
  intro label
  rw [getElem?_offered, getElem?_offered, h]

/-! ## Below one prefix

A prefix is taken off with its dot, by dropping as many characters as it has.
`mem_belowIn` turns that into an equation between texts: the key is the prefix,
the dot and the label. From there on labels are composed with prefixes, as
resolution does it (`under`). -/

/-- The keys below a prefix that ends in a dot, where the entries come in any
order. -/
def belowIn (dotted : String) (entries : List (String × String)) : List Completion :=
  entries.filterMap fun (key, text) =>
    if dotted.toList.isPrefixOf key.toList then
      some ⟨String.ofList (key.toList.drop dotted.length), key, text⟩
    else none

/-- **Taking a prefix off undoes composing.** A label is what is behind the
prefix and its dot, so that the dotted prefix in front of the label is the key
again. -/
theorem mem_belowIn {dotted : String} {entries : List (String × String)} {c : Completion} :
    c ∈ belowIn dotted entries ↔ (c.key, c.detail) ∈ entries ∧ c.key = dotted ++ c.label := by
  rw [belowIn, List.mem_filterMap]
  constructor
  · rintro ⟨⟨key, text⟩, hentry, h⟩
    dsimp only at h
    split at h
    · rename_i hfront
      cases h
      refine ⟨hentry, ?_⟩
      have happend := List.prefix_iff_eq_append.mp (List.isPrefixOf_iff_prefix.mp hfront)
      rw [String.length_toList] at happend
      rw [← String.toList_inj, String.toList_append, String.toList_ofList, happend]
    · exact absurd h (by simp)
  · rintro ⟨hentry, hkey⟩
    refine ⟨(c.key, c.detail), hentry, ?_⟩
    have hchars : c.key.toList = dotted.toList ++ c.label.toList := by
      rw [hkey, String.toList_append]
    have hfront : dotted.toList.isPrefixOf c.key.toList = true := by
      rw [List.isPrefixOf_iff_prefix, hchars]
      exact List.prefix_append ..
    dsimp only
    rw [if_pos hfront, hchars, ← String.length_toList, List.drop_left, String.ofList_toList]

/-- What a label stands for below a prefix, found as a use would be: by
composing the two and looking up the key. -/
def under (messages : Messages) (label p : String) : Option Completion :=
  messages[composeKey p label]?.map (⟨label, composeKey p label, ·⟩)

/-- A label stands for a key below a prefix if the two compose to it and it has
a text. -/
theorem under_eq_some {messages : Messages} {label p : String} {c : Completion} :
    under messages label p = some c
      ↔ c.label = label ∧ c.key = composeKey p label ∧ messages[c.key]? = some c.detail := by
  rw [under, Option.map_eq_some_iff]
  constructor
  · rintro ⟨text, htext, rfl⟩
    exact ⟨rfl, rfl, htext⟩
  · rintro ⟨rfl, hkey, hdetail⟩
    rw [← hkey]
    exact ⟨c.detail, hdetail, rfl⟩

/-- It stands for something if the composed key has a text. -/
theorem isSome_under {messages : Messages} {label p : String} :
    (under messages label p).isSome ↔ composeKey p label ∈ messages := by
  rw [under, Option.isSome_map, Std.TreeMap.mem_iff_isSome_getElem?]

/-- If the candidates are the keys below a prefix, what is found for a label is
what the label stands for there. -/
theorem find?_eq_under {candidates : List Completion} {messages : Messages} {p : String}
    (h : ∀ c, c ∈ candidates ↔ messages[c.key]? = some c.detail ∧ c.key = composeKey p c.label)
    (label : String) : candidates.find? (·.label = label) = under messages label p := by
  have hunder : ∀ c ∈ candidates, c.label = label → under messages label p = some c := by
    rintro c hc rfl
    obtain ⟨hdetail, hkey⟩ := (h c).mp hc
    exact under_eq_some.mpr ⟨rfl, hkey, hdetail⟩
  cases hfind : candidates.find? (·.label = label) with
  | some c =>
    have hlabel : c.label = label := by simpa using List.find?_some hfind
    exact (hunder c (List.mem_of_find?_eq_some hfind) hlabel).symm
  | none =>
    cases hnone : under messages label p with
    | none => rfl
    | some c =>
      -- what the label stands for would be a candidate
      obtain ⟨hlabel, hkey, hdetail⟩ := under_eq_some.mp hnone
      have hmem : c ∈ candidates := (h c).mpr ⟨hdetail, by rw [hlabel, hkey]⟩
      exact absurd (List.find?_eq_none.mp hfind c hmem) (by simp [hlabel])

/-! ## All candidates

If some binding has a prefix, only prefixes are gone through, and otherwise all
keys are offered. `standsFor` makes the same distinction for a single label. A
search through the concatenation of the candidates of all prefixes is a search
through the prefixes for the first one that has a candidate, and this is what
brings the order of the bindings in. -/

/-- The candidates in a file with these bindings, where the entries come in any
order. -/
def candidates (bindings : List Binding) (entries : List (String × String)) : List Completion :=
  let prefixes := (bindings.map (·.prefixKey)).filter (!·.isEmpty)
  if prefixes.isEmpty then entries.map fun (key, text) => ⟨key, key, text⟩
  else prefixes.flatMap fun p => belowIn (p ++ ".") entries

/-- What a label stands for in a file with these bindings. -/
def standsFor (bindings : List Binding) (messages : Messages) (label : String) :
    Option Completion :=
  if ∀ b ∈ bindings, b.prefixKey = "" then under messages label ""
  else bindings.findSome? fun b =>
    if b.prefixKey = "" then none else under messages label b.prefixKey

/-- Searching the prefixes is searching the bindings that have one. -/
theorem findSome?_prefixes {α : Type} (bindings : List Binding) (f : String → Option α) :
    ((bindings.map (·.prefixKey)).filter (!·.isEmpty)).findSome? f
      = bindings.findSome? fun b => if b.prefixKey = "" then none else f b.prefixKey := by
  induction bindings with
  | nil => rfl
  | cons b bindings ih =>
    rw [List.map_cons, List.filter_cons, List.findSome?_cons]
    by_cases hempty : b.prefixKey = ""
    · simp [hempty, ih]
    · simp [hempty, ih, List.findSome?_cons]

/-- There are no prefixes if no binding has one. -/
theorem prefixes_isEmpty {bindings : List Binding} :
    ((bindings.map (·.prefixKey)).filter (!·.isEmpty)).isEmpty = true
      ↔ ∀ b ∈ bindings, b.prefixKey = "" := by
  simp [List.filter_eq_nil_iff]

/-- **Finding by taking off is finding by composing.** In whichever order the
entries of the messages come, the first candidate for a label is what the label
stands for. -/
theorem find?_candidates (bindings : List Binding) {messages : Messages}
    {entries : List (String × String)} (hentries : entries.Perm messages.toList) (label : String) :
    (candidates bindings entries).find? (·.label = label) = standsFor bindings messages label := by
  have hmem : ∀ key text, (key, text) ∈ entries ↔ messages[key]? = some text := by
    intro key text
    rw [hentries.mem_iff, Std.TreeMap.mem_toList_iff_getElem?_eq_some]
  rw [candidates, standsFor]
  by_cases hnone : ∀ b ∈ bindings, b.prefixKey = ""
  · -- no prefix: every entry is a candidate, and its label is its key
    rw [if_pos hnone, if_pos (prefixes_isEmpty.mpr hnone)]
    refine find?_eq_under ?_ label
    intro c
    rw [composeKey_empty, ← hmem, List.mem_map]
    constructor
    · rintro ⟨entry, hentry, rfl⟩
      exact ⟨hentry, rfl⟩
    · rintro ⟨hentry, hkey⟩
      obtain ⟨label', key, text⟩ := c
      cases hkey
      exact ⟨_, hentry, rfl⟩
  · -- the candidates come prefix by prefix, so that the first prefix that offers anything decides
    rw [if_neg hnone, if_neg fun h => hnone (prefixes_isEmpty.mp h), List.find?_flatMap,
      findSome?_prefixes]
    congr 1
    funext b
    by_cases hempty : b.prefixKey = ""
    · rw [if_pos hempty, if_pos hempty]
    · rw [if_neg hempty, if_neg hempty]
      refine find?_eq_under ?_ label
      intro c
      rw [mem_belowIn, hmem, composeKey_of_ne_empty hempty]

/-! ## What a label stands for

The function `standsFor` is taken apart into what the claim says about labels:
whether one is offered, and if so for which prefix. The prefix is the first
one, in the order of the bindings, under which the label makes a key; that an
earlier binding has the same prefix or none does not matter. -/

/-- What a label stands for has this label, and the text of its key. -/
theorem of_standsFor {bindings : List Binding} {messages : Messages} {label : String}
    {c : Completion} (h : standsFor bindings messages label = some c) :
    c.label = label ∧ messages[c.key]? = some c.detail := by
  rw [standsFor] at h
  split at h
  · obtain ⟨hlabel, -, hdetail⟩ := under_eq_some.mp h
    exact ⟨hlabel, hdetail⟩
  · obtain ⟨b, -, hb⟩ := List.exists_of_findSome?_eq_some h
    split at hb
    · exact absurd hb (by simp)
    · obtain ⟨hlabel, -, hdetail⟩ := under_eq_some.mp hb
      exact ⟨hlabel, hdetail⟩

/-- Without prefixes, labels are keys. -/
theorem standsFor_of_unprefixed {bindings : List Binding} (h : ∀ b ∈ bindings, b.prefixKey = "")
    (messages : Messages) (label : String) :
    standsFor bindings messages label = under messages label "" := by
  rw [standsFor, if_pos h]

section Prefixed

variable {bindings : List Binding} (hprefixed : ∃ b ∈ bindings, b.prefixKey ≠ "")

include hprefixed

/-- A label stands for something if it completes some prefix to a key. -/
theorem isSome_standsFor (messages : Messages) (label : String) :
    (standsFor bindings messages label).isSome
      ↔ ∃ b ∈ bindings, b.prefixKey ≠ "" ∧ composeKey b.prefixKey label ∈ messages := by
  have hsome : ¬ ∀ b ∈ bindings, b.prefixKey = "" := by simpa using hprefixed
  rw [standsFor, if_neg hsome, List.findSome?_isSome_iff]
  refine exists_congr fun b => and_congr_right fun _ => ?_
  by_cases hempty : b.prefixKey = ""
  · simp [hempty]
  · rw [if_neg hempty, isSome_under]
    exact (and_iff_right hempty).symm

/-- It stands for the key below the prefix that is declared first of those that
it completes. -/
theorem find?_of_standsFor {messages : Messages} {label : String} {c : Completion}
    (h : standsFor bindings messages label = some c) :
    ∃ b, bindings.find? (fun b => b.prefixKey ≠ "" ∧ composeKey b.prefixKey label ∈ messages)
        = some b ∧ c.key = composeKey b.prefixKey label := by
  have hsome : ¬ ∀ b ∈ bindings, b.prefixKey = "" := by simpa using hprefixed
  rw [standsFor, if_neg hsome, List.findSome?_eq_some_iff] at h
  obtain ⟨before, b, after, hbindings, hb, hbefore⟩ := h
  split at hb
  · exact absurd hb (by simp)
  · rename_i hne
    have hkey : composeKey b.prefixKey label ∈ messages := by
      rw [← isSome_under, hb]
      rfl
    refine ⟨b, ?_, (under_eq_some.mp hb).2.1⟩
    refine List.find?_eq_some_iff_append.mpr ⟨by simp [hne, hkey], before, after, hbindings, ?_⟩
    -- an earlier binding has no prefix, or the label does not complete it to a
    -- key
    intro b' hb'
    have hnone := hbefore b' hb'
    by_cases hempty : b'.prefixKey = ""
    · simp [hempty]
    · have hkey' : composeKey b'.prefixKey label ∉ messages := by
        rw [if_neg hempty] at hnone
        rw [← isSome_under, hnone]
        simp
      simp [hkey']

end Prefixed

/-! ## The completions

Everything is put together. The entries of the messages are taken in any order,
and as the result is the same as in the order of the map, no order of a hash
map can show. A use that resolves is offered below the prefix of its own
binding; only if that has no prefix and another one has is nothing offered for
it. -/

/-- The completions that an order of the entries leads to. -/
def completeFrom (bindings : List Binding) (entries : List (String × String)) : List Completion :=
  distinct (candidates bindings entries)

end Completion

open Completion

/-- The entries are gone through in the order of their keys. -/
theorem complete_eq_completeFrom (bindings : List Binding) (messages : Messages) :
    complete bindings messages = completeFrom bindings messages.toList := rfl

/-- The order of the entries makes no difference. -/
theorem completeFrom_eq_complete (bindings : List Binding) {messages : Messages}
    {entries : List (String × String)} (hentries : entries.Perm messages.toList) :
    completeFrom bindings entries = complete bindings messages := by
  refine distinct_congr ?_
  intro label
  rw [find?_candidates bindings hentries]
  exact (find?_candidates bindings (.refl _) label).symm

/-- What is offered is what its label stands for. -/
theorem mem_complete {bindings : List Binding} {messages : Messages} {c : Completion} :
    c ∈ complete bindings messages ↔ standsFor bindings messages c.label = some c := by
  rw [complete_eq_completeFrom, completeFrom, mem_distinct, find?_candidates bindings (.refl _)]

/-- A label is offered if it stands for something. -/
theorem exists_mem_complete {bindings : List Binding} {messages : Messages} {label : String} :
    (∃ c ∈ complete bindings messages, c.label = label)
      ↔ (standsFor bindings messages label).isSome := by
  rw [Option.isSome_iff_exists]
  constructor
  · rintro ⟨c, hc, rfl⟩
    exact ⟨c, mem_complete.mp hc⟩
  · rintro ⟨c, hc⟩
    have hlabel := (of_standsFor hc).1
    refine ⟨c, mem_complete.mpr ?_, hlabel⟩
    rwa [hlabel]

/-- **What resolves is offered.** A use whose key has a text is offered by its
suffix, unless its own binding has no prefix and another one has. -/
theorem exists_mem_complete_of_resolved {bindings : List Binding} {messages : Messages}
    {use : KeyUse} (hresolved : (use.resolve bindings messages).text.isSome)
    (hbinding : (∃ b, bindings[use.binding]? = some b ∧ b.prefixKey ≠ "") ∨
      ∀ b ∈ bindings, b.prefixKey = "") :
    ∃ c ∈ complete bindings messages, c.label = use.suffix := by
  rw [exists_mem_complete]
  rcases hbinding with ⟨b, hb, hne⟩ | hnone
  · have hmem : b ∈ bindings := List.mem_of_getElem? hb
    rw [isSome_standsFor ⟨b, hmem, hne⟩]
    refine ⟨b, hmem, hne, ?_⟩
    simp only [KeyUse.resolve, hb, Option.elim_some] at hresolved
    rwa [Std.TreeMap.mem_iff_isSome_getElem?]
  · have hempty : (bindings[use.binding]?).elim "" (·.prefixKey) = "" := by
      cases hb : bindings[use.binding]? with
      | none => rfl
      | some b => exact hnone b (List.mem_of_getElem? hb)
    simp only [KeyUse.resolve, hempty] at hresolved
    rwa [standsFor_of_unprefixed hnone, isSome_under, Std.TreeMap.mem_iff_isSome_getElem?]

/-- **Completion agrees with resolution.** The labels come in their order and
without repetitions, each with the text of its key. If a binding has a prefix,
those labels are offered that complete a prefix to a key, each for the prefix
that is declared first of these; and if none has one, all keys are. So a use
that resolves is offered, in every file and with all settings, unless its own
binding has no prefix and another one has. -/
theorem complete_agrees (bindings : List Binding) (messages : Messages) :
    ((complete bindings messages).map (·.label)).Pairwise (· < ·) ∧
    (∀ c ∈ complete bindings messages, messages[c.key]? = some c.detail) ∧
    ((∃ b ∈ bindings, b.prefixKey ≠ "") → ∀ label : String,
      ((∃ c ∈ complete bindings messages, c.label = label) ↔
        ∃ b ∈ bindings, b.prefixKey ≠ "" ∧ composeKey b.prefixKey label ∈ messages) ∧
      ∀ c ∈ complete bindings messages, c.label = label →
        ∃ b, bindings.find? (fun b => b.prefixKey ≠ "" ∧
            composeKey b.prefixKey label ∈ messages) = some b ∧
          c.key = composeKey b.prefixKey label) ∧
    ((∀ b ∈ bindings, b.prefixKey = "") → ∀ c : Completion,
      c ∈ complete bindings messages ↔ messages[c.key]? = some c.detail ∧ c.label = c.key) ∧
    (∀ entries : List (String × String), entries.Perm messages.toList →
      completeFrom bindings entries = complete bindings messages) ∧
    (∀ (o : Outline) (settings : Settings), ∀ use ∈ o.keyUses settings bindings,
      (use.resolve bindings messages).text.isSome →
      (∃ b, bindings[use.binding]? = some b ∧ b.prefixKey ≠ "") ∨
        (∀ b ∈ bindings, b.prefixKey = "") →
      ∃ c ∈ complete bindings messages, c.label = use.suffix) := by
  refine ⟨?_, ?_, ?_, ?_, ?_, ?_⟩
  · exact pairwise_label_distinct _
  · exact fun c hc => (of_standsFor (mem_complete.mp hc)).2
  · intro hprefixed label
    refine ⟨exists_mem_complete.trans (isSome_standsFor hprefixed messages label), ?_⟩
    rintro c hc rfl
    exact find?_of_standsFor hprefixed (mem_complete.mp hc)
  · intro hnone c
    rw [mem_complete, standsFor_of_unprefixed hnone, under_eq_some, composeKey_empty]
    constructor
    · rintro ⟨-, hkey, hdetail⟩
      exact ⟨hdetail, hkey.symm⟩
    · rintro ⟨hdetail, hlabel⟩
      exact ⟨rfl, hlabel.symm, hdetail⟩
  · exact fun entries hentries => completeFrom_eq_complete bindings hentries
  · intro o settings use _ hresolved hbinding
    exact exists_mem_complete_of_resolved hresolved hbinding

/-- A use that resolves below the prefix of its binding. -/
theorem complete_agrees_of_home :
    let messages : Messages := (∅ : Messages).insert "home.title" "Welcome"
    ∃ o, Outline.ofSource .tsx "let t=useI18n('home');t('title')" = .ok o ∧
      ∃ use ∈ o.keyUses {} (o.bindings {}),
        (use.resolve (o.bindings {}) messages).text = some "Welcome" ∧
        (∃ b, (o.bindings {})[use.binding]? = some b ∧ b.prefixKey ≠ "") ∧
        ∃ c ∈ complete (o.bindings {}) messages, c.label = use.suffix := by
  intro messages
  obtain ⟨o, ho, hany⟩ : ∃ o, Outline.ofSource .tsx "let t=useI18n('home');t('title')" = .ok o ∧
      ((o.keyUses {} (o.bindings {})).any fun use =>
        (use.resolve (o.bindings {}) messages).text = some "Welcome" ∧
          ((o.bindings {})[use.binding]?.any fun b => b.prefixKey ≠ "")) = true :=
    exists_ok_of_any (by decide +kernel)
  obtain ⟨use, huse, hfacts⟩ := List.any_eq_true.mp hany
  obtain ⟨htext, hbound⟩ := of_decide_eq_true hfacts
  obtain ⟨b, hb, hne⟩ := (Option.any_eq_true _ _).mp hbound
  have hresolved : (use.resolve (o.bindings {}) messages).text.isSome := by
    rw [htext]
    rfl
  have hbinding : ∃ b, (o.bindings {})[use.binding]? = some b ∧ b.prefixKey ≠ "" :=
    ⟨b, hb, of_decide_eq_true hne⟩
  refine ⟨o, ho, use, huse, htext, hbinding, ?_⟩
  exact (complete_agrees (o.bindings {}) messages).2.2.2.2.2 o {} use huse hresolved (.inl hbinding)

end LocaleKeys
