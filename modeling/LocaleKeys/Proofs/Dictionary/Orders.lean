/-
What the order of merging decides, and what it does not.

A file that changes becomes the latest, so that the order in which the files of
a locale are merged depends on what has happened to them. What depends on the
order is only which text wins where files disagree. Which keys there are does
not (`Contributions.mem_merged_iff`), and neither do the texts that all files
agree on (`Contributions.getElem?_merged_of_agreed`). Published messages are
merged in the order that the changes have left, and so they have the keys of a
merge in any order, also of one that starts anew from what the files say now
(`Contributions.Says.mem_merged_iff`).
-/
import LocaleKeys.Proofs.Dictionary.Holdings
import LocaleKeys.Proofs.Dictionary.Runs
import LocaleKeys.Proofs.Outcomes

set_option autoImplicit false

namespace LocaleKeys

namespace Contributions

/-! ## Keys and agreed texts

Merging depends on the order only where two files have different texts for one
key. Which keys there are is a property of the set of files, and so is the text
of a key on which all of them agree. -/

section

variable (c : Contributions) (key : String)

/-- A key has a latest text if some file has the key. -/
theorem latest?_isSome_iff : (c.latest? key).isSome ↔ ∃ f ∈ c.files, key ∈ f.2 := by
  rw [latest?, List.findSome?_isSome_iff]
  simp only [List.mem_reverse, Std.TreeMap.mem_iff_isSome_getElem?]

/-- **Which keys a merge has** does not depend on the order: those of all
files. Only which of several texts a key has may depend on it. -/
theorem mem_merged_iff : key ∈ c.merged ↔ ∃ f ∈ c.files, key ∈ f.2 := by
  rw [Std.TreeMap.mem_iff_isSome_getElem?, getElem?_merged, latest?_isSome_iff]

/-- **The text that all files agree on** is the one that is merged, in
whichever order. Files without the key have no say in it. -/
theorem getElem?_merged_of_agreed {text : String}
    (hagreed : ∀ f ∈ c.files, ∀ given : String, f.2[key]? = some given → given = text) :
    c.merged[key]? = if ∃ f ∈ c.files, key ∈ f.2 then some text else none := by
  rw [getElem?_merged]
  cases h : c.latest? key with
  | none =>
    rw [if_neg]
    rw [← latest?_isSome_iff, h]
    simp
  | some given =>
    rw [if_pos ((c.latest?_isSome_iff key).mp (by rw [h]; rfl))]
    obtain ⟨f, hf, hgiven⟩ := List.exists_of_findSome?_eq_some h
    rw [hagreed f (List.mem_reverse.mp hf) given hgiven]

end

/-! ## Starting anew

Whoever starts anew loads the files as they are now, in the order of the list.
To compare that with what is held, the files must say what is held of them.
`Says` asks this for keys only, up to how the path is written, and allows for
files that say nothing and are therefore not held. -/

/-- The files that are listed say what the contributions hold, as far as keys
are concerned. A file that says nothing may be listed if it has given nothing,
and nothing is held of a file that is not listed. -/
structure Says (c : Contributions) (loader : Loader) (d : Disk) (files : List Path) : Prop where
  given : ∀ p ∈ files, ∀ key : String,
    key ∈ (loader.messages d p).toOption.getD ∅ ↔ key ∈ (c.find? p).getD ∅
  listed : ∀ f ∈ c.files, ∃ p ∈ files, p.same f.1 = true

/-- What is found under a path is what some file gave. -/
theorem exists_of_find? {c : Contributions} {p : Path} {m : Messages} (h : c.find? p = some m) :
    ∃ f ∈ c.files, f.2 = m := by
  obtain ⟨f, hf, rfl⟩ := Option.map_eq_some_iff.mp h
  exact ⟨f, List.mem_of_find?_eq_some hf, rfl⟩

/-- Whoever has a key has messages. -/
theorem exists_of_mem_getD {m? : Option Messages} {key : String} (h : key ∈ m?.getD ∅) :
    ∃ m, m? = some m ∧ key ∈ m := by
  cases m? with
  | none => exact absurd h Std.TreeMap.not_mem_emptyc
  | some m => exact ⟨m, rfl, h⟩

/-- What is contributed by files that are loaded anew. -/
theorem mem_files_of_evaluate {loader : Loader} {d : Disk} {files : List Path}
    {f : Path × Messages} :
    f ∈ (Store.evaluate loader d files).filterMap (Store.contributed {}) ↔
      f.1 ∈ files ∧ loader.messages d f.1 = .ok f.2 := by
  rw [List.mem_filterMap]
  constructor
  · rintro ⟨e, he, hf⟩
    obtain ⟨p, hp, rfl⟩ := List.mem_map.mp he
    cases hload : loader.messages d p with
    | error fault => rw [hload] at hf; exact absurd hf (by simp [Store.contributed, find?])
    | ok m =>
      rw [hload] at hf
      obtain rfl := Option.some.inj hf
      exact ⟨hp, hload⟩
  · rintro ⟨hp, hload⟩
    exact ⟨(f.1, loader.messages d f.1), List.mem_map.mpr ⟨f.1, hp, rfl⟩, by rw [hload]; rfl⟩

/-- **What is held has the keys of what is loaded anew**, if the files say what
is held. Keys alone are compared, so what is held may stand in another order
and under other ways of writing the paths. -/
theorem Says.mem_merged_iff {c : Contributions} {loader : Loader} {d : Disk} {files : List Path}
    (h : c.Says loader d files) (hapart : c.Apart) (key : String) :
    key ∈ c.merged ↔
      key ∈ merged ⟨(Store.evaluate loader d files).filterMap (Store.contributed {})⟩ := by
  rw [c.mem_merged_iff, Contributions.mem_merged_iff]
  constructor
  · -- what is held of a file is what the path that is listed for it says
    rintro ⟨f, hf, hkey⟩
    obtain ⟨p, hp, hsame⟩ := h.listed f hf
    have hfind : c.find? p = some f.2 := hapart.find?_eq hf (by rwa [Path.same_comm])
    have hsaid := (h.given p hp key).mpr (by rwa [hfind])
    obtain ⟨m, hm, hkey'⟩ := exists_of_mem_getD hsaid
    exact ⟨(p, m), mem_files_of_evaluate.mpr ⟨hp, toOption_eq_some_iff.mp hm⟩, hkey'⟩
  · rintro ⟨f, hf, hkey⟩
    obtain ⟨hp, hload⟩ := mem_files_of_evaluate.mp hf
    have hheld := (h.given f.1 hp key).mp (by rwa [hload])
    obtain ⟨m, hm, hkey'⟩ := exists_of_mem_getD hheld
    obtain ⟨f', hf', rfl⟩ := exists_of_find? hm
    exact ⟨f', hf', hkey'⟩

end Contributions

namespace Store

/-! ## Runs

Looking contributions up by path is reliable as long as no two of them are
under the same path. A run keeps them apart if its loads list no file twice.
With the invariant of runs (`coherent_run`) this says what the published
messages of a run have in common with any merge of what it holds. -/

/-- An operation that lists no file of the locale twice keeps its files apart. -/
theorem apart_perform {s : Store} {locale : String} (h : (s.contributionsOf locale).Apart)
    {op : Operation}
    (hload : ∀ evaluated, op = .load locale evaluated → Path.Apart (evaluated.map Prod.fst)) :
    ((s.perform op).contributionsOf locale).Apart := by
  -- a change replaces the contribution of its file or appends one, and both
  -- keep files apart
  have hchange : ∀ p new, ((s.applyChange locale p new).contributionsOf locale).Apart := by
    intro p new
    obtain ⟨m, hm⟩ := s.contributionsOf_applyChange locale p new
    rw [hm]
    exact Contributions.apart_change _ _ _ _ h
  -- operations about other locales leave the contributions of this one alone
  by_cases hop : op.locale? = some locale
  · cases op with
    | load locale' evaluated =>
      obtain rfl : locale' = locale := by simpa [Operation.locale?] using hop
      exact apart_commit _ _ (hload evaluated rfl)
    | change locale' p new =>
      obtain rfl : locale' = locale := by simpa [Operation.locale?] using hop
      exact hchange p new
    | reload locale' evaluated =>
      obtain rfl : locale' = locale := by simpa [Operation.locale?] using hop
      obtain ⟨p, fault | m⟩ := evaluated
      · exact h
      · exact hchange p m
    | select locale' => exact absurd hop (by simp [Operation.locale?])
    | cycle supported => exact absurd hop (by simp [Operation.locale?])
  · -- an operation on another locale
    rw [contributionsOf, (perform_of_ne s op locale hop).2]
    exact h

/-- A new store holds nothing. -/
theorem contributionsOf_fresh (current locale : String) :
    (fresh current).contributionsOf locale = {} := by
  rw [contributionsOf, show (fresh current).contributions[locale]? = none from
    Std.TreeMap.getElem?_emptyc]
  rfl

/-- A run in which no load of the locale lists a file twice holds no file
twice. -/
theorem apart_run (current : String) (ops : List Operation) (locale : String)
    (hloads : ∀ evaluated, .load locale evaluated ∈ ops → Path.Apart (evaluated.map Prod.fst)) :
    (((fresh current).run ops).contributionsOf locale).Apart := by
  induction ops using List.reverseRecOn with
  | nil =>
    rw [show (fresh current).run [] = fresh current from rfl, contributionsOf_fresh]
    exact List.Pairwise.nil
  | append_singleton ops op ih =>
    have h := ih fun evaluated hmem => hloads evaluated (List.mem_append_left _ hmem)
    rw [run_append, run_singleton]
    refine apart_perform h fun evaluated hop => hloads evaluated ?_
    rw [hop]
    exact List.mem_append_right _ List.mem_cons_self

/-- **Published messages against a merge in any order**: they have the same
keys, and the same text wherever the files that have the key agree. What is
published is a merge of the same files in some order of its own. -/
theorem Coherent.merged_of_perm {s : Store} {locale : String} {n : Nat} (h : s.Coherent locale n)
    {dict : Dictionary} (hd : s.dictionary? locale = some dict) {files : List (Path × Messages)}
    (hperm : files.Perm (s.contributionsOf locale).files) :
    let merged := Contributions.merged ⟨files⟩
    (∀ key, key ∈ dict.messages ↔ key ∈ merged) ∧
      ∀ key text : String, (∀ f ∈ files, ∀ given : String, f.2[key]? = some given → given = text) →
        dict.messages[key]? = merged[key]? := by
  intro merged
  have hfiles : ∀ key : String, (∃ f ∈ (s.contributionsOf locale).files, key ∈ f.2) ↔
      ∃ f ∈ files, key ∈ f.2 := fun key => by simp only [hperm.mem_iff]
  refine ⟨fun key => ?_, fun key text hagreed => ?_⟩
  · rw [Std.TreeMap.mem_iff_isSome_getElem?, h.merged dict hd, ← Std.TreeMap.mem_iff_isSome_getElem?,
      Contributions.mem_merged_iff, Contributions.mem_merged_iff, hfiles]
  · have hheld : ∀ f ∈ (s.contributionsOf locale).files, ∀ given : String,
        f.2[key]? = some given → given = text := fun f hf => hagreed f (hperm.mem_iff.mpr hf)
    rw [h.merged dict hd, Contributions.getElem?_merged_of_agreed _ key hheld,
      Contributions.getElem?_merged_of_agreed _ key hagreed]
    simp only [hfiles]

/-- Behind a load there is a dictionary. -/
theorem exists_dictionary_of_load (current : String) (before later : List Operation)
    (locale : String) (evaluated : List Evaluated) :
    ∃ dict, ((fresh current).run (before ++ .load locale evaluated :: later)).dictionary? locale
      = some dict := by
  have hcounted := (coherent_run current (before ++ .load locale evaluated :: later) locale).counted
  have hpublishes : (Operation.load locale evaluated).publishes locale = true := beq_self_eq_true _
  rw [List.countP_append, List.countP_cons_of_pos hpublishes] at hcounted
  cases hd : ((fresh current).run (before ++ .load locale evaluated :: later)).dictionary? locale with
  | some dict => exact ⟨dict, rfl⟩
  | none =>
    rw [version, hd, Option.elim_none] at hcounted
    omega

end Store

end LocaleKeys
