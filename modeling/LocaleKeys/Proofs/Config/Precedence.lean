/-
Which file of a locale has the last word.

The files of a locale are listed template by template, and a later template
adds what no earlier one has found. They are merged as they are listed, so that
for a key that several files have, the last of them decides
(`Store.getElem?_loadAll`).

What one template adds increases where the search for it is not tangled, so
that the greatest path is the last (`localeFiles_in_order`). This is so for the
template of a project that names none, whatever its files. With two stars in
front of a directory that may lie inside of another one of its name, and no two
stars behind it, the files of the outer one come first, whatever the inner one
is called (`nested_files_out_of_order`).
-/
import LocaleKeys.Proofs.Config.Accepted
import LocaleKeys.Proofs.Dictionary.Commuting
import LocaleKeys.Proofs.Glob.Sorting

set_option autoImplicit false

namespace LocaleKeys

/-! ## The last word

Loading commits the files in the order in which they are listed, and publishing
merges what they have contributed in that order. So a text of a key is
published if it is that of a file behind which no other has the key. Files that
could not be read or parsed keep what they contributed before, if anything; the
statement is about what they have contributed in the end. -/

/-- The latest text of a key is that of a file behind which no other file has
the key. -/
theorem Contributions.latest?_of_last {front behind : List (Path × Messages)} {f : Path × Messages}
    {key text : String} (hf : f.2[key]? = some text) (hbehind : ∀ g ∈ behind, g.2[key]? = none) :
    (Contributions.mk (front ++ f :: behind)).latest? key = some text := by
  have hnone : behind.reverse.findSome? (·.2[key]?) = none :=
    List.findSome?_eq_none_iff.mpr fun g hg => hbehind g (List.mem_reverse.mp hg)
  rw [latest?, List.reverse_append, List.reverse_cons, List.findSome?_append, List.findSome?_append, hnone,
    Option.none_or, List.findSome?_singleton, hf, Option.some_or]

namespace Store

/-- **The last file that has the key decides** what is published for it when a
locale is loaded. A file that fails to load counts with what it gave before,
which is why the conditions speak of what is held behind the load. -/
theorem getElem?_loadAll (s : Store) (loader : Loader) (d : Disk) (locale : String)
    {front behind : List Path} {p : Path} (hapart : Path.Apart (front ++ p :: behind)) {key text : String} :
    let loaded := (s.loadAll loader d locale (front ++ p :: behind)).1
    ((loaded.contributionsOf locale).find? p).bind (·[key]?) = some text →
      (∀ q ∈ behind, ¬ (loaded.contributionsOf locale).Gives q key) →
      (loaded.dictionary? locale).bind (·.messages[key]?) = some text := by
  intro loaded htext hbehind
  let give := fun q => contributed (s.contributionsOf locale) (q, loader.messages d q)
  have hfind : ∀ q ∈ front ++ p :: behind,
      (loaded.contributionsOf locale).find? q = (give q).map (·.2) := fun q hq =>
    s.find?_commit_of_listed locale (apart_evaluate hapart loader d) (List.mem_map.mpr ⟨q, hq, rfl⟩)
      (Path.same_refl q)
  -- the file has given something, and what is given behind it does not have
  -- the key
  rw [hfind p (by simp)] at htext
  obtain ⟨m, hm, hkey⟩ := Option.bind_eq_some_iff.mp htext
  obtain ⟨f, hf, rfl⟩ := Option.map_eq_some_iff.mp hm
  have hnone : ∀ g ∈ behind.filterMap give, g.2[key]? = none := by
    intro g hg
    obtain ⟨q, hq, hgive⟩ := List.mem_filterMap.mp hg
    have hgives := hbehind q hq
    rw [Contributions.Gives, hfind q (by simp [hq]), hgive] at hgives
    simpa [Std.TreeMap.contains_iff_mem] using hgives
  have hfiles : (front ++ p :: behind).filterMap give
      = front.filterMap give ++ f :: behind.filterMap give := by
    rw [List.filterMap_append, List.filterMap_cons_some hf]
  have hcontributions : (evaluate loader d (front ++ p :: behind)).filterMap
      (contributed (s.contributionsOf locale)) = (front ++ p :: behind).filterMap give := List.filterMap_map
  show ((s.commit locale _).1.dictionary? locale).bind _ = _
  rw [commit, dictionary?_publish, if_pos rfl, Option.bind_some, Contributions.getElem?_merged,
    hcontributions, hfiles]
  exact Contributions.latest?_of_last hkey hnone

/-- Of files that increase, the greatest that has the key decides, unless a
file behind them has it. -/
theorem getElem?_loadAll_of_increasing (s : Store) (loader : Loader) (d : Disk) (locale : String)
    {earlier new later : List Path} (hapart : Path.Apart (earlier ++ new ++ later))
    (hincreasing : Path.Increasing new) {p : Path} (hp : p ∈ new) {key text : String} :
    let loaded := (s.loadAll loader d locale (earlier ++ new ++ later)).1
    ((loaded.contributionsOf locale).find? p).bind (·[key]?) = some text →
      (∀ q ∈ new, (loaded.contributionsOf locale).Gives q key → q.compare p ≠ .gt) →
      (∀ q ∈ later, ¬ (loaded.contributionsOf locale).Gives q key) →
      (loaded.dictionary? locale).bind (·.messages[key]?) = some text := by
  obtain ⟨smaller, greater, rfl⟩ := List.append_of_mem hp
  have hsplit : earlier ++ (smaller ++ p :: greater) ++ later
      = earlier ++ smaller ++ p :: (greater ++ later) := by simp
  rw [hsplit] at hapart ⊢
  intro loaded htext hgreatest hlater
  refine s.getElem?_loadAll loader d locale hapart htext fun q hq => ?_
  rcases List.mem_append.mp hq with hq | hq
  · -- a greater one does not have the key
    intro hgives
    have hlt := (List.pairwise_cons.mp (List.pairwise_append.mp hincreasing).2.1).1 q hq
    exact hgreatest q (by simp [hq]) hgives (Std.OrientedCmp.gt_iff_lt.mpr hlt)
  · exact hlater q hq

end Store

/-! ## What a template adds

`Untangled` is a property of the search, which has the steps of the expanded
pattern. For a template it is asked of whatever pattern it is expanded to. What
is found is then sorted, possibly with repetitions, and without these it
increases; leaving out what an earlier template has found keeps it so.

The lists of all templates are appended first and freed of repetitions
afterwards, all at once. That this is the same as adding template by template
what is new is `Path.distinct_append`. -/

/-- The template has the placeholder, and each of its steps is a pattern. -/
structure UsableTemplate (template locale : String) : Prop where
  placeholder : hasPlaceholder template = true
  readable : Glob.StepsReadable (Text.replaced template localePlaceholder (Glob.escape locale))

/-- The search for the files of the template is not tangled. -/
def UntangledTemplate (d : Disk) (template locale : String) (root : Path) : Prop :=
  ∀ pattern steps, expandTemplate template locale root = .ok pattern → Glob.segments pattern = .ok steps →
    Glob.Untangled d steps (Path.mk pattern).start

/-- **What a template adds to other files**: those of its files that are none
of the others. A file is one of the others if some way of writing its path is
there. -/
structure Adds (d : Disk) (template locale : String) (root : Path) (earlier new : List Path) : Prop where
  fresh : ∀ p ∈ new, ∀ q ∈ earlier, ¬ p.same q = true
  complete : ∃ found, filesOfTemplate d template locale root = .ok found ∧ (∀ p ∈ new, p ∈ found) ∧
    ∀ p ∈ found, ∃ q ∈ earlier ++ new, q.same p = true

section

variable {d : Disk} {template locale : String} {root : Path} {found : List Path}

/-- The files of an untangled template are listed in order. -/
theorem rises_filesOfTemplate (hproper : d.root.Proper) (hsorted : d.root.Sorted)
    (huntangled : UntangledTemplate d template locale root)
    (hfound : filesOfTemplate d template locale root = .ok found) : Path.Rises found := by
  obtain ⟨pattern, hpattern, hfound⟩ := bind_eq_ok_iff.mp hfound
  cases hfind : Glob.find d pattern with
  | error fault =>
    rw [hfind] at hfound
    exact absurd hfound throw_ne_ok
  | ok paths =>
    rw [hfind] at hfound
    obtain rfl := Except.ok.inj hfound
    exact Glob.rises_of_find hproper hsorted hfind fun steps hsteps =>
      huntangled pattern steps hpattern hsteps

/-- What is found anew behind earlier files. -/
theorem adds_distinct (hfound : filesOfTemplate d template locale root = .ok found) (earlier : List Path) :
    Adds d template locale root (Path.distinct earlier)
      ((Path.distinct found).filter fun p => !earlier.any p.same) where
  fresh p hp q hq hsame := by
    have hnew := (List.mem_filter.mp hp).2
    rw [Bool.not_eq_true', List.any_eq_false] at hnew
    exact hnew q (Path.mem_of_mem_distinct hq) hsame
  complete := by
    refine ⟨found, hfound, fun p hp => Path.mem_of_mem_distinct (List.mem_filter.mp hp).1, fun p hp => ?_⟩
    rw [← Path.distinct_append]
    exact Path.exists_same_mem_distinct (List.mem_append_right earlier hp)

end

section

variable {d : Disk} {locale : String} {root : Path}

/-- A template that can be used gives files, perhaps none. -/
theorem UsableTemplate.exists_files {template : String} (h : UsableTemplate template locale) :
    ∃ found, filesOfTemplate d template locale root = .ok found :=
  (exists_filesOfTemplate_iff h.placeholder d locale root).mpr h.readable

/-- The files of a locale are those of its templates without repetitions. -/
theorem localeFiles_of_mapM {templates : List String} {found : List (List Path)}
    (h : templates.mapM (filesOfTemplate d · locale root) = .ok found) :
    localeFiles d templates locale root = .ok (Path.distinct found.flatten) := by
  rw [localeFiles, h]
  rfl

/-- **The files of templates are listed one template behind the other**, and
each template adds those of its files that are not listed yet. So a template
that comes earlier keeps the places of its files, and what later templates find
again is dropped. -/
theorem exists_localeFiles_append {front rest : List String} {template : String}
    (husable : ∀ t ∈ front ++ template :: rest, UsableTemplate t locale) :
    ∃ earlier found later, filesOfTemplate d template locale root = .ok found ∧
      let new := (Path.distinct found).filter fun p => !earlier.any p.same
      localeFiles d front locale root = .ok (Path.distinct earlier) ∧
      localeFiles d (front ++ [template]) locale root = .ok (Path.distinct earlier ++ new) ∧
      localeFiles d (front ++ template :: rest) locale root = .ok (Path.distinct earlier ++ new ++ later) ∧
      Path.Apart (Path.distinct earlier ++ new ++ later) := by
  obtain ⟨hfront, hrest⟩ := List.forall_mem_append.mp husable
  obtain ⟨htemplate, hrest⟩ := List.forall_mem_cons.mp hrest
  obtain ⟨before, hbefore⟩ : ∃ before, front.mapM (filesOfTemplate d · locale root) = .ok before :=
    exists_mapM_eq_ok_iff.mpr fun t ht => (hfront t ht).exists_files
  obtain ⟨after, hafter⟩ : ∃ after, rest.mapM (filesOfTemplate d · locale root) = .ok after :=
    exists_mapM_eq_ok_iff.mpr fun t ht => (hrest t ht).exists_files
  obtain ⟨found, hfound⟩ : ∃ found, filesOfTemplate d template locale root = .ok found :=
    htemplate.exists_files
  have hone : [template].mapM (filesOfTemplate d · locale root) = .ok [found] := by
    rw [List.mapM_cons, hfound]
    rfl
  have hupto := mapM_append_eq_ok hbefore hone
  have hall := mapM_append_eq_ok hupto hafter
  rw [List.append_assoc, List.singleton_append] at hall
  -- what is the same as an earlier file can be left out template by template
  have hnew := Path.distinct_append before.flatten found
  obtain ⟨later, hlist⟩ : ∃ later, Path.distinct (before.flatten ++ found ++ after.flatten)
      = Path.distinct (before.flatten ++ found) ++ later := ⟨_, Path.distinct_append _ _⟩
  refine ⟨before.flatten, found, later, hfound, localeFiles_of_mapM hbefore, ?_, ?_, ?_⟩
  · rw [localeFiles_of_mapM hupto, List.flatten_append, List.flatten_singleton, hnew]
  · rw [localeFiles_of_mapM hall, List.flatten_append, List.flatten_append, List.flatten_singleton, hlist,
      hnew]
  · rw [← hnew, ← hlist]
    exact Path.apart_distinct _

end

/-- **The files of a locale are listed template by template, and those that a
template adds are in order**, if the search for them is not tangled. When they
are loaded, a key that several of the added files have, and no file behind
these, has its text from the greatest path. -/
theorem localeFiles_in_order {d : Disk} (hproper : d.root.Proper) (hsorted : d.root.Sorted)
    {front rest : List String} {template locale : String} {root : Path}
    (husable : ∀ t ∈ front ++ template :: rest, UsableTemplate t locale) :
    ∃ earlier new later, localeFiles d front locale root = .ok earlier ∧
      localeFiles d (front ++ [template]) locale root = .ok (earlier ++ new) ∧
      localeFiles d (front ++ template :: rest) locale root = .ok (earlier ++ new ++ later) ∧
      Adds d template locale root earlier new ∧
      (UntangledTemplate d template locale root → Path.Increasing new ∧
        ∀ (s : Store) (loader : Loader) (key text : String), ∀ p ∈ new,
          let loaded := (s.loadAll loader d locale (earlier ++ new ++ later)).1
          ((loaded.contributionsOf locale).find? p).bind (·[key]?) = some text →
            (∀ q ∈ new, (loaded.contributionsOf locale).Gives q key → q.compare p ≠ .gt) →
            (∀ q ∈ later, ¬ (loaded.contributionsOf locale).Gives q key) →
            (loaded.dictionary? locale).bind (·.messages[key]?) = some text) := by
  obtain ⟨earlier, found, later, hfound, hfront, hadded, hall, hapart⟩ := exists_localeFiles_append husable
  refine ⟨_, _, later, hfront, hadded, hall, adds_distinct hfound earlier, fun huntangled => ?_⟩
  have hrises := rises_filesOfTemplate hproper hsorted huntangled hfound
  have hincreasing := hrises.increasing_distinct.filter fun p => !earlier.any p.same
  refine ⟨hincreasing, fun s loader key text p hp => ?_⟩
  exact s.getElem?_loadAll_of_increasing loader d locale hapart hincreasing hp

/-- A project with a directory inside of another one of the same name. -/
def nestedDisk : Disk where
  root := .directory [("src", .directory [("en.json", .file (.ofText "{}" 1)), ("locales", .directory
    [("a", .directory [("locales", .directory
      [("en.json", .file (.ofText "\x7b\"k\":\"inner\"\x7d" 1))])]),
      ("en.json", .file (.ofText "\x7b\"k\":\"outer\"\x7d" 1))])])]

/-- Its names are those of entries, and no directory has one twice. -/
theorem proper_nestedDisk : nestedDisk.root.Proper := by
  have hinner : (FileTree.directory [("locales", .directory
      [("en.json", .file (.ofText "\x7b\"k\":\"inner\"\x7d" 1))])]).Proper :=
    .cons (by decide) (by decide) (.cons (by decide) (by decide) (.file _) .empty) .empty
  exact .cons (by decide) (by decide) (.cons (by decide) (by decide) (.file _)
    (.cons (by decide) (by decide) (.cons (by decide) (by decide) hinner
      (.cons (by decide) (by decide) (.file _) .empty)) .empty)) .empty

/-- Its directories are in order. -/
theorem sorted_nestedDisk : nestedDisk.root.Sorted := by
  have hinner : (FileTree.directory [("locales", .directory
      [("en.json", .file (.ofText "\x7b\"k\":\"inner\"\x7d" 1))])]).Sorted :=
    .cons (by simp) (.cons (by simp) (.file _) .empty) .empty
  exact .cons (by simp) (.cons (by decide) (.file _)
    (.cons (by simp) (.cons (by decide) hinner (.cons (by simp) (.file _) .empty)) .empty)) .empty

/-- Two stars in front of the file find the files of both directories in order,
and the text of the greater path is published. -/
theorem localeFiles_in_order_of_nested :
    let files : List Path := [⟨"src/en.json"⟩, ⟨"src/locales/a/locales/en.json"⟩, ⟨"src/locales/en.json"⟩]
    localeFiles nestedDisk ["src/{locale}.json", "src/**/locales/**/{locale}.json"] "en" ⟨"."⟩ = .ok files ∧
      Adds nestedDisk "src/**/locales/**/{locale}.json" "en" ⟨"."⟩ (files.take 1) (files.drop 1) ∧
      Path.Increasing (files.drop 1) ∧
      (((Store.mk "en" ∅ ∅).loadAll jsonLoader nestedDisk "en" files).1.dictionary? "en").bind
        (·.messages["k"]?) = some "outer" := by
  intro files
  have husable : ∀ t ∈ ["src/{locale}.json"] ++ "src/**/locales/**/{locale}.json" :: [],
      UsableTemplate t "en" := by
    simp only [List.singleton_append, List.mem_cons, List.not_mem_nil, or_false, forall_eq_or_imp, forall_eq]
    exact ⟨⟨by decide, by decide +kernel⟩, ⟨by decide, by decide +kernel⟩⟩
  -- two stars stand behind the directory as well, which makes the pattern
  -- orderly
  have huntangled : UntangledTemplate nestedDisk "src/**/locales/**/{locale}.json" "en" ⟨"."⟩ := by
    intro pattern steps hpattern hsteps
    have hexpanded : expandTemplate "src/**/locales/**/{locale}.json" "en" ⟨"."⟩
        = .ok "./src/**/locales/**/en.json" := by decide +kernel
    obtain rfl := Except.ok.inj (hexpanded.symm.trans hpattern)
    have hread : Glob.segments "./src/**/locales/**/en.json"
        = .ok [.plain ".", .plain "src", .anyDepth, .plain "locales", .anyDepth, .plain "en.json"] := by
      decide +kernel
    obtain rfl := Except.ok.inj (hread.symm.trans hsteps)
    exact Glob.Orderly.untangled (by decide) _ _
  have hfiles : localeFiles nestedDisk ["src/{locale}.json", "src/**/locales/**/{locale}.json"] "en" ⟨"."⟩
      = .ok files := by decide +kernel
  obtain ⟨earlier, new, later, hfront, hadded, hall, hadds, horder⟩ :=
    localeFiles_in_order proper_nestedDisk sorted_nestedDisk husable
  obtain ⟨hincreasing, hlast⟩ := horder huntangled
  -- what the theorem speaks of are the files that are listed
  have hearlier : earlier = files.take 1 := by
    have hfirst : localeFiles nestedDisk ["src/{locale}.json"] "en" ⟨"."⟩ = .ok (files.take 1) := by
      decide +kernel
    exact Except.ok.inj (hfront.symm.trans hfirst)
  have hnew : new = files.drop 1 := by
    rw [hearlier] at hadded
    exact List.append_cancel_left (Except.ok.inj (hadded.symm.trans hfiles))
  have hlater : later = [] := by
    rw [hearlier, hnew] at hall
    have hnone := Except.ok.inj (hall.symm.trans hfiles)
    exact List.append_cancel_left (hnone.trans (List.append_nil files).symm)
  subst hearlier hnew hlater
  refine ⟨hfiles, hadds, hincreasing, ?_⟩
  exact hlast _ jsonLoader "k" "outer" ⟨"src/locales/en.json"⟩ (by decide +kernel) (by decide +kernel)
    (by decide +kernel) (by simp)

/-- **The files of the outer directory come first**, although one of the inner
directory is smaller, so that the text of the smaller path is published. The
search lists all files below one directory before it goes on to the next, and
the inner directory comes behind the outer one. -/
theorem nested_files_out_of_order :
    let files : List Path := [⟨"src/locales/en.json"⟩, ⟨"src/locales/a/locales/en.json"⟩]
    nestedDisk.root.Proper ∧ nestedDisk.root.Sorted ∧
      UsableTemplate "src/**/locales/{locale}.json" "en" ∧
      localeFiles nestedDisk ["src/**/locales/{locale}.json"] "en" ⟨"."⟩ = .ok files ∧
      ¬ Path.Increasing files ∧
      (((Store.mk "en" ∅ ∅).loadAll jsonLoader nestedDisk "en" files).1.dictionary? "en").bind
        (·.messages["k"]?) = some "inner" := by
  refine ⟨proper_nestedDisk, sorted_nestedDisk, ⟨by decide, by decide +kernel⟩, ?_, ?_, ?_⟩
  -- what is listed, that it does not increase, and which text is published
  · decide +kernel
  · decide +kernel
  · decide +kernel

/-- The search is tangled: from both directories it leads on to a file. -/
example : ¬ Glob.Untangled nestedDisk
    [.plain "src", .anyDepth, .plain "locales", .plain "en.json"] ⟨"."⟩ := by
  decide +kernel

end LocaleKeys
