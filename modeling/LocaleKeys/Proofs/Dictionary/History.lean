/-
What a file has given, read off the history of its store.

Many requests may be about a file, but what the store holds of it depends on
one of them: on the last that has either set what the file gives or dropped the
file (`Request.LastSet`). Whatever fails is neither, so that it cannot be told
from what was never asked. The order of merging begins anew with each load and
is changed by every change since.

Both are proved request by request, for one file and for the list of all; what
is left then is the induction along the history.
-/
import LocaleKeys.Proofs.Dictionary.Requests

set_option autoImplicit false

namespace LocaleKeys

namespace Store

/-! ## One request after the other

For each kind of request there is one fact about a single file: what is set is
given (`find?_serve_of_sets`), what is dropped is not (`find?_serve_of_drops`),
and all else stays (`find?_serve_of_untouched`). And there is one fact about
the list of files, that every request but a load reorders it (`files_serve`).
Both need that no file is held twice, which each request preserves. -/

/-- The store behind a request. -/
def serve (s : Store) : Request → Store
  | .loadAll loader d locale paths => (s.loadAll loader d locale paths).1
  | .applyChange locale p new => s.applyChange locale p new
  | .reload loader d locale p => (s.reload loader d locale p).1
  | .setLocale locale => s.setLocale locale
  | .cycle supported => ((s.cycle supported).map (·.1)).getD s

/-- The store behind requests that come one after the other. -/
def serveAll (s : Store) (requests : List Request) : Store := requests.foldl serve s

@[simp] theorem serveAll_append (s : Store) (requests requests' : List Request) :
    s.serveAll (requests ++ requests') = (s.serveAll requests).serveAll requests' :=
  List.foldl_append

@[simp] theorem serveAll_singleton (s : Store) (r : Request) : s.serveAll [r] = s.serve r := rfl

/-- A request is an operation with what the loader makes of its files. -/
theorem serve_eq_perform (s : Store) (r : Request) : s.serve r = s.perform r.operation := by
  cases r with
  | loadAll loader d locale paths => exact (s.perform_load_evaluate loader d locale paths).symm
  | reload loader d locale p => exact (s.perform_reload_evaluate loader d locale p).symm
  | applyChange locale p new => rfl
  | setLocale locale => rfl
  | cycle supported => rfl

/-- A reload that goes well is the change of the file. -/
theorem reload_of_ok (s : Store) {loader : Loader} {d : Disk} {p : Path} {value : Json.Value}
    (h : loader d p = .ok value) (locale : String) :
    s.reload loader d locale p = (s.applyChange locale p (flatten value), none) := by
  rw [reload, Loader.messages, h]
  rfl

/-- **A reload that fails** leaves the whole store as it is. The fault is
handed to the caller, and what the file gave before stays in the messages. -/
theorem reload_of_error (s : Store) {loader : Loader} {d : Disk} {p : Path} {fault : LoadFault}
    (h : loader d p = .error fault) (locale : String) :
    s.reload loader d locale p = (s, some fault) := by
  rw [reload, Loader.messages, h]
  rfl

section

variable {s : Store} {locale : String} (h : (s.contributionsOf locale).Apart)
include h

/-- A request that lists no file twice holds no file twice. -/
theorem apart_serve {r : Request}
    (hlisted : ∀ loader d paths, r = .loadAll loader d locale paths → Path.Apart paths) :
    ((s.serve r).contributionsOf locale).Apart := by
  rw [serve_eq_perform]
  refine apart_perform h fun evaluated hop => ?_
  cases r with
  | loadAll loader d locale' paths =>
    obtain ⟨rfl, rfl⟩ := Operation.load.inj hop
    exact apart_evaluate (hlisted loader d paths rfl) loader d
  | applyChange locale' p new => exact absurd hop (by simp [Request.operation])
  | reload loader d locale' p => exact absurd hop (by simp [Request.operation])
  | setLocale locale' => exact absurd hop (by simp [Request.operation])
  | cycle supported => exact absurd hop (by simp [Request.operation])

/-! ### What a file has given

What a file has given is decided by the last operation that has touched it.
Each kind of operation has its lemma: what it does to the file that it is
about, and that it does nothing to the others. -/

/-- A file that has changed gives what it gives now. -/
theorem find?_applyChange {p q : Path} (hsame : q.same p = true) (new : Messages) :
    ((s.applyChange locale q new).contributionsOf locale).find? p = some new := by
  obtain ⟨m, hm⟩ := s.contributionsOf_applyChange locale q new
  rw [hm]
  exact Contributions.find?_change_self _ _ _ _ h hsame

/-- The change of another file, or of another locale, is none of this one. -/
theorem find?_applyChange_of_ne {locale' : String} {p q : Path}
    (hne : ¬ (locale' = locale ∧ q.same p = true)) (new : Messages) :
    ((s.applyChange locale' q new).contributionsOf locale).find? p
      = (s.contributionsOf locale).find? p := by
  by_cases hlocale : locale' = locale
  · subst hlocale
    obtain ⟨m, hm⟩ := s.contributionsOf_applyChange locale' q new
    rw [hm]
    exact Contributions.find?_change_of_ne _ _ _ _ fun hsame => hne ⟨rfl, hsame⟩
  · rw [s.contributionsOf_applyChange_of_ne locale' q new hlocale]

/-- What a request sets is given behind it. -/
theorem find?_serve_of_sets {r : Request} {p : Path} {m : Messages}
    (hlisted : ∀ loader d paths, r = .loadAll loader d locale paths → Path.Apart paths)
    (hsets : r.Sets locale p m) : ((s.serve r).contributionsOf locale).find? p = some m := by
  cases hsets with
  | @loaded loader d paths q value hmem hsame hvalue =>
    have hapart := apart_evaluate (hlisted loader d paths rfl) loader d
    have hevaluated : (q, loader.messages d q) ∈ evaluate loader d paths :=
      List.mem_map.mpr ⟨q, hmem, rfl⟩
    rw [serve, loadAll, s.find?_commit_of_listed locale hapart hevaluated hsame, Loader.messages,
      hvalue]
    rfl
  | applied hsame => exact find?_applyChange h hsame m
  | reloaded hsame hvalue =>
    rw [serve, s.reload_of_ok hvalue]
    exact find?_applyChange h hsame _

omit h in
/-- What a request drops is given no more. -/
theorem find?_serve_of_drops {r : Request} {p : Path} (hdrops : r.Drops locale p) :
    ((s.serve r).contributionsOf locale).find? p = none := by
  obtain ⟨hunlisted⟩ := hdrops
  refine s.find?_commit_of_unlisted locale fun e he => ?_
  obtain ⟨q, hq, rfl⟩ := List.mem_map.mp he
  exact hunlisted q hq

/-- **Whatever is neither** leaves what the file has given, a load that lists
the file and cannot evaluate it included. -/
theorem find?_serve_of_untouched {r : Request} {p : Path}
    (hlisted : ∀ loader d paths, r = .loadAll loader d locale paths → Path.Apart paths)
    (huntouched : ¬ r.Touches locale p) :
    ((s.serve r).contributionsOf locale).find? p = (s.contributionsOf locale).find? p := by
  cases r with
  | loadAll loader d locale' paths =>
    by_cases hlocale : locale' = locale
    · subst hlocale
      -- the file is listed, or it would be dropped, and its evaluation failed,
      -- or it would be set
      have hmem : ∃ q ∈ paths, q.same p = true := by
        by_contra hunlisted
        exact huntouched (.inr ⟨fun q hq hsame => hunlisted ⟨q, hq, hsame⟩⟩)
      obtain ⟨q, hq, hsame⟩ := hmem
      have hapart := apart_evaluate (hlisted loader d paths rfl) loader d
      have hevaluated : (q, loader.messages d q) ∈ evaluate loader d paths :=
        List.mem_map.mpr ⟨q, hq, rfl⟩
      rw [serve, loadAll, s.find?_commit_of_listed locale' hapart hevaluated hsame, Loader.messages]
      cases hload : loader d q with
      | ok value => exact absurd (.inl ⟨_, .loaded hq hsame hload⟩) huntouched
      | error fault =>
        rw [← Contributions.find?_congr _ hsame]
        simp [Except.map, contributed, Function.comp_def]
    · rw [serve, loadAll, s.contributionsOf_commit_of_ne locale' _ hlocale]
  | applyChange locale' q new =>
    refine find?_applyChange_of_ne h ?_ new
    rintro ⟨rfl, hsame⟩
    exact huntouched (.inl ⟨_, .applied hsame⟩)
  | reload loader d locale' q =>
    rw [serve]
    cases hload : loader d q with
    | error fault => rw [s.reload_of_error hload]
    | ok value =>
      rw [s.reload_of_ok hload]
      refine find?_applyChange_of_ne h ?_ _
      rintro ⟨rfl, hsame⟩
      exact huntouched (.inl ⟨_, .reloaded hsame hload⟩)
  | setLocale locale' => rfl
  | cycle supported =>
    rw [serve_eq_perform, contributionsOf, Request.operation, (s.perform_cycle supported).2]
    rfl

/-! ### The order of merging

The same is done for the order of the files, where an operation on one file
also moves the places of the others. -/

/-- A file that has changed moves to the end. -/
theorem files_applyChange (p : Path) (new : Messages) :
    (s.applyChange locale p new).files locale
      = (s.files locale).filter (!·.same p) ++ [p] := by
  obtain ⟨m, hm⟩ := s.contributionsOf_applyChange locale p new
  rw [files, files, hm, Contributions.change_files, ← Contributions.paths_without h p,
    Contributions.paths, Contributions.paths, List.map_append]
  rfl

/-- A request other than a load reorders the files. -/
theorem files_serve {r : Request} (hload : ¬ r.Loads locale) :
    (s.serve r).files locale = r.reorder locale (s.files locale) := by
  -- a change of another locale leaves the files of this one where they are
  have hother : ∀ locale' p new, locale' ≠ locale →
      (s.applyChange locale' p new).files locale = s.files locale := by
    intro locale' p new hne
    rw [files, files, s.contributionsOf_applyChange_of_ne locale' p new hne]
  rw [Request.reorder]
  cases r with
  | loadAll loader d locale' paths =>
    have hne : locale' ≠ locale := by
      rintro rfl
      exact hload ⟨loader, d, paths, rfl⟩
    rw [serve, loadAll, files, s.contributionsOf_commit_of_ne locale' _ hne]
    rfl
  | applyChange locale' p new =>
    rw [serve, Request.changed?]
    by_cases hlocale : locale' = locale
    · subst hlocale
      rw [if_pos rfl, files_applyChange h]
      rfl
    · rw [if_neg hlocale, hother locale' p new hlocale]
      rfl
  | reload loader d locale' p =>
    rw [serve, Request.changed?]
    cases hload : loader d p with
    | error fault =>
      -- a reload that fails changes no file
      rw [s.reload_of_error hload, if_neg (by simp [Except.isOk, Except.toBool])]
      rfl
    | ok value =>
      rw [s.reload_of_ok hload]
      by_cases hlocale : locale' = locale
      · subst hlocale
        rw [if_pos ⟨rfl, rfl⟩, files_applyChange h]
        rfl
      · rw [if_neg fun hboth => hlocale hboth.1, hother locale' p _ hlocale]
        rfl
  | setLocale locale' => rfl
  | cycle supported =>
    rw [serve_eq_perform, files, contributionsOf, Request.operation, (s.perform_cycle supported).2]
    rfl

end

/-! ## Histories

Two inductions along the history. For what a file gives, the last request is
taken off, because it decides if it touches the file. For the order of merging
the first one is taken off, because the order starts with a load and is changed
step by step from there. -/

section

variable (current : String) {requests : List Request} (locale : String)
  (hlisted : ∀ loader d paths, .loadAll loader d locale paths ∈ requests → Path.Apart paths)
include hlisted

/-- Behind requests that list no file twice, no file is held twice. -/
theorem apart_serveAll : (((fresh current).serveAll requests).contributionsOf locale).Apart := by
  induction requests using List.reverseRecOn with
  | nil =>
    rw [show (fresh current).serveAll [] = fresh current from rfl, contributionsOf_fresh]
    exact List.Pairwise.nil
  | append_singleton requests r ih =>
    have h := ih fun loader d paths hmem => hlisted loader d paths (List.mem_append_left _ hmem)
    rw [serveAll_append, serveAll_singleton]
    refine apart_serve h fun loader d paths hr => hlisted loader d paths ?_
    rw [hr]
    exact List.mem_append_right _ List.mem_cons_self

/-- **What a file has given** is what the last request says that has set or
dropped it. The induction takes the last request off: if it touches the file it
decides, and if it does not, nothing has changed. -/
theorem find?_serveAll_iff (p : Path) (m : Messages) :
    (((fresh current).serveAll requests).contributionsOf locale).find? p = some m ↔
      Request.LastSet requests locale p m := by
  induction requests using List.reverseRecOn with
  | nil =>
    rw [show (fresh current).serveAll [] = fresh current from rfl, contributionsOf_fresh]
    exact iff_of_false (by simp [Contributions.find?]) (Request.lastSet_nil locale p m)
  | append_singleton requests r ih =>
    have hearlier : ∀ loader d paths, .loadAll loader d locale paths ∈ requests →
        Path.Apart paths := fun loader d paths hmem =>
      hlisted loader d paths (List.mem_append_left _ hmem)
    have hlast : ∀ loader d paths, r = .loadAll loader d locale paths → Path.Apart paths := by
      rintro loader d paths rfl
      exact hlisted loader d paths (List.mem_append_right _ List.mem_cons_self)
    have h := apart_serveAll current locale hearlier
    rw [serveAll_append, serveAll_singleton, Request.lastSet_append_singleton]
    -- the last request either decides on the file or leaves it as it was
    by_cases htouches : r.Touches locale p
    · rw [or_iff_left fun hboth => hboth.1 htouches]
      rcases htouches with ⟨m', hsets⟩ | hdrops
      · rw [find?_serve_of_sets h hlast hsets]
        constructor
        · intro heq
          rwa [← Option.some.inj heq]
        · intro hsets'
          rw [← find?_serve_of_sets h hlast hsets, find?_serve_of_sets h hlast hsets']
      · rw [find?_serve_of_drops hdrops]
        refine iff_of_false (by simp) fun hsets => ?_
        have hfind := find?_serve_of_sets h hlast hsets
        rw [find?_serve_of_drops hdrops] at hfind
        exact absurd hfind (by simp)
    · rw [find?_serve_of_untouched h hlast htouches, ih hearlier]
      constructor
      · intro hset
        exact .inr ⟨htouches, hset⟩
      · rintro (hsets | ⟨-, hset⟩)
        · exact absurd (.inl ⟨m, hsets⟩) htouches
        · exact hset

omit hlisted in
/-- Without a load, every request reorders the files. -/
theorem files_serveAll {s : Store} (h : (s.contributionsOf locale).Apart)
    (hload : ∀ r ∈ requests, ¬ r.Loads locale) :
    (s.serveAll requests).files locale
      = requests.foldl (Request.reorder locale) (s.files locale) := by
  induction requests generalizing s with
  | nil => rfl
  | cons r requests ih =>
    have hr : ¬ r.Loads locale := hload r List.mem_cons_self
    have hapart : ((s.serve r).contributionsOf locale).Apart :=
      apart_serve h fun loader d paths heq => absurd ⟨loader, d, paths, heq⟩ hr
    have hrest := ih hapart fun r' hr' => hload r' (List.mem_cons_of_mem r hr')
    rw [List.foldl_cons, ← files_serve h hr]
    exact hrest

end

/-- **Contributions are determined by the history.** Behind any requests, of
which no load of the locale lists a file twice, the contribution of a file is
what the last request has set that set or dropped the file, and there is none
if no such request has set any. The files are merged in the order of the last
load, those of its list that could be loaded or had given something before, and
each later change that went well has moved its file to the end. Whatever is
loaded then, the report counts every file of the list once, as loaded or with
its fault, in the order of the list; and a reload that fails changes nothing in
the store. -/
theorem contributions_by_history (current : String) {requests : List Request} (locale : String)
    (hlisted : ∀ loader d paths, .loadAll loader d locale paths ∈ requests → Path.Apart paths) :
    let s := (fresh current).serveAll requests
    (∀ p m, (s.contributionsOf locale).find? p = some m ↔ Request.LastSet requests locale p m) ∧
      (∀ before loader d paths later, requests = before ++ .loadAll loader d locale paths :: later →
        (∀ r ∈ later, ¬ r.Loads locale) →
        s.files locale = later.foldl (Request.reorder locale) (paths.filter fun p =>
          (loader d p).isOk ||
            ((((fresh current).serveAll before).contributionsOf locale).find? p).isSome)) ∧
      ((∀ r ∈ requests, ¬ r.Loads locale) →
        s.files locale = requests.foldl (Request.reorder locale) []) ∧
      (∀ loader d other paths,
        let report := (s.loadAll loader d other paths).2
        report.locale = other ∧ report.faults = paths.filterMap (loader.fault? d) ∧
          report.loaded = paths.countP (fun p => (loader d p).isOk) ∧
          report.loaded + report.faults.length = paths.length) ∧
      ∀ loader d other p fault, loader d p = .error fault →
        s.reload loader d other p = (s, some fault) := by
  intro s
  refine ⟨find?_serveAll_iff current locale hlisted, ?_, ?_, ?_, ?_⟩
  · rintro before loader d paths later rfl hlater
    -- behind the last load, requests only reorder what it has listed
    have hbefore : (((fresh current).serveAll before).contributionsOf locale).Apart :=
      apart_serveAll current locale fun loader d paths hmem =>
        hlisted loader d paths (List.mem_append_left _ hmem)
    have hloaded := apart_serve hbefore (r := .loadAll loader d locale paths) <| by
      rintro loader' d' paths' heq
      refine hlisted loader' d' paths' ?_
      rw [← heq]
      exact List.mem_append_right _ List.mem_cons_self
    rw [show s = (((fresh current).serveAll before).serve (.loadAll loader d locale paths)).serveAll
      later from serveAll_append _ _ _, files_serveAll locale hloaded hlater, serve, files_loadAll]
  -- without any load, the order starts with no files at all
  · intro hload
    have hfresh : ((fresh current).contributionsOf locale).Apart := by
      rw [contributionsOf_fresh]
      exact List.Pairwise.nil
    rw [show s = (fresh current).serveAll requests from rfl, files_serveAll locale hfresh hload, files,
      contributionsOf_fresh]
    rfl
  · exact fun loader d other paths => s.report_loadAll loader d other paths
  · exact fun loader d other p fault hfault => s.reload_of_error hfault other

/-- A file that was loaded once, is then loaded again under another spelling of
its path and reloaded, both in vain, and has another one behind it in the
second list: it still gives what it gave, and stands in its new place. -/
theorem contributions_by_history_of_faults :
    let value : Json.Value := .object [("k", .string "1")]
    let good : Loader := fun _ _ => .ok value
    let bad : Loader := fun _ p => .error ⟨p, .failed "no"⟩
    let requests : List Request :=
      [.loadAll good {} "en" [⟨"l/a"⟩, ⟨"l/b"⟩], .loadAll bad {} "en" [⟨"l/b"⟩, ⟨"l//a"⟩],
        .reload bad {} "en" ⟨"l/b"⟩]
    let s := (fresh "en").serveAll requests
    (∀ loader d paths, .loadAll loader d "en" paths ∈ requests → Path.Apart paths) ∧
      (s.contributionsOf "en").find? ⟨"l/a"⟩ = some (flatten value) ∧
      s.files "en" = [⟨"l/b"⟩, ⟨"l//a"⟩] := by
  intro value good bad requests s
  have hlisted : ∀ loader d paths, .loadAll loader d "en" paths ∈ requests → Path.Apart paths := by
    intro loader d paths hmem
    rcases List.mem_cons.mp hmem with heq | hmem
    · obtain ⟨-, -, -, rfl⟩ := Request.loadAll.inj heq
      decide +kernel
    · rcases List.mem_cons.mp hmem with heq | hmem
      · obtain ⟨-, -, -, rfl⟩ := Request.loadAll.inj heq
        decide +kernel
      · exact absurd (List.mem_singleton.mp hmem) (by simp)
  obtain ⟨hgiven, hfiles, -⟩ := contributions_by_history "en" "en" hlisted
  refine ⟨hlisted, (hgiven _ _).mpr ⟨[], _, _, rfl, .loaded List.mem_cons_self rfl rfl, ?_⟩, ?_⟩
  · -- neither of the later requests evaluates anything, and the file is listed in the later load
    intro r hr
    rcases List.mem_cons.mp hr with rfl | hr
    · rintro (⟨m, hsets⟩ | hdrops)
      · cases hsets with
        | loaded hmem hsame hvalue => exact absurd hvalue (by simp [bad])
      · cases hdrops with
        | unlisted h => exact h ⟨"l//a"⟩ (by simp) (by decide +kernel)
    · rw [List.mem_singleton.mp hr]
      rintro (⟨m, hsets⟩ | hdrops)
      · cases hsets with
        | reloaded hsame hvalue => exact absurd hvalue (by simp [bad])
      · cases hdrops
  · have hlater : ∀ r ∈ [Request.reload bad {} "en" ⟨"l/b"⟩], ¬ r.Loads "en" := by
      intro r hr
      rw [List.mem_singleton.mp hr]
      rintro ⟨loader, d, paths, heq⟩
      exact absurd heq (by simp)
    rw [hfiles [_] bad {} _ [_] rfl hlater]
    decide +kernel

end Store

end LocaleKeys
