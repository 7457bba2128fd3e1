/-
What is asked of a store, and what each request makes of one file.

A file of a locale is evaluated again and again: in loads of the whole locale,
and on its own when it changes. Some of that goes well and some does not, and
the lists of files that are loaded may differ from one load to the next. A
request that evaluates the file sets what it gives (`Request.Sets`), a load
that does not list it drops it (`Request.Drops`), and whatever else happens
leaves it alone, failures included. The order in which files are merged is
another matter: each change that goes well puts its file at the end
(`Request.reorder`).

The one request that is about many files is a load, and what it makes of a
single one of them is `Store.find?_commit_of_listed`. It rests on the files of
the list being apart, since else one of them could be taken for another.
-/
import LocaleKeys.Proofs.Dictionary.Orders

set_option autoImplicit false

namespace LocaleKeys

/-! ## Requests

An operation carries what came out for its files, a request the loader and the
disk by which it comes out. The history of a store is told in requests, as the
claim does: whether an evaluation goes well is decided at the time it is made.

What a request means for one file is one of three things. It sets what the file
gives, it drops the file, or it leaves it alone. `LastSet` looks back through
the requests for the last one of the first two kinds and asks that it is of the
first. -/

/-- Something that a store is asked for. With each goes the loader and the
files of its time, so that they may differ from one to the next. -/
inductive Request where
  | loadAll (loader : Loader) (d : Disk) (locale : String) (paths : List Path)
  | applyChange (locale : String) (p : Path) (new : Messages)
  | reload (loader : Loader) (d : Disk) (locale : String) (p : Path)
  | setLocale (locale : String)
  | cycle (supported : List String)

/-- Why a file cannot be loaded, if it cannot. -/
def Loader.fault? (loader : Loader) (d : Disk) (p : Path) : Option LoadFault :=
  match loader d p with
  | .ok _ => none
  | .error fault => some fault

/-- What is no fault went well. -/
theorem Loader.isSome_fault? (loader : Loader) (d : Disk) (p : Path) :
    (loader.fault? d p).isSome = !(loader d p).isOk := by
  rw [Loader.fault?]
  cases loader d p <;> rfl

namespace Request

/-- What is done with the store, with what comes out for the files. -/
def operation : Request → Operation
  | loadAll loader d locale paths => .load locale (Store.evaluate loader d paths)
  | applyChange locale p new => .change locale p new
  | reload loader d locale p => .reload locale (p, loader.messages d p)
  | setLocale locale => .select locale
  | cycle supported => .cycle supported

/-- The request sets what a file has given to a locale: the file was evaluated,
and this came out. -/
inductive Sets (locale : String) (p : Path) : Request → Messages → Prop where
  | loaded {loader : Loader} {d : Disk} {paths : List Path} {q : Path} {value : Json.Value}
    (hlisted : q ∈ paths) (hsame : q.same p = true) (hvalue : loader d q = .ok value) :
    Sets locale p (.loadAll loader d locale paths) (flatten value)
  | applied {q : Path} {new : Messages} (hsame : q.same p = true) :
    Sets locale p (.applyChange locale q new) new
  | reloaded {loader : Loader} {d : Disk} {q : Path} {value : Json.Value}
    (hsame : q.same p = true) (hvalue : loader d q = .ok value) :
    Sets locale p (.reload loader d locale q) (flatten value)

/-- The request drops a file: the locale is loaded without it. -/
inductive Drops (locale : String) (p : Path) : Request → Prop where
  | unlisted {loader : Loader} {d : Disk} {paths : List Path}
    (hunlisted : ∀ q ∈ paths, ¬ q.same p = true) : Drops locale p (.loadAll loader d locale paths)

/-- The request either sets what a file has given or drops the file. -/
def Touches (locale : String) (p : Path) (r : Request) : Prop :=
  (∃ m, r.Sets locale p m) ∨ r.Drops locale p

/-- The last request that has set what a file gives has set this, and none has
dropped the file since. -/
def LastSet (requests : List Request) (locale : String) (p : Path) (m : Messages) : Prop :=
  ∃ before r later, requests = before ++ r :: later ∧ r.Sets locale p m ∧
    ∀ r' ∈ later, ¬ r'.Touches locale p

theorem lastSet_nil (locale : String) (p : Path) (m : Messages) : ¬ LastSet [] locale p m := by
  rintro ⟨before, r, later, heq, -, -⟩
  exact absurd heq (by simp)

/-- The last of the requests decides, unless it leaves the file alone. -/
theorem lastSet_append_singleton (requests : List Request) (r : Request) (locale : String) (p : Path)
    (m : Messages) :
    LastSet (requests ++ [r]) locale p m ↔
      r.Sets locale p m ∨ (¬ r.Touches locale p ∧ LastSet requests locale p m) := by
  constructor
  · rintro ⟨before, r', later, heq, hsets, hlater⟩
    rcases List.eq_nil_or_concat later with rfl | ⟨later, last, rfl⟩
    · obtain ⟨-, rfl⟩ := List.append_inj' heq rfl |>.imp_right List.singleton_inj.mp
      exact .inl hsets
    · rw [List.concat_eq_append] at heq hlater
      rw [← List.cons_append, ← List.append_assoc] at heq
      obtain ⟨rfl, rfl⟩ := List.append_inj' heq rfl |>.imp_right List.singleton_inj.mp
      refine .inr ⟨hlater r (List.mem_append_right _ List.mem_cons_self), before, r', later, rfl,
        hsets, fun r'' hr'' => hlater r'' (List.mem_append_left _ hr'')⟩
  · rintro (hsets | ⟨huntouched, before, r', later, rfl, hsets, hlater⟩)
    · exact ⟨requests, r, [], rfl, hsets, by simp⟩
    · refine ⟨before, r', later ++ [r], by simp, hsets, fun r'' hr'' => ?_⟩
      rcases List.mem_append.mp hr'' with hr'' | hr''
      · exact hlater r'' hr''
      · rw [List.mem_singleton.mp hr'']
        exact huntouched

/-! ### The order of merging

Merging goes through the files in the order in which they are kept. Loading
puts them in the order of the list, and each change puts its file at the end,
so that the order is that of the latest changes behind that of the latest
load. -/

/-- All files of the locale are loaded. -/
def Loads (locale : String) (r : Request) : Prop :=
  ∃ loader d paths, r = .loadAll loader d locale paths

/-- The file of the locale that has changed, if its change went well. -/
def changed? (locale : String) : Request → Option Path
  | applyChange locale' p _ => if locale' = locale then some p else none
  | reload loader d locale' p => if locale' = locale ∧ (loader d p).isOk then some p else none
  | loadAll _ _ _ _ | setLocale _ | cycle _ => none

/-- The order of merging behind a request: a file that has changed moves to the
end. -/
def reorder (locale : String) (order : List Path) (r : Request) : List Path :=
  (r.changed? locale).elim order fun p => order.filter (!·.same p) ++ [p]

end Request

namespace Store

/-! ## What a load makes of its files

A load takes its files in the order of its list, keeps what a file gave before
if it cannot be loaded, and drops what is not listed. Its report counts the
files by the same outcomes. -/

/-- The files that contribute behind a load: those that could be loaded, and
those that gave something before. -/
theorem files_loadAll (s : Store) (loader : Loader) (d : Disk) (locale : String)
    (paths : List Path) :
    (s.loadAll loader d locale paths).1.files locale
      = paths.filter fun p =>
          (loader d p).isOk || ((s.contributionsOf locale).find? p).isSome := by
  rw [loadAll, files, contributionsOf_commit, Contributions.paths, evaluate]
  induction paths with
  | nil => rfl
  | cons p paths ih =>
    rw [List.map_cons, List.filterMap_cons, List.filter_cons, Loader.messages]
    cases hload : loader d p with
    | ok value =>
      rw [if_pos (by simp [Except.isOk, Except.toBool])]
      exact congrArg _ ih
    | error fault =>
      -- a file that cannot be loaded keeps what it gave before, if it gave
      -- anything
      cases hfind : (s.contributionsOf locale).find? p with
      | none =>
        rw [if_neg (by simp [Except.isOk, Except.toBool])]
        simp only [Except.map, contributed, hfind, Option.map_none]
        exact ih
      | some m =>
        rw [if_pos (by simp)]
        simp only [Except.map, contributed, hfind, Option.map_some]
        exact congrArg _ ih

/-- **The report on a load** counts every file once, as loaded or with its
fault. That holds for files that are listed twice, too, since both counts go
through the list. -/
theorem report_loadAll (s : Store) (loader : Loader) (d : Disk) (locale : String)
    (paths : List Path) :
    let report := (s.loadAll loader d locale paths).2
    report.locale = locale ∧ report.faults = paths.filterMap (loader.fault? d) ∧
      report.loaded = paths.countP (fun p => (loader d p).isOk) ∧
      report.loaded + report.faults.length = paths.length := by
  intro report
  have hfaults : report.faults = paths.filterMap (loader.fault? d) := by
    have hfault : (faultOf? ∘ fun p => (p, loader.messages d p)) = loader.fault? d := by
      funext p
      rw [Function.comp_apply, Loader.messages, Loader.fault?]
      cases loader d p <;> rfl
    rw [show report.faults = (evaluate loader d paths).filterMap faultOf? from rfl, evaluate,
      List.filterMap_map, hfault]
  -- each path is either loaded or has a fault
  have hcount : paths.length = paths.countP (fun p => (loader d p).isOk)
      + (paths.filterMap (loader.fault? d)).length := by
    rw [List.length_filterMap_eq_countP, List.length_eq_countP_add_countP fun p => (loader d p).isOk]
    simp only [Loader.isSome_fault?, Bool.not_eq_true, Bool.decide_eq_false]
  have hloaded : report.loaded = paths.length - (paths.filterMap (loader.fault? d)).length := by
    rw [← hfaults, show report.loaded = (evaluate loader d paths).length - report.faults.length from rfl,
      evaluate, List.length_map]
  refine ⟨rfl, hfaults, ?_, ?_⟩
  · omega
  · rw [hfaults]
    omega

end Store

end LocaleKeys
