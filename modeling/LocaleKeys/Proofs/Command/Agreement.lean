/-
Watching and checking agree.

Whoever watches a project brings its messages up to date file by file, and
whoever checks it merges all files anew. The two may differ in texts, where
files disagree and have changed since, because the order of merging is another
one. They do not differ in keys, and so they say the same about every document:
the same keys are missing, at the same places, and as many are resolved.

What is needed of watching is that its store is the one of the start with
reloads behind it, however time was cut into slices (`Watching.store_later`).
Then both stores are runs from a fresh one, both are coherent, and the keys of
a coherent store are those of what it holds (`Session.sameKeys_of_says`). The
rest is about the commands: a check finds the same project and the same
sources, and prints what watching prints.
-/
import LocaleKeys.Proofs.Command.Reports
import LocaleKeys.Proofs.Command.Runs
import LocaleKeys.Proofs.Dictionary.Orders
import LocaleKeys.Proofs.Outcomes
import LocaleKeys.Proofs.Session.Publishing

set_option autoImplicit false

namespace LocaleKeys

/-- A time in which the files stay as they are. -/
structure Slice where
  disk : Disk
  now : Nat
  stop : Nat

namespace Watching

/-- What is watched, some time later. -/
def later (w : Watching) (t : Slice) : Watching :=
  { w with project := { w.project with session := w.project.session.run t.disk t.now t.stop } }

/-- What is watched is a session that has started and has reloaded files since. -/
theorem store_later {w : Watching} (slices : List Slice) :
    let w' := slices.foldl later w
    w'.project.config = w.project.config ∧ w'.sources = w.sources ∧ w'.locale = w.locale ∧
      w'.project.session.settings = w.project.session.settings ∧
      w'.project.session.locale = w.project.session.locale ∧
      ∃ ops : List Operation, (∀ op ∈ ops, ∃ locale evaluated, op = .reload locale evaluated) ∧
        w'.project.session.store = w.project.session.store.run ops := by
  induction slices using List.reverseRecOn with
  | nil => exact ⟨rfl, rfl, rfl, rfl, rfl, [], by simp, rfl⟩
  | append_singleton slices t ih =>
    intro w'
    obtain ⟨hconfig, hsources, hlocale, hsettings, hcurrent, ops, hops, hstore⟩ := ih
    have hw' : w' = (slices.foldl later w).later t := by
      rw [show w' = (slices ++ [t]).foldl later w from rfl, List.foldl_append]
      rfl
    obtain ⟨hsettings', hcurrent', ops', hops', hstore'⟩ :=
      (slices.foldl later w).project.session.store_run t.disk t.now t.stop
    rw [hw']
    refine ⟨hconfig, hsources, hlocale, hsettings'.trans hsettings, hcurrent'.trans hcurrent,
      ops ++ ops', fun op hop => ?_, ?_⟩
    · rcases List.mem_append.mp hop with hop | hop
      · exact hops op hop
      · exact hops' op hop
    · rw [Store.run_append, ← hstore]
      exact hstore'

end Watching

namespace Session

/-- The messages of the current locale have the keys of what is held. -/
theorem mem_messages_iff {s : Session} {n : Nat} (h : s.store.Coherent s.locale n) (key : String) :
    key ∈ s.messages ↔ key ∈ (s.store.contributionsOf s.locale).merged := by
  rw [Std.TreeMap.mem_iff_isSome_getElem?, Std.TreeMap.mem_iff_isSome_getElem?, ← h.messages]
  rfl

/-- **Watching has the keys that a new start has**, if the files say what is
held. The texts may differ, for the one was merged change by change and the
other in one go, but which keys there are does not depend on the order. -/
theorem sameKeys_of_says {s watched : Session} {first : String}
    (hstore : s.store = .fresh first) (hlocale : watched.locale = s.locale)
    (henabled : s.settings.enabled = true) {d₀ d : Disk} {files₀ files : List Path}
    (hfiles₀ : s.localeFiles d₀ s.locale = .ok files₀) (hfiles : s.localeFiles d s.locale = .ok files)
    {ops : List Operation} (hops : ∀ op ∈ ops, ∃ locale evaluated, op = .reload locale evaluated)
    (hwatched : watched.store = (s.start d₀ 0).1.store.run ops)
    (hsaid : (watched.store.contributionsOf s.locale).Says s.loader d files) :
    watched.messages.SameKeys (s.start d 0).1.messages := by
  -- both stores are runs of a fresh one: a load and reloads on the one side, a
  -- load on the other
  have hstore₀ := (start_eq_ok 0 henabled hfiles₀).1
  have hstore' := (start_eq_ok 0 henabled hfiles).1
  obtain ⟨-, -, hlocale'⟩ := s.start_frame d 0
  rw [hstore₀, hstore, ← Store.run_append] at hwatched
  rw [hstore] at hstore'
  have hapart : (watched.store.contributionsOf s.locale).Apart := by
    rw [hwatched]
    refine Store.apart_run _ _ _ fun evaluated hload => ?_
    rcases List.mem_append.mp hload with hload | hload
    · obtain ⟨-, rfl⟩ := Operation.load.inj (List.mem_singleton.mp hload)
      have hselected : (s.select d₀ s.locale).2.toOption = some ⟨s.locale, files₀⟩ := by
        rw [select, hfiles₀]
        rfl
      have hlisted := (select_eq_ok hselected).2
      rw [Store.evaluate, List.map_map]
      simpa [Function.comp_def] using hlisted.apart
    · obtain ⟨locale, evaluated', heq⟩ := hops _ hload
      exact absurd heq (by simp)
  -- a coherent store has the keys of what it holds, and the files say what
  -- both hold
  intro key
  have hcoherent : watched.store.Coherent watched.locale _ := hwatched ▸ Store.coherent_run _ _ _
  have hcoherent' : (s.start d 0).1.store.Coherent (s.start d 0).1.locale _ :=
    hstore' ▸ Store.coherent_run _ _ _
  rw [mem_messages_iff hcoherent, mem_messages_iff hcoherent', hlocale, hlocale', hstore',
    hsaid.mem_merged_iff hapart, Store.run_singleton, Store.perform, Store.contributionsOf_commit]
  rfl

/-- **A session that could be started can be started again**, if its files can
be listed, and has then the keys of one that has gone on since the first start,
if the files say what that one holds. -/
theorem startable {settings : Settings} {root : Path} {created s watched : Session} {load : LoadReport}
    (hcreate : create settings root jsonLoader .polling = .ok created) {d₀ d : Disk}
    (hstart : created.start d₀ 0 = (s, .ok load)) {files : List Path}
    (hfiles : s.localeFiles d s.locale = .ok files) (hlocale : watched.locale = s.locale)
    {ops : List Operation} (hops : ∀ op ∈ ops, ∃ locale evaluated, op = .reload locale evaluated)
    (hstore : watched.store = s.store.run ops)
    (hsaid : (watched.store.contributionsOf s.locale).Says jsonLoader d files) :
    ∃ s' load', created.start d 0 = (s', .ok load') ∧ s'.settings = s.settings ∧
      s'.locale = s.locale ∧
      (s'.settings.enabled = true → watched.messages.SameKeys s'.messages) := by
  obtain ⟨first, locales, -, hsession⟩ := create_eq_ok hcreate
  have hloader : created.loader = jsonLoader := by rw [hsession]
  have hfresh : created.store = .fresh first := by rw [hsession]; rfl
  clear hcreate hsession
  obtain ⟨hsettings₀, hroot₀, hlocale₀⟩ := created.start_frame d₀ 0
  obtain ⟨hsettings₁, -, hlocale₁⟩ := created.start_frame d 0
  rw [hstart] at hsettings₀ hroot₀ hlocale₀
  have hlisted : created.localeFiles d created.locale = .ok files := by
    rwa [localeFiles, hsettings₀, hroot₀, hlocale₀] at hfiles
  -- without analysis nothing is loaded, and there are no keys to compare
  by_cases henabled : created.settings.enabled = true
  · obtain ⟨-, load', hload'⟩ := start_eq_ok 0 henabled hlisted
    refine ⟨_, load', Prod.ext rfl hload', hsettings₁.trans hsettings₀.symm,
      hlocale₁.trans hlocale₀.symm, fun _ => ?_⟩
    -- the first start has listed its files, since it did not fail
    cases hfiles₀ : created.localeFiles d₀ created.locale with
    | error fault =>
      have herror := start_eq_error 0 henabled hfiles₀
      rw [hstart] at herror
      exact absurd herror (by simp)
    | ok files₀ =>
      refine sameKeys_of_says hfresh (hlocale.trans hlocale₀) henabled hfiles₀ hlisted hops ?_ ?_
      · rw [hstart]
        exact hstore
      · rw [hloader, ← hlocale₀]
        exact hsaid
  · refine ⟨created, _, by rw [start, if_neg henabled], hsettings₀.symm, hlocale₀.symm,
      fun h => absurd h henabled⟩

end Session

namespace Watching

variable {paths : List Path} {options : CommonOptions} {σ₀ σ : Surroundings}

/-- What is reported is what a check prints, if the check starts with the same
keys. -/
theorem out_report_of_sameKeys {w : Watching} {p : Project} {s : Session} {load : LoadReport}
    (hopened : ((Project.opened options).run σ).1 = .ok p)
    (hstart : p.session.start σ.disk 0 = (s, .ok load))
    (hsources : w.sources = (p.scan σ.disk paths).files) (hlocale : w.locale = s.locale)
    (hsettings : w.project.session.settings = s.settings)
    (hcurrent : w.project.session.locale = s.locale)
    (hkeys : s.settings.enabled = true → w.project.session.messages.SameKeys s.messages) :
    ((checkSources paths false options).run σ).2.out
      = σ.out ++ Report.text (w.project.outcomes σ.disk w.sources) w.locale false := by
  rw [out_checkSources hopened hstart, ← hsources, ← hlocale]
  exact congrArg (σ.out ++ ·) (Project.text_outcomes_eq hsettings.symm hcurrent.symm
    (fun henabled => hkeys (hsettings ▸ henabled)) σ.disk w.sources w.locale).symm

/-- **A check prints what is reported last.** Whatever has happened while a
project was watched: if a check opens the same project and finds the same
sources, and if the files that it lists say what is held then, it prints the
report on what is watched. -/
theorem out_check_eq {w : Watching} (hbegun : ((begun paths options).run σ₀).1 = .ok w)
    (hsame : ((Project.opened options).run σ).1 = ((Project.opened options).run σ₀).1)
    (hsources : (w.project.scan σ.disk paths).files = w.sources) {files : List Path}
    (hfiles : w.project.session.localeFiles σ.disk w.locale = .ok files) (slices : List Slice)
    (hsaid : ((slices.foldl later w).project.session.store.contributionsOf w.locale).Says jsonLoader
      σ.disk files) :
    let w' := slices.foldl later w
    ((checkSources paths false options).run σ).2.out
      = σ.out ++ Report.text (w'.project.outcomes σ.disk w'.sources) w'.locale false := by
  intro w'
  -- the check opens the session that was started when watching began, and
  -- starts it again
  obtain ⟨p, s, load, hopened, hstart, hcreate, hw⟩ := begun_eq_ok hbegun
  obtain ⟨-, hsources', hlocale', hsettings, hcurrent, ops, hops, hstore⟩ :=
    store_later (w := w) slices
  have hsession : w.project.session = s := congrArg (fun w => w.project.session) hw
  have hlocale : w.locale = s.locale := congrArg Watching.locale hw
  have hscan : (p.scan σ.disk paths).files = w.sources :=
    (congrArg (fun w => (w.project.scan σ.disk paths).files) hw).symm.trans hsources
  rw [hsession] at hsettings hcurrent hstore hfiles
  rw [hlocale] at hlocale' hfiles hsaid
  obtain ⟨s', load', hstart', hsettings₁, hlocale₁, hkeys⟩ :=
    Session.startable hcreate hstart hfiles hcurrent hops hstore hsaid
  exact out_report_of_sameKeys (hsame.trans hopened) hstart' (hsources'.trans hscan.symm)
    (hlocale'.trans hlocale₁.symm) (hsettings.trans hsettings₁.symm)
    (hcurrent.trans hlocale₁.symm) hkeys

/-- What is printed when time passes: nothing, unless a change is announced. -/
theorem out_proceed (w : Watching) (σ : Surroundings) (now stop : Nat) :
    let w' := w.later ⟨σ.disk, now, stop⟩
    ((w.proceed now stop).run σ).2.out
      = if w.project.session.announced < w'.project.session.announced then
          σ.out ++ "\nLocale files changed, re-checking...\n"
            ++ Report.text (w'.project.outcomes σ.disk w'.sources) w'.locale false
        else σ.out := by
  intro w'
  rw [proceed, Run.run_bind_of_ok (show Run.disk.run σ = (.ok σ.disk, σ) from rfl)]
  by_cases hchanged : w.project.session.announced < w'.project.session.announced
  · rw [if_pos hchanged]
    dsimp only
    rw [if_pos (show _ < (w.project.session.run σ.disk now stop).announced from hchanged)]
    rfl
  · rw [if_neg hchanged]
    dsimp only
    rw [if_neg (show ¬ _ < (w.project.session.run σ.disk now stop).announced from hchanged)]
    rfl

end Watching

/-- **Merging anew changes no report.** Whatever happens behind a load, the
published messages have the keys of what is held, merged in any order, and the
same text wherever the files that have a key agree. So each key use of a
document is resolved with both or with neither, the same keys are missing, and
as many are resolved. And so whoever watches a project prints what a check
prints that starts anew, when the files that it lists say what is held. -/
theorem merging_anew_changes_no_report :
    (∀ (current locale : String) (evaluated : List Evaluated) (ops : List Operation),
      let s := (Store.fresh current).run (.load locale evaluated :: ops)
      ∃ dict, s.dictionary? locale = some dict ∧
        ∀ files : List (Path × Messages), files.Perm (s.contributionsOf locale).files →
          let merged := Contributions.merged ⟨files⟩
          (∀ key, key ∈ dict.messages ↔ key ∈ merged) ∧
          (∀ key text : String,
            (∀ f ∈ files, ∀ given : String, f.2[key]? = some given → given = text) →
              dict.messages[key]? = merged[key]?) ∧
          ∀ (o : Outline) (settings : Settings) (bindings : List Binding),
            let published := o.resolve settings bindings dict.messages
            let anew := o.resolve settings bindings merged
            List.Forall₂ Resolution.SortedLike published anew ∧
              ∀ (uri : String) (version : Int),
                let report := FileReport.ofResolutions uri version locale published
                let report' := FileReport.ofResolutions uri version locale anew
                report.missing = report'.missing ∧
                  report.resolved.length = report'.resolved.length) ∧
    ∀ (paths : List Path) (options : CommonOptions) (σ₀ σ : Surroundings) (w : Watching)
      (slices : List Slice) (now stop : Nat) (files : List Path),
      ((Watching.begun paths options).run σ₀).1 = .ok w →
      ((Project.opened options).run σ).1 = ((Project.opened options).run σ₀).1 →
      (w.project.scan σ.disk paths).files = w.sources →
      w.project.session.localeFiles σ.disk w.locale = .ok files →
      let w' := slices.foldl Watching.later w
      let w'' := w'.later ⟨σ.disk, now, stop⟩
      (w''.project.session.store.contributionsOf w.locale).Says jsonLoader σ.disk files →
        ∃ text, ((checkSources paths false options).run σ).2.out = σ.out ++ text ∧
          ((w'.proceed now stop).run σ).2.out
            = if w'.project.session.announced < w''.project.session.announced then
                σ.out ++ "\nLocale files changed, re-checking...\n" ++ text
              else σ.out := by
  refine ⟨fun current locale evaluated ops => ?_, ?_⟩
  · obtain ⟨dict, hdict⟩ := Store.exists_dictionary_of_load current [] ops locale evaluated
    refine ⟨dict, hdict, fun files hperm => ?_⟩
    obtain ⟨hkeys, htexts⟩ := (Store.coherent_run current _ locale).merged_of_perm hdict hperm
    refine ⟨hkeys, htexts, fun o settings bindings => ?_⟩
    have hsorted := o.sortedLike_resolve hkeys settings bindings
    refine ⟨hsorted, fun uri version => ?_⟩
    have hreport := FileReport.wordless_ofResolutions hsorted uri version locale
    refine ⟨congrArg (fun r => r.missing) hreport, ?_⟩
    simpa [FileReport.wordless] using congrArg (fun r => r.resolved.length) hreport
  · intro paths options σ₀ σ w slices now stop files hbegun hsame hsources hfiles w' w'' hsaid
    -- the last slice is one more of those watched, so that the run before it
    -- needs no lemma of its own
    have hlast : (slices ++ [(⟨σ.disk, now, stop⟩ : Slice)]).foldl Watching.later w = w'' := by
      rw [List.foldl_append]
      rfl
    rw [← hlast] at hsaid
    have hcheck := Watching.out_check_eq hbegun hsame hsources hfiles _ hsaid
    rw [hlast] at hcheck
    exact ⟨_, hcheck, Watching.out_proceed w' σ now stop⟩

/-- A file that changes while its project is watched, after the poller has had
its first turn: one key goes and another one comes. Both commands say then that
the first one is missing. -/
theorem merging_anew_changes_no_report_of_edit :
    let disk (text : String) (modified : Nat) : Disk :=
      ⟨.directory [
        ("src", .directory [("locales", .directory
          [("zh-CN.json", .file (.ofText text modified))])]),
        ("a.ts", .file (.ofText "const { t } = useI18n(); t(\"a\"); t(\"b\");" 1))], []⟩
    let σ₀ : Surroundings := { disk := disk "\x7b\"a\":\"1\"\x7d" 1 }
    let σ : Surroundings := { disk := disk "\x7b\"b\":\"2\"\x7d" 2 }
    ∃ w, ((Watching.begun [⟨"a.ts"⟩] {}).run σ₀).1 = .ok w ∧
      ∃ text, ((checkSources [⟨"a.ts"⟩] false {}).run σ).2.out = σ.out ++ text ∧
        (((w.later ⟨σ₀.disk, 0, 1⟩).proceed 1 1000).run σ).2.out
          = σ.out ++ "\nLocale files changed, re-checking...\n" ++ text := by
  intro disk σ₀ σ
  let path : Path := ⟨"src/locales/zh-CN.json"⟩
  let begun (w : Watching) : Watching := w.later ⟨σ₀.disk, 0, 1⟩
  let edited (w : Watching) : Watching := (begun w).later ⟨σ.disk, 1, 1000⟩
  let held (w : Watching) : Contributions := (edited w).project.session.store.contributionsOf w.locale
  obtain ⟨w, hbegun, hfacts⟩ : ∃ w, ((Watching.begun [⟨"a.ts"⟩] {}).run σ₀).1 = .ok w ∧
      decide ((w.project.scan σ.disk [⟨"a.ts"⟩]).files = w.sources ∧
        (w.project.session.localeFiles σ.disk w.locale).toOption = some [path] ∧
        (begun w).project.session.announced < (edited w).project.session.announced ∧
        (held w).files.map Prod.fst = [path] ∧
        ((held w).find? path).map (·.keys) = some ["b"]) = true :=
    exists_ok_of_any (by decide +kernel)
  obtain ⟨hsources, hfiles, hchanged, hpaths, hheld⟩ := of_decide_eq_true hfacts
  have hread : (jsonLoader.messages σ.disk path).toOption.map (·.keys) = some ["b"] := by
    decide +kernel
  have hsaid : (held w).Says jsonLoader σ.disk [path] := by
    refine ⟨fun p hp key => ?_, fun f hf => ⟨path, List.mem_cons_self, ?_⟩⟩
    · obtain rfl := List.mem_singleton.mp hp
      obtain ⟨given, hgiven, hkeys⟩ := Option.map_eq_some_iff.mp hread
      obtain ⟨m, hm, hkeys'⟩ := Option.map_eq_some_iff.mp hheld
      rw [hgiven, hm, Option.getD_some, Option.getD_some, ← Std.TreeMap.mem_keys, hkeys,
        ← Std.TreeMap.mem_keys, hkeys']
    · have hmem := List.mem_map_of_mem (f := Prod.fst) hf
      rw [hpaths] at hmem
      rw [List.mem_singleton.mp hmem]
      exact Path.same_refl path
  obtain ⟨text, hcheck, hwatch⟩ := merging_anew_changes_no_report.2 [⟨"a.ts"⟩] {} σ₀ σ w
    [⟨σ₀.disk, 0, 1⟩] 1 1000 [path] hbegun rfl hsources (toOption_eq_some_iff.mp hfiles) hsaid
  rw [List.foldl_cons, List.foldl_nil, if_pos hchanged] at hwatch
  exact ⟨w, hbegun, text, hcheck, hwatch⟩

end LocaleKeys
