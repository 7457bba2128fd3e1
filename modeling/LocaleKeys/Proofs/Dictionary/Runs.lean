/-
Runs of a store.

A store is only ever changed by five operations, and two of them do not look at
dictionaries at all. What the others leave behind is described by one invariant
for each locale (`Coherent`): the dictionary is there exactly if contributions
are, it carries the name of its locale, its version counts how often it was
published, and its messages are what merging the contributions would give.

The last part is the one with work in it, because only loading merges. The
change of a single file patches the published messages instead, and that it
comes out the same is `Contributions.getElem?_change_eq_merged`. All the rest
is about `publish`, the one place where a dictionary and its contributions are
replaced: it makes the invariant hold again for its own locale and leaves every
other locale alone.
-/
import LocaleKeys.Dictionary.Store
import LocaleKeys.Proofs.Dictionary.Merging
import Mathlib.Data.List.Induction

set_option autoImplicit false

namespace LocaleKeys

/-! ## Operations and runs

The operations are those by which a store is changed at all. Their arguments
are outcomes, not files: what a loader makes of a disk is settled before the
operation, so that one induction over operations covers all loaders, all disks
and all failures. That the functions of the store are such operations is true
by definition. -/

/-- Something that is done with a store. What came out for the files is part of
the operation, so that a run may go through any loaders, any disks and any
failures. -/
inductive Operation where
  /-- Publishes what came out for all files of a locale. -/
  | load (locale : String) (evaluated : List Evaluated)
  /-- Publishes what a single file gives from now on. -/
  | change (locale : String) (p : Path) (new : Messages)
  /-- Publishes what came out for a single file, unless it has a fault. -/
  | reload (locale : String) (evaluated : Evaluated)
  | select (locale : String)
  | cycle (supported : List String)

namespace Operation

/-- The locale whose dictionary the operation is about, if it is about one. -/
def locale? : Operation → Option String
  | load locale _ | change locale _ _ | reload locale _ => some locale
  | select _ | cycle _ => none

/-- The operation publishes a dictionary of this locale. -/
def publishes (locale : String) : Operation → Bool
  | load locale' _ | change locale' _ _ | reload locale' (_, .ok _) => locale' == locale
  | reload _ (_, .error _) | select _ | cycle _ => false

end Operation

namespace Store

/-- A store in which nothing was loaded yet. -/
def fresh (current : String) : Store := { current }

/-- The store behind an operation. -/
def perform (s : Store) : Operation → Store
  | .load locale evaluated => (s.commit locale evaluated).1
  | .change locale p new => s.applyChange locale p new
  | .reload locale evaluated => (s.commitReload locale evaluated).1
  | .select locale => s.setLocale locale
  | .cycle supported => ((s.cycle supported).map (·.1)).getD s

/-- The store behind operations that are done one after the other. -/
def run (s : Store) (ops : List Operation) : Store := ops.foldl perform s

/-- Loading all files is the operation with what the loader makes of them. -/
theorem perform_load_evaluate (s : Store) (loader : Loader) (d : Disk) (locale : String)
    (paths : List Path) :
    s.perform (.load locale (evaluate loader d paths)) = (s.loadAll loader d locale paths).1 := rfl

/-- Loading a file again is the operation with what the loader makes of it. -/
theorem perform_reload_evaluate (s : Store) (loader : Loader) (d : Disk) (locale : String)
    (p : Path) :
    s.perform (.reload locale (p, loader.messages d p)) = (s.reload loader d locale p).1 := rfl

@[simp] theorem run_append (s : Store) (ops ops' : List Operation) :
    s.run (ops ++ ops') = (s.run ops).run ops' :=
  List.foldl_append

@[simp] theorem run_singleton (s : Store) (op : Operation) : s.run [op] = s.perform op := rfl

/-! ## Publishing

The lookups behind a `publish`, for its own locale and for another one. -/

section Publishing

variable (s : Store) (locale : String) (c : Contributions) (m : Messages)

/-- Behind a publish, its own locale has the new dictionary, one version
further. -/
theorem dictionary?_publish (other : String) :
    (s.publish locale c m).dictionary? other
      = if locale = other then some ⟨locale, m, s.version locale + 1⟩ else s.dictionary? other := by
  rw [dictionary?, dictionary?, publish, Std.TreeMap.getElem?_insert]
  simp only [Std.LawfulEqCmp.compare_eq_iff_eq]

/-- Its own locale has the new contributions, too. -/
theorem contributions_publish (other : String) :
    (s.publish locale c m).contributions[other]?
      = if locale = other then some c else s.contributions[other]? := by
  rw [publish, Std.TreeMap.getElem?_insert]
  simp only [Std.LawfulEqCmp.compare_eq_iff_eq]

theorem publish_of_ne {other : String} (h : locale ≠ other) :
    (s.publish locale c m).dictionary? other = s.dictionary? other ∧
      (s.publish locale c m).contributions[other]? = s.contributions[other]? := by
  rw [dictionary?_publish, contributions_publish, if_neg h, if_neg h]
  exact ⟨rfl, rfl⟩

end Publishing

/-- Cycling changes which locale is current and nothing else. -/
theorem perform_cycle (s : Store) (supported : List String) :
    (s.perform (.cycle supported)).published = s.published ∧
      (s.perform (.cycle supported)).contributions = s.contributions := by
  simp only [perform, cycle]
  cases nextLocale? supported s.current with
  | none => exact ⟨rfl, rfl⟩
  | some next => exact ⟨rfl, rfl⟩

/-- **The frame of an operation.** An operation changes neither the dictionary
nor the contributions of a locale that it is not about. This is what lets an
invariant of one locale survive the operations on all others. -/
theorem perform_of_ne (s : Store) (op : Operation) (locale : String) (h : op.locale? ≠ some locale) :
    (s.perform op).dictionary? locale = s.dictionary? locale ∧
      (s.perform op).contributions[locale]? = s.contributions[locale]? := by
  cases op with
  | load locale' evaluated => exact publish_of_ne s locale' _ _ (by simpa [Operation.locale?] using h)
  | change locale' p new => exact publish_of_ne s locale' _ _ (by simpa [Operation.locale?] using h)
  | reload locale' evaluated =>
    obtain ⟨p, outcome⟩ := evaluated
    cases outcome with
    | ok m => exact publish_of_ne s locale' _ _ (by simpa [Operation.locale?] using h)
    | error fault => exact ⟨rfl, rfl⟩
  | select locale' => exact ⟨rfl, rfl⟩
  | cycle supported =>
    obtain ⟨hp, hc⟩ := perform_cycle s supported
    exact ⟨by rw [dictionary?, hp]; rfl, by rw [hc]⟩

/-! ## The invariant

Four facts about one locale, which stand or fall together. A change starts from
the published messages and needs them to be merged, so `merged` is an
assumption of its own preservation; and it needs `mapped`, since for a locale
that was never published it starts from nothing. Other locales are covered by
the frame of an operation (`perform_of_ne`). -/

/-- What holds of a locale that was published `n` times. -/
structure Coherent (s : Store) (locale : String) (n : Nat) : Prop where
  /-- The dictionary is there exactly if contributions are. -/
  mapped : (s.dictionary? locale).isSome = (s.contributions[locale]?).isSome
  /-- The version counts how often the dictionary was published. -/
  counted : s.version locale = n
  /-- The dictionary carries the name of its locale. -/
  named : ∀ d, s.dictionary? locale = some d → d.locale = locale
  /-- The messages are those that merging gives. -/
  merged : ∀ d, s.dictionary? locale = some d →
    ∀ key : String, d.messages[key]? = (s.contributionsOf locale).merged[key]?

/-- The invariant speaks of the dictionary and the contributions of one locale
only. -/
theorem Coherent.congr {s s' : Store} {locale : String} {n : Nat} (h : s.Coherent locale n)
    (hd : s'.dictionary? locale = s.dictionary? locale)
    (hc : s'.contributions[locale]? = s.contributions[locale]?) : s'.Coherent locale n where
  mapped := by rw [hd, hc]; exact h.mapped
  counted := by rw [version, hd]; exact h.counted
  named := fun d hd' => h.named d (hd ▸ hd')
  merged := fun d hd' key => by
    rw [contributionsOf, hc]
    exact h.merged d (hd ▸ hd') key

/-- A new store has published nothing. -/
theorem coherent_fresh (current locale : String) : (fresh current).Coherent locale 0 := by
  have hd : (fresh current).dictionary? locale = none := Std.TreeMap.getElem?_emptyc
  have hc : (fresh current).contributions[locale]? = none := Std.TreeMap.getElem?_emptyc
  refine ⟨?_, ?_, ?_, ?_⟩
  · rw [hd, hc]
    rfl
  · rw [version, hd]
    rfl
  · intro d h
    rw [hd] at h
    exact absurd h (by simp)
  · intro d h
    rw [hd] at h
    exact absurd h (by simp)

/-- The messages that a change of a file starts from are merged, also where
nothing was published yet. Then there are no contributions either, and merging
them gives nothing. -/
theorem Coherent.messages {s : Store} {locale : String} {n : Nat} (h : s.Coherent locale n)
    (key : String) :
    ((s.dictionary? locale).elim ∅ (·.messages))[key]?
      = (s.contributionsOf locale).merged[key]? := by
  cases hd : s.dictionary? locale with
  | some d => exact h.merged d hd key
  | none =>
    -- without a dictionary there are no contributions, by `mapped`
    have hc : s.contributions[locale]? = none := by
      rw [← Option.isNone_iff_eq_none, ← Option.not_isSome, ← h.mapped, hd]
      rfl
    rw [contributionsOf, hc]
    rfl

/-- **Publishing keeps the invariant**, one version further, if what is
published is merged from the contributions that go with it. The two are written
together, and the invariant compares them key by key. -/
theorem Coherent.publish {s : Store} {locale : String} {n : Nat} (h : s.Coherent locale n)
    (c : Contributions) (m : Messages) (hm : ∀ key : String, m[key]? = c.merged[key]?) :
    (s.publish locale c m).Coherent locale (n + 1) := by
  have hd : (s.publish locale c m).dictionary? locale = some ⟨locale, m, n + 1⟩ := by
    rw [dictionary?_publish, if_pos rfl, h.counted]
  have hc : (s.publish locale c m).contributions[locale]? = some c := by
    rw [contributions_publish, if_pos rfl]
  refine ⟨?_, ?_, ?_, ?_⟩
  · rw [hd, hc]
    rfl
  · rw [version, hd]
    rfl
  · intro d hd'
    obtain rfl : (⟨locale, m, n + 1⟩ : Dictionary) = d := Option.some.inj (hd.symm.trans hd')
    rfl
  · intro d hd' key
    obtain rfl : (⟨locale, m, n + 1⟩ : Dictionary) = d := Option.some.inj (hd.symm.trans hd')
    rw [contributionsOf, hc]
    exact hm key

/-- Every operation about a locale keeps the invariant of that locale. -/
theorem Coherent.perform_self {s : Store} {locale : String} {n : Nat} (h : s.Coherent locale n)
    {op : Operation} (hop : op.locale? = some locale) :
    (s.perform op).Coherent locale (n + if op.publishes locale then 1 else 0) := by
  -- the patched messages are those that merging anew would give
  have hchange : ∀ p new, (s.applyChange locale p new).Coherent locale (n + 1) := fun p new =>
    h.publish _ _ (Contributions.getElem?_change_eq_merged _ p new _ h.messages)
  cases op with
  | load locale' evaluated =>
    obtain rfl : locale' = locale := by simpa [Operation.locale?] using hop
    rw [show (Operation.load locale' evaluated).publishes locale' = true from beq_self_eq_true _]
    exact h.publish _ _ fun key => rfl
  | change locale' p new =>
    obtain rfl : locale' = locale := by simpa [Operation.locale?] using hop
    rw [show (Operation.change locale' p new).publishes locale' = true from beq_self_eq_true _]
    exact hchange p new
  | reload locale' evaluated =>
    obtain rfl : locale' = locale := by simpa [Operation.locale?] using hop
    obtain ⟨p, outcome⟩ := evaluated
    cases outcome with
    | ok m =>
      rw [show (Operation.reload locale' (p, .ok m)).publishes locale' = true from
        beq_self_eq_true _]
      exact hchange p m
    | error fault => exact h
  | select locale' => exact absurd hop (by simp [Operation.locale?])
  | cycle supported => exact absurd hop (by simp [Operation.locale?])

/-- An operation publishes only a dictionary of the locale that it is about. -/
theorem not_publishes_of_ne {op : Operation} {locale : String} (h : op.locale? ≠ some locale) :
    op.publishes locale = false := by
  cases op with
  | load locale' evaluated => simpa [Operation.locale?, Operation.publishes] using h
  | change locale' p new => simpa [Operation.locale?, Operation.publishes] using h
  | reload locale' evaluated =>
    obtain ⟨p, outcome⟩ := evaluated
    cases outcome with
    | ok m => simpa [Operation.locale?, Operation.publishes] using h
    | error fault => rfl
  | select locale' => rfl
  | cycle supported => rfl

/-- **Every operation keeps the invariant of every locale.** Either it is one
for this locale, and then it publishes what it has put together, or it touches
neither the messages nor the contributions of it. -/
theorem Coherent.perform {s : Store} {locale : String} {n : Nat} (h : s.Coherent locale n)
    (op : Operation) :
    (s.perform op).Coherent locale (n + if op.publishes locale then 1 else 0) := by
  by_cases hop : op.locale? = some locale
  · exact h.perform_self hop
  · obtain ⟨hd, hc⟩ := perform_of_ne s op locale hop
    rw [not_publishes_of_ne hop]
    exact h.congr hd hc

/-- The invariant holds behind every run. The induction takes the last
operation off, since that is the one whose effect `Coherent.perform`
describes. -/
theorem coherent_run (current : String) (ops : List Operation) (locale : String) :
    ((fresh current).run ops).Coherent locale (ops.countP (·.publishes locale)) := by
  induction ops using List.reverseRecOn with
  | nil => exact coherent_fresh current locale
  | append_singleton ops op ih =>
    rw [run_append, run_singleton, List.countP_append, List.countP_singleton]
    exact ih.perform op

/-- **What a run leaves behind.** For every locale, a dictionary is published
exactly if contributions are kept; it carries the name of the locale, its
version is the number of operations that published it, and its messages are the
merge of the contributions; and the next operation, whatever it is, leaves
every locale alone that it is not about. -/
theorem run_dictionary (current : String) (ops : List Operation) (locale : String) :
    let s := (fresh current).run ops
    (locale ∈ s.published ↔ locale ∈ s.contributions) ∧
      (∀ d, s.dictionary? locale = some d →
        d.locale = locale ∧ d.version = ops.countP (·.publishes locale) ∧
          d.messages.Equiv (s.contributionsOf locale).merged) ∧
      ∀ op : Operation, op.locale? ≠ some locale →
        (s.perform op).dictionary? locale = s.dictionary? locale ∧
          (s.perform op).contributions[locale]? = s.contributions[locale]? := by
  intro s
  have h : s.Coherent locale _ := coherent_run current ops locale
  refine ⟨?_, ?_, fun op hop => perform_of_ne s op locale hop⟩
  · rw [Std.TreeMap.mem_iff_isSome_getElem?, Std.TreeMap.mem_iff_isSome_getElem?, ← h.mapped]
    rfl
  · intro d hd
    have hversion : s.version locale = d.version := by rw [version, hd]; rfl
    exact ⟨h.named d hd, hversion ▸ h.counted, .of_forall_constGet?_eq (h.merged d hd)⟩

end Store

end LocaleKeys
