/-
What a watcher knows of its files.

A file is reloaded because its stamp has changed, and some time after that.
Meanwhile it may change again, and its reload begin anew. That what the file
has given is what it says, as soon as nothing is left to do about it, is one
invariant of the poller (`Poller.Attends`): a file whose present stamp is the
one remembered, and of which no reload is under way, has given what it says.
Each step keeps it for a reason of its own. A write gives the file a stamp that
it never had, and what is remembered is a stamp that it had; a look remembers a
new stamp only together with a reload; and a reload that ends, ends with what
the file says now.

Before its first look the poller remembers nothing yet, and what the files have
given is what they said when the poller was asked for. A file that changes in
between may be missed: the first look takes its new stamp as the one to begin
with. So the invariant goes by three things of the past (`Past`), the stamps
that files had, the disk on which the poller was asked for as long as it had no
look, and the changes that were missed.

A file that cannot be read or parsed keeps what it gave, and its reload is
over. The invariant speaks of what a file says only where it says something, so
that it takes no notice of that.
-/
import LocaleKeys.Dictionary.Contributions
import LocaleKeys.Proofs.Files.Leading
import LocaleKeys.Proofs.Watch.Looking

set_option autoImplicit false

namespace LocaleKeys

/-! ## What files say

What a file says is what its path leads to, parsed. A directory says nothing,
although it has a stamp, and a path that leads nowhere says nothing either. So
the invariant has to be checked only where there is a file and it can be
read. -/

namespace Disk

variable {d d' : Disk} {p : Path}

/-- At a directory nothing is said. -/
theorem not_directory_of_jsonLoader {value : Json.Value} (h : jsonLoader d p = .ok value)
    {names : List String} (hleads : d.find? p = d.root.at? names) : ¬ d.root.DirectoryAt names := by
  intro hdirectory
  obtain ⟨data, text, hfind, -, -⟩ := jsonLoader_eq_ok_iff.mp h
  exact FileTree.not_file_of_directoryAt hdirectory (hleads.symm.trans hfind)

theorem jsonLoader_congr (h : d'.find? p = d.find? p) {value : Json.Value} :
    jsonLoader d' p = .ok value ↔ jsonLoader d p = .ok value := by
  rw [jsonLoader_eq_ok_iff, jsonLoader_eq_ok_iff, h]

/-- What says something has a stamp. -/
theorem exists_stamp_of_jsonLoader {value : Json.Value} (h : jsonLoader d p = .ok value) :
    ∃ data, d.find? p = some (.file data) ∧ d.stamp? p = some (FileTree.file data).stamp := by
  obtain ⟨data, text, hfind, -, -⟩ := jsonLoader_eq_ok_iff.mp h
  exact ⟨data, hfind, by rw [stamp?, hfind, Option.map_some]⟩

end Disk

/-- What has happened so far, as far as a poller is concerned. -/
structure Past where
  /-- The stamps that files had at a place. -/
  seen : List String → Stamp → Prop
  /-- The disk on which a poller was asked for that has not looked at it yet. -/
  asked : Disk → Prop
  /-- The file has changed before the first look, which has found it with this
  stamp. -/
  missed : Path → Option Stamp → Prop

/-- The stamps include those of the files that are there. -/
def Disk.Showing (d : Disk) (seen : List String → Stamp → Prop) : Prop :=
  ∀ names data, d.root.at? names = some (.file data) → seen names (FileTree.file data).stamp

/-- What has changed since a poller was asked for counts as missed, should the
first look come now. -/
def Disk.Outruns (d : Disk) (past : Past) : Prop :=
  ∀ d₀, past.asked d₀ → ∀ p, d.find? p ≠ d₀.find? p → past.missed p (d.stamp? p)

/-! ## The poller

The three fields belong to three moments. Before its first look a poller knows
nothing, and `awaited` speaks of the disk when it was asked for. `recorded` is
what makes fresh stamps tell: a stamp that is remembered was had before.
`fresh` is the result, and the other two are there so that it can be kept. -/

/-- What a poller remembers, and what the files that it watches have given. -/
structure Poller.Attends (poller : Poller) (r : Reloads) (past : Past) (c : Contributions)
    (d : Disk) : Prop where
  /-- Before the first look no reload is under way, and the files have given
  what they said when the poller was asked for. -/
  awaited : poller.stamps = none → r.live = [] ∧ ∃ d₀, past.asked d₀ ∧
    ∀ p ∈ poller.paths, ∀ value, jsonLoader d₀ p = .ok value → c.find? p = some (flatten value)
  /-- A stamp that is remembered was that of the file, or of a directory in its
  place. -/
  recorded : ∀ stamps, poller.stamps = some stamps → ∀ p stamp, (p, some stamp) ∈ stamps →
    ∃ names, d.Leads p names ∧ (past.seen names stamp ∨ d.root.DirectoryAt names)
  /-- What a file says it has given, if its stamp is remembered, no reload is
  under way, and no change of it was missed. -/
  fresh : ∀ stamps, poller.stamps = some stamps → ∀ p stamp, (p, stamp) ∈ stamps → ¬ r.Awaits p →
    ¬ past.missed p stamp → stamp = d.stamp? p →
    ∀ value, jsonLoader d p = .ok value → c.find? p = some (flatten value)

namespace Poller

variable {poller : Poller} {r : Reloads} {past : Past} {c : Contributions} {d : Disk}

/-- What is at a place that a path leads to was seen there, or it is a
directory. -/
theorem recorded_present {seen : List String → Stamp → Prop} (hshowing : d.Showing seen) {p : Path}
    {names : List String} (hleads : d.Leads p names) {stamp : Stamp} (hstamp : d.stamp? p = some stamp) :
    seen names stamp ∨ d.root.DirectoryAt names := by
  obtain ⟨t, ht, rfl⟩ := Option.map_eq_some_iff.mp hstamp
  rw [hleads.find?] at ht
  cases t with
  | file data => exact .inl (hshowing names data ht)
  | directory entries data => exact .inr ⟨_, ht, rfl⟩
  | closed data => exact .inr ⟨_, ht, rfl⟩

/-- **A change of a file** leaves the invariant as it is, if the file gets a
stamp that was not seen. A file that has changed has another stamp than the one
that is remembered, so nothing is asked of its messages until the poller has
looked again. -/
theorem Attends.alter (h : poller.Attends r past c d) {d' : Disk} {place : List String}
    {new : Option FileData} (haltered : d.Altered d' place new)
    (hnew : ∀ data, new = some data → ¬ past.seen place (FileTree.file data).stamp) :
    poller.Attends r past c d' := by
  refine ⟨h.awaited, fun stamps hstamps p stamp hp => ?_,
    fun stamps hstamps p stamp hp hrest hmissed hstamp value hvalue => ?_⟩
  · obtain ⟨names, hleads, hseen⟩ := h.recorded stamps hstamps p stamp hp
    exact ⟨names, hleads.of_keeps haltered.keeps, hseen.imp_right (haltered.keeps.directories names)⟩
  · obtain ⟨data, hfind, hpresent⟩ := Disk.exists_stamp_of_jsonLoader hvalue
    rw [hpresent] at hstamp
    obtain ⟨names, hleads, hseen⟩ := h.recorded stamps hstamps p _ (hstamp ▸ hp)
    have hleads' : d'.find? p = d'.root.at? names := hleads d' haltered.keeps
    rcases haltered.find?_cases hleads with hsame | hdirectory | ⟨rfl, hplaced⟩
    · -- the file is none that has changed
      refine h.fresh stamps hstamps p stamp hp hrest hmissed ?_ value ((Disk.jsonLoader_congr hsame).mp hvalue)
      rw [hstamp, ← hpresent, Disk.stamp?, Disk.stamp?, hsame]
    · exact absurd hdirectory (Disk.not_directory_of_jsonLoader hvalue hleads')
    · -- the file has changed, so that its stamp is none that could be remembered
      rw [hfind] at hplaced
      obtain ⟨data', rfl, hdata⟩ := Option.map_eq_some_iff.mp hplaced.symm
      obtain rfl := FileTree.file.inj hdata
      rcases hseen with hseen | hdirectory
      · exact absurd hseen (hnew _ rfl)
      · exact absurd (haltered.keeps.directories names hdirectory)
          (Disk.not_directory_of_jsonLoader hvalue hleads')

/-- As the past grows the invariant stays. The disk on which the poller was
asked for matters only until the first look. -/
theorem Attends.mono (h : poller.Attends r past c d) {past' : Past}
    (hseen : ∀ names stamp, past.seen names stamp → past'.seen names stamp)
    (hasked : poller.stamps = none → ∀ d₀, past.asked d₀ → past'.asked d₀)
    (hmissed : ∀ p stamp, past.missed p stamp → past'.missed p stamp) :
    poller.Attends r past' c d := by
  refine ⟨fun hnone => ?_, fun stamps hstamps p stamp hp => ?_,
    fun stamps hstamps p stamp hp hrest hnot => h.fresh stamps hstamps p stamp hp hrest
      (mt (hmissed p stamp) hnot)⟩
  · obtain ⟨hlive, d₀, hd₀, hloaded⟩ := h.awaited hnone
    exact ⟨hlive, d₀, hasked hnone d₀ hd₀, hloaded⟩
  · obtain ⟨names, hleads, hcases⟩ := h.recorded stamps hstamps p stamp hp
    exact ⟨names, hleads, hcases.imp_left (hseen names stamp)⟩

/-- **A look** remembers the present stamps, and where they are new ones a
reload begins. The first look reports nothing. A file that is as it was when
the poller was asked for has given what it says, and of any other one the
change counts as missed. -/
theorem Attends.look (h : poller.Attends r past c d) (howned : r.Owned) (hopen : r.closed = false)
    (hshowing : d.Showing past.seen) (houtruns : d.Outruns past)
    (hpaths : (poller.remembered d).map Prod.fst = poller.paths)
    (hleads : ∀ p ∈ poller.paths, ∃ names, d.Leads p names) (now rest : Nat) :
    (poller.look d).1.Attends (r.receiveAll now rest (poller.reported d)) past c d := by
  have hlooked : ∀ stamps, (poller.look d).1.stamps = some stamps → ∀ p stamp, (p, stamp) ∈ stamps →
      stamp = d.stamp? p ∧ ∃ before, (p, before) ∈ poller.remembered d := fun stamps hstamps p stamp hp =>
    @mem_remembered_look poller d d p stamp (by rwa [remembered_of_some hstamps])
  refine ⟨fun hnone => absurd hnone (by simp [Poller.look]), fun stamps hstamps p stamp hp => ?_,
    fun stamps hstamps p stamp hp hrest hmissed _ value hvalue => ?_⟩
  · obtain ⟨hstamp, before, hbefore⟩ := hlooked stamps hstamps p _ hp
    obtain ⟨names, hnames⟩ := hleads p (hpaths ▸ List.mem_map_of_mem hbefore)
    exact ⟨names, hnames, recorded_present hshowing hnames hstamp.symm⟩
  · obtain ⟨rfl, before, hbefore⟩ := hlooked stamps hstamps p stamp hp
    rw [howned.awaits_receiveAll now rest _ hopen, not_or] at hrest
    -- the first look compares the disk with itself, and a later one with what
    -- was seen before
    cases hbegun : poller.stamps with
    | none =>
      obtain ⟨-, d₀, hd₀, hloaded⟩ := h.awaited hbegun
      have hsame : d.find? p = d₀.find? p := by
        by_contra hne
        exact hmissed (houtruns d₀ hd₀ p hne)
      exact hloaded p (hpaths ▸ List.mem_map_of_mem hbefore) value ((Disk.jsonLoader_congr hsame).mp hvalue)
    | some stamps' =>
      -- the look would have reported the file if its stamp were another one
      have hstamp : before = d.stamp? p := by
        by_contra hne
        exact hrest.1 ⟨p, mem_reported.mpr ⟨before, hbefore, hne⟩, Path.same_refl p⟩
      rw [remembered_of_some hbegun] at hbefore
      exact h.fresh stamps' hbegun p before hbefore hrest.2 (hstamp ▸ hmissed) hstamp value hvalue

/-- **A reload that ends** has given what its file says now, or the file says
nothing. Other files keep what they have given, and their reloads go on. -/
theorem Attends.reload (h : poller.Attends r past c d) (howned : r.Owned) {t : Reload}
    (ht : t ∈ r.live) (hapart : Path.Apart ((poller.remembered d).map Prod.fst))
    (hpath : t.path ∈ (poller.remembered d).map Prod.fst) {c' : Contributions}
    (hself : ∀ value, jsonLoader d t.path = .ok value → c'.find? t.path = some (flatten value))
    (hother : ∀ p, ¬ t.path.same p = true → c'.find? p = c.find? p) :
    poller.Attends ((r.expire t.generation).finish t.generation) past c' d := by
  refine ⟨fun hnone => ?_, h.recorded, fun stamps hstamps p stamp hp hrest hmissed hstamp value hvalue => ?_⟩
  · -- before the first look there is no reload that could end
    rw [(h.awaited hnone).1] at ht
    exact absurd ht List.not_mem_nil
  rw [remembered_of_some hstamps] at hapart hpath
  by_cases hsame : t.path.same p = true
  · obtain rfl := hapart.eq_of_same hpath (List.mem_map_of_mem hp) hsame
    exact hself value hvalue
  · rw [hother p hsame]
    refine h.fresh stamps hstamps p stamp hp (fun hawaits => hrest ?_) hmissed hstamp value hvalue
    -- the reload of another file is still under way
    obtain ⟨t', ht', hp'⟩ := hawaits
    have hne : t'.generation ≠ t.generation := fun hgeneration =>
      hsame (howned.reload_eq ht' ht hgeneration ▸ hp')
    exact ⟨t', (Reloads.mem_live_ended t.generation t').mpr ⟨ht', hne⟩, hp'⟩

/-- **A poller that is asked for** when its files have just been loaded. It
remembers nothing yet, and so all that is asked of it is that the messages are
those of the disk on which it was asked for. -/
theorem Attends.install {now interval : Nat} {paths : List Path}
    (hinstall : Poller.install now interval paths = some poller) (hlive : r.live = [])
    (hasked : past.asked d)
    (hloaded : ∀ p ∈ paths, ∀ value, jsonLoader d p = .ok value → c.find? p = some (flatten value)) :
    poller.Attends r past c d := by
  obtain ⟨-, rfl⟩ := install_eq_some_iff.mp hinstall
  exact ⟨fun _ => ⟨hlive, d, hasked, hloaded⟩, fun stamps hstamps => absurd hstamps (by simp),
    fun stamps hstamps => absurd hstamps (by simp)⟩

end Poller

/-! ## The watcher

A watcher adds which files may be reloaded at all, and that none is listed
twice. The rest is about its poller. A watcher without a poller, which is one
whose interval is zero, has nothing to know of its files. -/

/-- What holds of a watcher that is installed. -/
structure Watcher.Attends (w : Watcher) (past : Past) (c : Contributions) (d : Disk) : Prop where
  opened : w.reloads.closed = false
  owned : w.reloads.Owned
  /-- Only files that are watched are reloaded. -/
  reloaded : ∀ t ∈ w.reloads.live, t.path ∈ w.files
  apart : Path.Apart w.files
  leads : ∀ p ∈ w.files, ∃ names, d.Leads p names
  paths : ∀ poller, w.poller = some poller →
    poller.paths = w.files ∧ ∀ d', (poller.remembered d').map Prod.fst = w.files
  polled : ∀ poller, w.poller = some poller → poller.Attends w.reloads past c d

namespace Watcher

variable {w : Watcher} {past : Past} {c : Contributions} {d : Disk}

/-- A change of a file, which gets a stamp that was not seen. -/
theorem Attends.alter (h : w.Attends past c d) {d' : Disk} {place : List String}
    {new : Option FileData} (haltered : d.Altered d' place new)
    (hnew : ∀ data, new = some data → ¬ past.seen place (FileTree.file data).stamp) :
    w.Attends past c d' :=
  { h with
    leads := fun p hp => (h.leads p hp).imp fun _ hnames => hnames.of_keeps haltered.keeps
    polled := fun poller hpoller => (h.polled poller hpoller).alter haltered hnew }

theorem Attends.mono (h : w.Attends past c d) {past' : Past}
    (hseen : ∀ names stamp, past.seen names stamp → past'.seen names stamp)
    (hasked : ∀ poller, w.poller = some poller → poller.stamps = none →
      ∀ d₀, past.asked d₀ → past'.asked d₀)
    (hmissed : ∀ p stamp, past.missed p stamp → past'.missed p stamp) : w.Attends past' c d :=
  { h with
    polled := fun poller hpoller =>
      (h.polled poller hpoller).mono hseen (hasked poller hpoller) hmissed }

/-- A look of the poller, with the reloads that it begins. -/
theorem Attends.look (h : w.Attends past c d) (hshowing : d.Showing past.seen)
    (houtruns : d.Outruns past) (now rest : Nat) : (w.look d now rest).Attends past c d := by
  cases hpoller : w.poller with
  | none =>
    rw [look_of_none hpoller]
    exact h
  | some poller =>
    obtain ⟨hpaths, hremembered⟩ := h.paths poller hpoller
    rw [look_eq hpoller]
    refine ⟨?_, h.owned.receiveAll now rest _, fun t ht => ?_, h.apart, h.leads, ?_, ?_⟩
    · rw [Reloads.closed_receiveAll]
      exact h.opened
    · rcases h.owned.mem_live_receiveAll now rest _ ht with ht | ⟨hpath, -⟩
      · exact h.reloaded t ht
      · obtain ⟨stamp, hstamp, -⟩ := Poller.mem_reported.mp hpath
        exact hremembered d ▸ List.mem_map_of_mem hstamp
    · intro poller' hpoller'
      obtain rfl := Option.some.inj hpoller'
      exact ⟨hpaths, fun d' => (poller.paths_remembered_look d d').trans (hremembered d)⟩
    · intro poller' hpoller'
      obtain rfl := Option.some.inj hpoller'
      exact (h.polled poller hpoller).look h.owned h.opened hshowing houtruns
        (hpaths ▸ hremembered d) (hpaths ▸ h.leads) now rest

/-- A reload that ends. -/
theorem Attends.reload (h : w.Attends past c d) {t : Reload} (ht : t ∈ w.reloads.live)
    {c' : Contributions}
    (hself : ∀ value, jsonLoader d t.path = .ok value → c'.find? t.path = some (flatten value))
    (hother : ∀ p, ¬ t.path.same p = true → c'.find? p = c.find? p) :
    Attends { w with reloads := (w.reloads.expire t.generation).finish t.generation } past c' d := by
  refine ⟨h.opened, (h.owned.expire _).finish _, fun t' ht' => ?_, h.apart, h.leads, h.paths, ?_⟩
  · exact h.reloaded t' ((Reloads.mem_live_ended _ _).mp ht').1
  · intro poller hpoller
    have hremembered := (h.paths poller hpoller).2 d
    refine (h.polled poller hpoller).reload h.owned ht ?_ ?_ hself hother
    · rw [hremembered]
      exact h.apart
    · rw [hremembered]
      exact h.reloaded t ht

/-- **A watcher that is installed** when the files of its locale have just been
loaded. The files are there at that moment, so that each of their paths leads
to a place from then on. -/
theorem Attends.install {files : List Path} (hapart : Path.Apart files)
    (hfiles : ∀ p ∈ files, d.isFile p = true) (hasked : past.asked d)
    (hloaded : ∀ p ∈ files, ∀ value, jsonLoader d p = .ok value → c.find? p = some (flatten value))
    (source : WatchSource) (now interval : Nat) (locale : String) :
    (Watcher.install source now interval locale files).Attends past c d := by
  have hleads : ∀ p ∈ files, ∃ names, d.Leads p names := by
    intro p hp
    obtain ⟨t, ht, hfile⟩ := (Option.any_eq_true _ _).mp (hfiles p hp)
    obtain ⟨data, rfl⟩ := FileTree.exists_file hfile
    exact Disk.exists_leads ht
  have hinstalled : ∀ poller, (Watcher.install source now interval locale files).poller = some poller →
      Poller.install now interval files = some poller := by
    intro poller hpoller
    rw [Watcher.install] at hpoller
    dsimp only at hpoller
    split at hpoller
    · exact hpoller
    · exact absurd hpoller (by simp)
  refine ⟨rfl, Reloads.owned_empty, fun t ht => absurd ht (by simp [Watcher.install]), hapart, hleads,
    fun poller hpoller => ?_,
    fun poller hpoller => .install (hinstalled poller hpoller) rfl hasked hloaded⟩
  obtain ⟨-, rfl⟩ := Poller.install_eq_some_iff.mp (hinstalled poller hpoller)
  refine ⟨rfl, fun d' => ?_⟩
  rw [Poller.remembered_of_none rfl, Poller.initial_of_apart hapart, List.map_map]
  exact List.map_id files

end Watcher

end LocaleKeys
