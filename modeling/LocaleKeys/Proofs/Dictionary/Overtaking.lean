/-
Loads that overlap.

To load files is to read them one by one and to publish at the end what came
out. Reading takes time, and nobody waits for anybody else with it: between the
moment a call reads a file and the moment it publishes, the file may be
written, and other calls may read it and publish.

What a store holds of a file is therefore not what was read last. It is what
was committed last (`Store.find?_run_iff`), and a call that was overtaken
commits what it had read before. That takes a call which has read the file
later and is through before (`Loadings.Sound.overtaken`). Where no call is
overtaken, what was committed last was read last, and nothing newer has been
committed since a load has left the file out (`Commit.latest_of_forward`).
-/
import LocaleKeys.Proofs.Dictionary.Orders

set_option autoImplicit false

namespace LocaleKeys

/-- What came out of a file, and when it was read. -/
structure FileReading where
  time : Nat
  outcome : Except LoadFault Messages

/-! ## Commits

What has happened to a file is told by the commits alone. A commit has readings
with their times, and of each file it sets what it gives, drops it, or does
neither, which includes a reading that failed. `Held` says which commit is
responsible for what a file gives now; there is one at most, since all later
ones leave the file alone. -/

/-- A call that is through: when it began, when it was committed, and what it
had read. -/
inductive Commit where
  | load (begun time : Nat) (readings : List (Path × FileReading))
  | reload (begun time : Nat) (p : Path) (reading : FileReading)

namespace Commit

/-- When the call began. -/
def begun : Commit → Nat
  | load begun _ _ | reload begun _ _ _ => begun

/-- When it was committed. -/
def time : Commit → Nat
  | load _ time _ | reload _ time _ _ => time

/-- What it had read. -/
def readings : Commit → List (Path × FileReading)
  | load _ _ readings => readings
  | reload _ _ p reading => [(p, reading)]

/-- What is done with the store. -/
def operation (locale : String) : Commit → Operation
  | load _ _ readings => .load locale (readings.map fun f => (f.1, f.2.outcome))
  | reload _ _ p reading => .reload locale (p, reading.outcome)

/-- The files that were read are apart. -/
def Apart (c : Commit) : Prop := Path.Apart (c.readings.map Prod.fst)

/-- The commit sets what a file gives: the file was read at this time, and this
came out. -/
def Sets (c : Commit) (p : Path) (time : Nat) (m : Messages) : Prop :=
  ∃ q, q.same p = true ∧ (q, ⟨time, .ok m⟩) ∈ c.readings

/-- The commit drops a file: the locale is loaded without it. -/
def Drops (p : Path) : Commit → Prop
  | load _ _ readings => ∀ f ∈ readings, ¬ f.1.same p = true
  | reload _ _ _ _ => False

/-- The commit either sets what a file gives or drops the file. -/
def Touches (c : Commit) (p : Path) : Prop := (∃ time m, c.Sets p time m) ∨ c.Drops p

/-- What a file gives was set by this commit, and none has touched the file
since. -/
def Held (commits : List Commit) (p : Path) (c : Commit) (time : Nat) (m : Messages) : Prop :=
  ∃ before later, commits = before ++ c :: later ∧ c.Sets p time m ∧ ∀ c' ∈ later, ¬ c'.Touches p

section

variable {commits : List Commit} {c c' : Commit} {p : Path} {time time' : Nat} {m m' : Messages}

theorem not_held_nil : ¬ Held [] p c time m := by
  rintro ⟨before, later, heq, -, -⟩
  exact absurd heq (by simp)

/-- What is held was committed. -/
theorem Held.mem (h : Held commits p c time m) : c ∈ commits := by
  obtain ⟨before, later, rfl, -, -⟩ := h
  exact List.mem_append_right _ List.mem_cons_self

/-- The last commit decides, unless it leaves the file alone. -/
theorem held_append_singleton (last : Commit) :
    Held (commits ++ [last]) p c time m ↔
      (c = last ∧ last.Sets p time m) ∨ (¬ last.Touches p ∧ Held commits p c time m) := by
  constructor
  · rintro ⟨before, later, heq, hsets, hlater⟩
    rcases List.eq_nil_or_concat later with rfl | ⟨later, last', rfl⟩
    · obtain ⟨-, rfl⟩ := List.append_inj' heq rfl |>.imp_right List.singleton_inj.mp
      exact .inl ⟨rfl, hsets⟩
    · rw [List.concat_eq_append] at heq hlater
      rw [← List.cons_append, ← List.append_assoc] at heq
      obtain ⟨rfl, rfl⟩ := List.append_inj' heq rfl |>.imp_right List.singleton_inj.mp
      have huntouched := hlater last (List.mem_append_right _ List.mem_cons_self)
      exact .inr ⟨huntouched, before, later, rfl, hsets, fun c' hc' =>
        hlater c' (List.mem_append_left _ hc')⟩
  · rintro (⟨rfl, hsets⟩ | ⟨huntouched, before, later, rfl, hsets, hlater⟩)
    · exact ⟨commits, [], rfl, hsets, by simp⟩
    · refine ⟨before, later ++ [last], by simp, hsets, fun c' hc' => ?_⟩
      rcases List.mem_append.mp hc' with hc' | hc'
      · exact hlater c' hc'
      · rw [List.mem_singleton.mp hc']
        exact huntouched

/-- A commit has read a file once. -/
theorem Sets.unique (hapart : c.Apart) (h : c.Sets p time m) (h' : c.Sets p time' m') :
    time = time' ∧ m = m' := by
  obtain ⟨q, hq, hmem⟩ := h
  obtain ⟨q', hq', hmem'⟩ := h'
  have hsame : q.same q' = true := Path.same_trans hq (by rwa [Path.same_comm])
  have heq := Path.Apart.entry_eq hapart hmem hmem' hsame
  obtain ⟨-, hreading⟩ := Prod.mk.inj heq
  obtain ⟨htime, houtcome⟩ := FileReading.mk.inj hreading
  exact ⟨htime, Except.ok.inj houtcome⟩

/-- A commit that sets what a file gives does not drop it. -/
theorem Sets.not_drops (h : c.Sets p time m) : ¬ c.Drops p := by
  obtain ⟨q, hq, hmem⟩ := h
  cases c with
  | load begun time readings => exact fun hdrops => hdrops _ hmem hq
  | reload begun time q' reading => exact id

/-- Where a file was set and not dropped since, something is held of it. -/
theorem exists_held (earlier : List Commit) {kept : List Commit} (hkept : ∀ c ∈ kept, ¬ c.Drops p)
    (hmem : c ∈ kept) (hsets : c.Sets p time m) :
    ∃ c' time' m', Held (earlier ++ kept) p c' time' m' := by
  induction kept using List.reverseRecOn with
  | nil => exact absurd hmem List.not_mem_nil
  | append_singleton kept last ih =>
    rw [← List.append_assoc]
    by_cases htouches : last.Touches p
    · -- the last one does not drop the file, so that it sets what the file gives
      have hnodrop := hkept last (List.mem_append_right _ List.mem_cons_self)
      obtain ⟨time', m', hlast⟩ := htouches.resolve_right hnodrop
      exact ⟨last, time', m', (held_append_singleton last).mpr (.inl ⟨rfl, hlast⟩)⟩
    · have hother : c ∈ kept := by
        rcases List.mem_append.mp hmem with hmem | hmem
        · exact hmem
        · rw [List.mem_singleton.mp hmem] at hsets
          exact absurd (.inl ⟨time, m, hsets⟩) htouches
      obtain ⟨c', time', m', hheld⟩ :=
        ih (fun c hc => hkept c (List.mem_append_left _ hc)) hother
      exact ⟨c', time', m', (held_append_singleton last).mpr (.inr ⟨htouches, hheld⟩)⟩

end

/-- The latest reading of a file that went well, of all that were committed. -/
def Latest (commits : List Commit) (p : Path) (time : Nat) (m : Messages) : Prop :=
  (∃ c ∈ commits, c.Sets p time m) ∧
    ∀ c ∈ commits, ∀ time' m', c.Sets p time' m' → time' ≤ time

/-- A reading is the latest if nothing that was committed was read later. -/
theorem latest_of_le {commits : List Commit} {c : Commit} {p : Path} {time : Nat} {m : Messages}
    (hc : c ∈ commits) (hsets : c.Sets p time m)
    (hle : ∀ c ∈ commits, ∀ f ∈ c.readings, f.1.same p = true → f.2.time ≤ time) :
    Latest commits p time m :=
  ⟨⟨c, hc, hsets⟩, fun c' hc' _ _ ⟨_, hsame, hmem⟩ => hle c' hc' _ hmem hsame⟩

/-! ## Going backwards

A commit that replaces a newer reading by an older one goes backwards. The
definition compares the commit with what it replaces only, not with all that
came before. That is enough: as long as no commit goes backwards, what is held
is the newest of what was committed since the last drop
(`latest_of_forward`). -/

/-- A commit replaces what a file gives by something that was read before what
it replaces. -/
def Backwards (commits : List Commit) (p : Path) : Prop :=
  ∃ before c later c' time m time' m', commits = before ++ c :: later ∧ c.Sets p time m ∧
    Held before p c' time' m' ∧ time < time'

section

variable {commits : List Commit} {p : Path}

theorem Backwards.append (h : Backwards commits p) (last : Commit) :
    Backwards (commits ++ [last]) p := by
  obtain ⟨before, c, later, c', time, m, time', m', rfl, hsets, hheld, hlt⟩ := h
  exact ⟨before, c, later ++ [last], c', time, m, time', m', by simp, hsets, hheld, hlt⟩

/-- Calls that are committed in the order in which they have read a file do not
go backwards with it. -/
theorem not_backwards_of_ordered
    (hordered : commits.Pairwise fun c c' => ∀ f ∈ c.readings, ∀ f' ∈ c'.readings,
      f.1.same p = true → f'.1.same p = true → f.2.time ≤ f'.2.time) : ¬ Backwards commits p := by
  rintro ⟨before, c, later, c', time, m, time', m', rfl, ⟨q, hq, hmem⟩, hheld, hlt⟩
  obtain ⟨_, _, -, ⟨q', hq', hmem'⟩, -⟩ := id hheld
  have hbetween := (List.pairwise_append.mp hordered).2.2 c' hheld.mem c List.mem_cons_self
  have hle : time' ≤ time := hbetween _ hmem' _ hmem hq' hq
  omega

/-- **Where no commit goes backwards**, nothing was read later than what is
held, of all that was committed since the file was dropped. The induction takes
the last commit off: if it sets what the file gives, it was not read earlier
than what it replaces, and that was the latest until then. -/
theorem latest_of_forward (hapart : ∀ c ∈ commits, c.Apart) (hforward : ¬ Backwards commits p)
    {c : Commit} {time : Nat} {m : Messages} (hheld : Held commits p c time m)
    {earlier kept : List Commit} (heq : commits = earlier ++ kept)
    (hkept : ∀ c' ∈ kept, ¬ c'.Drops p) {c' : Commit} (hmem : c' ∈ kept) {time' : Nat}
    {m' : Messages} (hsets : c'.Sets p time' m') : time' ≤ time := by
  induction commits using List.reverseRecOn generalizing c time m kept with
  | nil => exact absurd hheld not_held_nil
  | append_singleton commits last ih =>
    rcases List.eq_nil_or_concat kept with rfl | ⟨kept, last', rfl⟩
    · exact absurd hmem List.not_mem_nil
    rw [List.concat_eq_append] at heq hkept hmem
    rw [← List.append_assoc] at heq
    obtain ⟨rfl, hlast⟩ := List.append_inj' heq rfl
    obtain rfl := List.singleton_inj.mp hlast
    have hapart' : ∀ c ∈ earlier ++ kept, c.Apart := fun c hc =>
      hapart c (List.mem_append_left _ hc)
    have hforward' : ¬ Backwards (earlier ++ kept) p := fun h => hforward (h.append last)
    have hkept' : ∀ c' ∈ kept, ¬ c'.Drops p := fun c' hc' => hkept c' (List.mem_append_left _ hc')
    have hlastApart : last.Apart := hapart last (List.mem_append_right _ List.mem_cons_self)
    -- either the last commit gave what is held, or it left the file alone
    rcases (held_append_singleton last).mp hheld with ⟨rfl, hset⟩ | ⟨huntouched, hbefore⟩
    · rcases List.mem_append.mp hmem with hmem | hmem
      · obtain ⟨c₀, time₀, m₀, hheld₀⟩ := exists_held earlier hkept' hmem hsets
        have hle : time' ≤ time₀ := ih hapart' hforward' hheld₀ rfl hkept' hmem
        -- otherwise the last commit would have replaced a newer reading by an
        -- older one
        have hnotlt : ¬ time < time₀ := fun hlt =>
          hforward ⟨earlier ++ kept, c, [], c₀, time, m, time₀, m₀, rfl, hset, hheld₀, hlt⟩
        omega
      · rw [List.mem_singleton.mp hmem] at hsets
        exact Nat.le_of_eq (hsets.unique hlastApart hset).1
    · rcases List.mem_append.mp hmem with hmem | hmem
      · exact ih hapart' hforward' hbefore rfl hkept' hmem
      · rw [List.mem_singleton.mp hmem] at hsets
        exact absurd (.inl ⟨time', m', hsets⟩) huntouched

end

end Commit

/-! ## What a commit makes of a file

The meaning of commits in terms of the store. Each commit is performed as one
operation, and the three cases for a file are those of the definitions above.
By induction, what the store holds of a file is what `Held` says
(`Store.find?_run_iff`). -/

namespace Store

section

variable {s : Store} {locale : String} (h : (s.contributionsOf locale).Apart) {c : Commit}
  (hapart : c.Apart)
include h hapart

/-- A commit that has read no file twice holds no file twice. -/
theorem apart_perform_commit : ((s.perform (c.operation locale)).contributionsOf locale).Apart := by
  refine apart_perform h fun evaluated hop => ?_
  cases c with
  | load begun time readings =>
    obtain ⟨-, rfl⟩ := Operation.load.inj hop
    rw [List.map_map]
    exact hapart
  | reload begun time p reading => exact absurd hop (by simp [Commit.operation])

/-- What a commit sets is given behind it. -/
theorem find?_perform_of_sets {p : Path} {time : Nat} {m : Messages} (hsets : c.Sets p time m) :
    ((s.perform (c.operation locale)).contributionsOf locale).find? p = some m := by
  obtain ⟨q, hq, hmem⟩ := hsets
  cases c with
  | load begun committed readings =>
    have hevaluated : Path.Apart ((readings.map fun f => (f.1, f.2.outcome)).map Prod.fst) := by
      rw [List.map_map]
      exact hapart
    have hentry : ((q, .ok m) : Evaluated) ∈ readings.map fun f => (f.1, f.2.outcome) :=
      List.mem_map.mpr ⟨_, hmem, rfl⟩
    exact s.find?_commit_of_listed locale hevaluated hentry hq
  | reload begun committed q' reading =>
    obtain ⟨rfl, rfl⟩ := Prod.mk.inj (List.mem_singleton.mp hmem)
    obtain ⟨patched, hpatched⟩ := s.contributionsOf_applyChange locale q m
    rw [show s.perform _ = s.applyChange locale q m from rfl, hpatched]
    exact Contributions.find?_change_self _ _ _ _ h hq

omit h hapart in
/-- What a commit drops is given no more. -/
theorem find?_perform_of_drops {p : Path} (hdrops : c.Drops p) :
    ((s.perform (c.operation locale)).contributionsOf locale).find? p = none := by
  cases c with
  | load begun time readings =>
    refine s.find?_commit_of_unlisted locale fun e he => ?_
    obtain ⟨f, hf, rfl⟩ := List.mem_map.mp he
    exact hdrops f hf
  | reload begun time q reading => exact hdrops.elim

omit h in
/-- **Whatever is neither** leaves what the file gives, a call that could not
read the file included. -/
theorem find?_perform_of_untouched {p : Path} (huntouched : ¬ c.Touches p) :
    ((s.perform (c.operation locale)).contributionsOf locale).find? p
      = (s.contributionsOf locale).find? p := by
  cases c with
  | load begun time readings =>
    -- the file is listed, or it would be dropped, and could not be read, or it
    -- would be set
    have hlisted : ∃ f ∈ readings, f.1.same p = true := by
      by_contra hunlisted
      exact huntouched (.inr fun f hf hsame => hunlisted ⟨f, hf, hsame⟩)
    obtain ⟨⟨q, readAt, outcome⟩, hmem, hsame⟩ := hlisted
    have hevaluated : Path.Apart ((readings.map fun f => (f.1, f.2.outcome)).map Prod.fst) := by
      rw [List.map_map]
      exact hapart
    have hentry : ((q, outcome) : Evaluated) ∈ readings.map fun f => (f.1, f.2.outcome) :=
      List.mem_map.mpr ⟨_, hmem, rfl⟩
    have hfind := s.find?_commit_of_listed locale hevaluated hentry hsame
    cases outcome with
    | ok m => exact absurd (.inl ⟨readAt, m, q, hsame, hmem⟩) huntouched
    | error fault =>
      rw [show s.perform _ = (s.commit locale _).1 from rfl, hfind,
        ← Contributions.find?_congr _ hsame]
      simp [contributed, Function.comp_def]
  | reload begun time q reading =>
    obtain ⟨readAt, outcome⟩ := reading
    cases outcome with
    | error fault => rfl
    | ok m =>
      have hne : ¬ q.same p = true := fun hsame =>
        huntouched (.inl ⟨readAt, m, q, hsame, List.mem_cons_self⟩)
      obtain ⟨patched, hpatched⟩ := s.contributionsOf_applyChange locale q m
      rw [show s.perform _ = s.applyChange locale q m from rfl, hpatched]
      exact Contributions.find?_change_of_ne _ _ _ _ hne

end

/-- Commits of calls that list no file twice hold no file twice. -/
theorem apart_run_commits (current locale : String) {commits : List Commit}
    (hapart : ∀ c ∈ commits, c.Apart) :
    (((fresh current).run (commits.map (·.operation locale))).contributionsOf locale).Apart := by
  induction commits using List.reverseRecOn with
  | nil =>
    rw [List.map_nil, show (fresh current).run [] = fresh current from rfl, contributionsOf_fresh]
    exact List.Pairwise.nil
  | append_singleton commits last ih =>
    have hbefore := ih fun c hc => hapart c (List.mem_append_left _ hc)
    have hlast : last.Apart := hapart last (List.mem_append_right _ List.mem_cons_self)
    rw [List.map_append, run_append, List.map_singleton, run_singleton]
    exact apart_perform_commit hbefore hlast

/-- **What a file gives** is what the last commit says that has set it, unless
a later one has dropped the file. The induction is on the commits from the
back, because the last of them decides. -/
theorem find?_run_iff (current locale : String) {commits : List Commit}
    (hapart : ∀ c ∈ commits, c.Apart) (p : Path) (m : Messages) :
    (((fresh current).run (commits.map (·.operation locale))).contributionsOf locale).find? p = some m ↔
      ∃ c time, Commit.Held commits p c time m := by
  induction commits using List.reverseRecOn with
  | nil =>
    rw [List.map_nil, show (fresh current).run [] = fresh current from rfl, contributionsOf_fresh]
    refine iff_of_false (by simp [Contributions.find?]) ?_
    rintro ⟨c, time, hheld⟩
    exact Commit.not_held_nil hheld
  | append_singleton commits last ih =>
    have hearlier : ∀ c ∈ commits, c.Apart := fun c hc => hapart c (List.mem_append_left _ hc)
    have hlast : last.Apart := hapart last (List.mem_append_right _ List.mem_cons_self)
    have hbefore := apart_run_commits current locale hearlier
    rw [List.map_append, run_append, List.map_singleton, run_singleton]
    simp only [Commit.held_append_singleton]
    by_cases htouches : last.Touches p
    · rcases htouches with ⟨time, m', hsets⟩ | hdrops
      · rw [find?_perform_of_sets hbefore hlast hsets]
        constructor
        · intro heq
          obtain rfl := Option.some.inj heq
          exact ⟨last, time, .inl ⟨rfl, hsets⟩⟩
        · rintro ⟨c, time', ⟨-, hsets'⟩ | ⟨huntouched, -⟩⟩
          · rw [(hsets.unique hlast hsets').2]
          · exact absurd (.inl ⟨time, m', hsets⟩) huntouched
      · rw [find?_perform_of_drops hdrops]
        refine iff_of_false (by simp) ?_
        rintro ⟨c, time, ⟨-, hsets⟩ | ⟨huntouched, -⟩⟩
        · exact hsets.not_drops hdrops
        · exact huntouched (.inr hdrops)
    · rw [find?_perform_of_untouched hlast htouches, ih hearlier]
      constructor
      · rintro ⟨c, time, hheld⟩
        exact ⟨c, time, .inr ⟨htouches, hheld⟩⟩
      · rintro ⟨c, time, ⟨-, hsets⟩ | ⟨-, hheld⟩⟩
        · exact absurd (.inl ⟨time, m, hsets⟩) htouches
        · exact ⟨c, time, hheld⟩

end Store

/-! ## Calls under way

The concurrent model. A call is begun, reads its files one at a time and in any
order, and is committed when it has read them all. Steps of different calls may
be mixed in any way, and files may be written in between. Nothing is atomic but
a single reading and a single commit, as in the program, where a commit is made
under the lock of the store and readings are made outside of it. -/

/-- A call that is under way: when it began, and what it has read by now. -/
inductive Loading where
  | load (begun : Nat) (files : List (Path × Option FileReading))
  | reload (begun : Nat) (p : Path) (reading : Option FileReading)

namespace Loading

/-- When the call began. -/
def begun : Loading → Nat
  | load begun _ | reload begun _ _ => begun

/-- The files of the call, with what it has read. -/
def files : Loading → List (Path × Option FileReading)
  | load _ files => files
  | reload _ p reading => [(p, reading)]

/-- The call that has just begun to load files. -/
def ofLoad (now : Nat) (paths : List Path) : Loading := load now (paths.map (·, none))

/-- What has been read by now. -/
def readings (l : Loading) : List (Path × FileReading) :=
  l.files.filterMap fun f => f.2.map (f.1, ·)

/-- A file with what comes out for it now, unless it has been read. -/
def readFile (now : Nat) (evaluate : Path → Except LoadFault Messages)
    (f : Path × Option FileReading) : Path × Option FileReading :=
  (f.1, f.2.or (some ⟨now, evaluate f.1⟩))

/-- The call behind the reading of one of its files. -/
def read (now : Nat) (evaluate : Path → Except LoadFault Messages) (file : Nat) : Loading → Loading
  | load begun files => load begun (files.modify file (readFile now evaluate))
  | reload begun p reading => reload begun p (readFile now evaluate (p, reading)).2

/-- All files have been read. -/
def isComplete (l : Loading) : Bool := l.files.all (·.2.isSome)

/-- The commit of a call whose files have all been read. -/
def commit? (now : Nat) : Loading → Option Commit
  | load begun files =>
    if (load begun files).isComplete then some (.load begun now (load begun files).readings)
    else none
  | reload begun p reading => reading.map (.reload begun now p)

end Loading

/-- A store of whose locale files are loaded, with the files and the calls that
are under way. -/
structure Loadings where
  store : Store
  disk : Disk
  /-- How many steps were done. -/
  clock : Nat := 0
  calls : List Loading := []
  /-- The calls that are through, in the order of their commits. -/
  commits : List Commit := []

/-- A step of calls that overlap. -/
inductive LoadStep where
  /-- Files are written. -/
  | write (d : Disk)
  /-- A call begins that loads all files of the locale. -/
  | load (paths : List Path)
  /-- A call begins that loads a single file again. -/
  | reload (p : Path)
  /-- A call reads one of its files. -/
  | read (call file : Nat)
  /-- A call that has read all its files publishes them. -/
  | commit (call : Nat)

namespace Loadings

/-- A store in which nothing was loaded yet. -/
def start (current : String) (d : Disk) : Loadings := ⟨.fresh current, d, 0, [], []⟩

/-- What a step changes besides the clock. A step that is not possible changes
nothing. -/
def act (o : Loadings) (loader : Loader) (locale : String) : LoadStep → Loadings
  | .write d => { o with disk := d }
  | .load paths => { o with calls := o.calls ++ [.ofLoad o.clock paths] }
  | .reload p => { o with calls := o.calls ++ [.reload o.clock p none] }
  | .read call file =>
    { o with calls := o.calls.modify call (Loading.read o.clock (loader.messages o.disk) file) }
  | .commit call =>
    match o.calls[call]?.bind (·.commit? o.clock) with
    | none => o
    | some c =>
      { o with
        store := o.store.perform (c.operation locale)
        calls := o.calls.eraseIdx call
        commits := o.commits ++ [c] }

/-- The state behind a step. -/
def step (o : Loadings) (loader : Loader) (locale : String) (s : LoadStep) : Loadings :=
  { o.act loader locale s with clock := o.clock + 1 }

/-- The state behind steps. -/
def run (o : Loadings) (loader : Loader) (locale : String) (steps : List LoadStep) : Loadings :=
  steps.foldl (·.step loader locale ·) o

end Loadings

/-! ## What holds throughout

The invariant connects the store with its commits, and each reading with the
disk of its time. To speak of the disk of a past time, the invariant has the
history of disks as a parameter; for a run it is given by the states behind the
first steps. -/

/-- A reading of a call: it was done behind the beginning of the call and
before the given time, and what came out is what the file said then. -/
structure FileReading.Within (r : FileReading) (loader : Loader) (past : Nat → Disk) (p : Path)
    (begun stop : Nat) : Prop where
  begun : begun < r.time
  stop : r.time < stop
  outcome : r.outcome = loader.messages (past r.time) p

theorem FileReading.Within.mono {r : FileReading} {loader : Loader} {past : Nat → Disk} {p : Path}
    {begun stop stop' : Nat} (h : r.Within loader past p begun stop) (hle : stop ≤ stop') :
    r.Within loader past p begun stop' :=
  ⟨h.begun, Nat.lt_of_lt_of_le h.stop hle, h.outcome⟩

/-- What holds of a call that is through. -/
structure Commit.Sound (c : Commit) (loader : Loader) (past : Nat → Disk) (clock : Nat) : Prop where
  apart : c.Apart
  time : c.time < clock
  read : ∀ p r, (p, r) ∈ c.readings → r.Within loader past p c.begun c.time

namespace Loading

/-- What holds of a call that is under way. -/
structure Sound (l : Loading) (loader : Loader) (past : Nat → Disk) (clock : Nat) : Prop where
  apart : Path.Apart (l.files.map Prod.fst)
  begun : l.begun < clock
  read : ∀ p r, (p, some r) ∈ l.files → r.Within loader past p l.begun clock

section

variable {l : Loading} {loader : Loader} {past : Nat → Disk} {clock : Nat}

theorem Sound.mono (h : l.Sound loader past clock) {clock' : Nat} (hle : clock ≤ clock') :
    l.Sound loader past clock' :=
  ⟨h.apart, Nat.lt_of_lt_of_le h.begun hle, fun p r hmem => (h.read p r hmem).mono hle⟩

/-- A load that has just begun has read nothing. -/
theorem sound_ofLoad {paths : List Path} (hapart : Path.Apart paths) :
    (ofLoad clock paths).Sound loader past (clock + 1) := by
  have hpaths : (ofLoad clock paths).files.map Prod.fst = paths := by
    rw [ofLoad, files, List.map_map]
    exact List.map_id paths
  refine ⟨by rwa [hpaths], Nat.lt_succ_self clock, fun p r hmem => ?_⟩
  obtain ⟨q, -, heq⟩ := List.mem_map.mp hmem
  exact absurd (Prod.mk.inj heq).2 (by simp)

/-- Neither has a reload. -/
theorem sound_reload (p : Path) : (reload clock p none).Sound loader past (clock + 1) := by
  refine ⟨by simp [files, Path.Apart], Nat.lt_succ_self clock, fun q r hmem => ?_⟩
  have heq := List.mem_singleton.mp hmem
  exact absurd (Prod.mk.inj heq).2 (by simp)

/-- Reading does not change when the call began. -/
theorem begun_read (now : Nat) (evaluate : Path → Except LoadFault Messages) (file : Nat) :
    (l.read now evaluate file).begun = l.begun := by
  cases l <;> rfl

/-- Reading leaves the files as they are listed. -/
theorem map_fst_files_read (now : Nat) (evaluate : Path → Except LoadFault Messages) (file : Nat) :
    (l.read now evaluate file).files.map Prod.fst = l.files.map Prod.fst := by
  cases l with
  | reload begun p reading => rfl
  | load begun files =>
    refine List.ext_getElem? fun i => ?_
    rw [Loading.read, Loading.files, Loading.files, List.getElem?_map, List.getElem?_map,
      List.getElem?_modify]
    cases files[i]? with
    | none => rfl
    | some f =>
      refine congrArg some ?_
      dsimp only
      split <;> rfl

/-- What has been read was read before, or is what comes out now. -/
theorem mem_files_read {now : Nat} {evaluate : Path → Except LoadFault Messages} {file : Nat}
    {p : Path} {r : FileReading} (h : (p, some r) ∈ (l.read now evaluate file).files) :
    (p, some r) ∈ l.files ∨ r = ⟨now, evaluate p⟩ := by
  have hone : ∀ f : Path × Option FileReading, readFile now evaluate f = (p, some r) →
      f = (p, some r) ∨ r = ⟨now, evaluate p⟩ := by
    rintro ⟨q, reading⟩ hread
    obtain ⟨rfl, hreading⟩ := Prod.mk.inj hread
    cases reading with
    | none => exact .inr (Option.some.inj hreading).symm
    | some r' => exact .inl (congrArg _ hreading)
  cases l with
  | reload begun q reading =>
    have hread := (List.mem_singleton.mp h).symm
    refine (hone (q, reading) hread).imp_left fun heq => ?_
    rw [Loading.files, heq]
    exact List.mem_cons_self
  | load begun files =>
    obtain ⟨i, hi⟩ := List.mem_iff_getElem?.mp h
    rw [Loading.read, Loading.files, List.getElem?_modify] at hi
    obtain ⟨f, hf, hread⟩ := Option.map_eq_some_iff.mp hi
    have hmem : f ∈ files := List.mem_of_getElem? hf
    split at hread
    · refine (hone f hread).imp_left fun heq => ?_
      rw [← heq]
      exact hmem
    · rw [← hread]
      exact .inl hmem

/-- Reading a file keeps what holds, if the files are read as they are now. -/
theorem Sound.readNow (h : l.Sound loader past clock) (file : Nat) :
    (l.read clock (loader.messages (past clock)) file).Sound loader past (clock + 1) := by
  refine ⟨?_, ?_, fun p r hmem => ?_⟩
  · rw [map_fst_files_read]
    exact h.apart
  · rw [begun_read]
    exact Nat.lt_succ_of_lt h.begun
  · rw [begun_read]
    rcases mem_files_read hmem with hbefore | rfl
    · exact (h.read p r hbefore).mono (Nat.le_succ clock)
    · exact ⟨h.begun, Nat.lt_succ_self clock, rfl⟩

/-- What has been read are the files with a reading. -/
theorem mem_readings {p : Path} {r : FileReading} :
    (p, r) ∈ l.readings ↔ (p, some r) ∈ l.files := by
  rw [readings, List.mem_filterMap]
  constructor
  · rintro ⟨⟨q, reading⟩, hmem, hsome⟩
    obtain ⟨r', rfl, heq⟩ := Option.map_eq_some_iff.mp hsome
    obtain ⟨rfl, rfl⟩ := Prod.mk.inj heq
    exact hmem
  · intro hmem
    exact ⟨(p, some r), hmem, rfl⟩

/-- If all files have been read, then what has been read are the files. -/
theorem map_fst_readings (h : l.isComplete = true) :
    l.readings.map Prod.fst = l.files.map Prod.fst := by
  rw [isComplete, List.all_eq_true] at h
  rw [readings]
  generalize l.files = files at h ⊢
  induction files with
  | nil => rfl
  | cons f files ih =>
    obtain ⟨q, reading⟩ := f
    obtain ⟨r, rfl⟩ := Option.isSome_iff_exists.mp (h _ List.mem_cons_self)
    have hrest := ih fun f' hf' => h f' (List.mem_cons_of_mem _ hf')
    rw [List.filterMap_cons, List.map_cons, ← hrest]
    rfl

/-- The commit of a call has read what the call has read. -/
theorem of_commit? {now : Nat} {c : Commit} (h : l.commit? now = some c) :
    c.begun = l.begun ∧ c.time = now ∧ c.readings = l.readings ∧ l.isComplete = true := by
  cases l with
  | load begun files =>
    rw [commit?] at h
    by_cases hcomplete : (load begun files).isComplete = true
    · rw [if_pos hcomplete] at h
      obtain rfl := Option.some.inj h
      exact ⟨rfl, rfl, rfl, hcomplete⟩
    · rw [if_neg hcomplete] at h
      exact absurd h (by simp)
  | reload begun p reading =>
    obtain ⟨r, rfl, rfl⟩ := Option.map_eq_some_iff.mp h
    exact ⟨rfl, rfl, rfl, rfl⟩

theorem Sound.commit (h : l.Sound loader past clock) {c : Commit} (hc : l.commit? clock = some c) :
    c.Sound loader past (clock + 1) := by
  obtain ⟨hbegun, htime, hreadings, hcomplete⟩ := of_commit? hc
  refine ⟨?_, ?_, fun p r hmem => ?_⟩
  · rw [Commit.Apart, hreadings, map_fst_readings hcomplete]
    exact h.apart
  · rw [htime]
    exact Nat.lt_succ_self clock
  · rw [hreadings] at hmem
    rw [hbegun, htime]
    exact h.read p r (mem_readings.mp hmem)

end

end Loading

namespace Loadings

/-- What holds of a store whose files are loaded, where `past` says which files
there were at which time: the store is what the commits have made of it, one
after the other, and whatever was read was read in its time. -/
structure Sound (o : Loadings) (loader : Loader) (locale current : String) (past : Nat → Disk) :
    Prop where
  store : o.store = (Store.fresh current).run (o.commits.map (·.operation locale))
  calls : ∀ l ∈ o.calls, l.Sound loader past o.clock
  commits : ∀ c ∈ o.commits, c.Sound loader past o.clock
  ordered : o.commits.Pairwise fun c c' => c.time < c'.time

section

variable {o : Loadings} {loader : Loader} {locale current : String} {past : Nat → Disk}

/-- **A step** keeps what holds, if a load lists no file twice. Reading needs
the disk of this moment, which is what `hpast` is for, and committing hands on
what holds of the call to its commit. -/
theorem Sound.step (h : o.Sound loader locale current past) (hpast : past o.clock = o.disk)
    {s : LoadStep} (hlisted : ∀ paths, s = .load paths → Path.Apart paths) :
    (o.step loader locale s).Sound loader locale current past := by
  have hcalls : ∀ l ∈ o.calls, l.Sound loader past (o.clock + 1) := fun l hl =>
    (h.calls l hl).mono (Nat.le_succ _)
  have hcommits : ∀ c ∈ o.commits, c.Sound loader past (o.clock + 1) := fun c hc =>
    ⟨(h.commits c hc).apart, Nat.lt_succ_of_lt (h.commits c hc).time, (h.commits c hc).read⟩
  cases s with
  | write d => exact ⟨h.store, hcalls, hcommits, h.ordered⟩
  | load paths =>
    refine ⟨h.store, fun l hl => ?_, hcommits, h.ordered⟩
    rcases List.mem_append.mp hl with hl | hl
    · exact hcalls l hl
    · rw [List.mem_singleton.mp hl]
      exact Loading.sound_ofLoad (hlisted paths rfl)
  | reload p =>
    refine ⟨h.store, fun l hl => ?_, hcommits, h.ordered⟩
    rcases List.mem_append.mp hl with hl | hl
    · exact hcalls l hl
    · rw [List.mem_singleton.mp hl]
      exact Loading.sound_reload p
  | read call file =>
    refine ⟨h.store, fun l hl => ?_, hcommits, h.ordered⟩
    -- only the call that reads has changed, and it has read from the present
    -- disk
    obtain ⟨i, hi⟩ := List.mem_iff_getElem?.mp hl
    have hi' : (o.calls.modify call (Loading.read o.clock (loader.messages o.disk) file))[i]?
        = some l := hi
    rw [List.getElem?_modify] at hi'
    obtain ⟨l₀, hl₀, rfl⟩ := Option.map_eq_some_iff.mp hi'
    have hmem : l₀ ∈ o.calls := List.mem_of_getElem? hl₀
    split
    · rw [← hpast]
      exact (h.calls l₀ hmem).readNow file
    · exact hcalls l₀ hmem
  | commit call =>
    rw [Loadings.step, act]
    split
    next => exact ⟨h.store, hcalls, hcommits, h.ordered⟩
    next c hc =>
      obtain ⟨l, hl, hcommit⟩ := Option.bind_eq_some_iff.mp hc
      have hsound : c.Sound loader past (o.clock + 1) :=
        (h.calls l (List.mem_of_getElem? hl)).commit hcommit
      have htime : c.time = o.clock := (Loading.of_commit? hcommit).2.1
      refine ⟨?_, fun l hl => ?_, fun c' hc' => ?_, ?_⟩
      · rw [List.map_append, Store.run_append, List.map_singleton, Store.run_singleton, ← h.store]
      · exact hcalls l (List.mem_of_mem_eraseIdx hl)
      · rcases List.mem_append.mp hc' with hc' | hc'
        · exact hcommits c' hc'
        · rw [List.mem_singleton.mp hc']
          exact hsound
      · -- the clock has moved on since every earlier commit
        refine List.pairwise_append.mpr ⟨h.ordered, List.pairwise_singleton _ _, ?_⟩
        intro c' hc' c'' hc''
        rw [List.mem_singleton.mp hc'', htime]
        exact (h.commits c' hc').time

/-- The clock counts the steps. -/
theorem clock_run (o : Loadings) (steps : List LoadStep) :
    (o.run loader locale steps).clock = o.clock + steps.length := by
  induction steps generalizing o with
  | nil => rfl
  | cons s steps ih =>
    have hrest := ih (o.step loader locale s)
    have hone : (o.step loader locale s).clock = o.clock + 1 := rfl
    rw [run, List.foldl_cons, ← run, hrest, hone, List.length_cons]
    omega

theorem run_append_singleton (o : Loadings) (steps : List LoadStep) (s : LoadStep) :
    o.run loader locale (steps ++ [s]) = (o.run loader locale steps).step loader locale s :=
  List.foldl_append

/-- **A run** keeps what holds. The files that there were at a time are those
behind the steps that were done by then. The clock counts steps, so each time
belongs to a number of steps of the run. -/
theorem sound_run (loader : Loader) (locale current : String) (d : Disk) {steps : List LoadStep}
    (hlisted : ∀ paths, .load paths ∈ steps → Path.Apart paths) :
    ((start current d).run loader locale steps).Sound loader locale current
      fun time => ((start current d).run loader locale (steps.take time)).disk := by
  have hprefix : ∀ n ≤ steps.length, ((start current d).run loader locale (steps.take n)).Sound loader
      locale current fun time => ((start current d).run loader locale (steps.take time)).disk := by
    intro n hn
    -- the induction is on how many steps were done, so that the history of
    -- disks stays the same
    induction n with
    | zero => exact ⟨rfl, by simp [start, run], by simp [start, run], List.Pairwise.nil⟩
    | succ n ih =>
      have hlt : n < steps.length := hn
      have hclock : ((start current d).run loader locale (steps.take n)).clock = n := by
        rw [clock_run, List.length_take, Nat.min_eq_left (Nat.le_of_lt hlt)]
        exact Nat.zero_add n
      rw [← List.take_append_getElem hlt, run_append_singleton]
      refine (ih (Nat.le_of_lt hlt)).step (by rw [hclock]) fun paths heq => hlisted paths ?_
      rw [← heq]
      exact List.getElem_mem hlt
  have hall := hprefix steps.length (Nat.le_refl _)
  rwa [List.take_length] at hall

/-- **Who goes backwards was overtaken**: what is replaced was read after this
call has read the file, and committed before this call is. So the two calls
overlap, and the one that began to read first commits last. -/
theorem Sound.overtaken (h : o.Sound loader locale current past) {before later : List Commit}
    {c c' : Commit} {p : Path} {time time' : Nat} {m m' : Messages}
    (heq : o.commits = before ++ c :: later) (hsets : c.Sets p time m)
    (hheld : Commit.Held before p c' time' m') (hbackwards : time < time') :
    c.begun < time ∧ time < time' ∧ time' < c'.time ∧ c'.time < c.time := by
  have hc : c ∈ o.commits := by
    rw [heq]
    exact List.mem_append_right _ List.mem_cons_self
  have hc' : c' ∈ o.commits := by
    rw [heq]
    exact List.mem_append_left _ hheld.mem
  obtain ⟨q, -, hmem⟩ := hsets
  have hread := (h.commits c hc).read q _ hmem
  have hread' : time' < c'.time := by
    obtain ⟨_, _, -, ⟨q', -, hmem'⟩, -⟩ := hheld
    exact ((h.commits c' hc').read q' _ hmem').stop
  have hordered : c'.time < c.time := by
    have hpairwise := h.ordered
    rw [heq] at hpairwise
    exact (List.pairwise_append.mp hpairwise).2.2 c' hheld.mem c List.mem_cons_self
  exact ⟨hread.begun, hbackwards, hread', hordered⟩

end

/-! ## Calls on their own

A sanity check of the model: a call whose steps are done one after the other,
with nothing in between, does what the function of the store does that it
stands for. So the sequential claims are about the runs of this model in which
calls do not overlap. -/

section

variable {loader : Loader} {locale : String}

/-- The files of a load that reads them in their order, one with each step, and
has come to the file `count`. -/
def readBy (loader : Loader) (d : Disk) (begun count : Nat) (paths : List Path) :
    List (Path × Option FileReading) :=
  paths.mapIdx fun i p =>
    (p, if i < count then some ⟨begun + 1 + i, loader.messages d p⟩ else none)

/-- The next file is read one step later. -/
theorem modify_readBy (d : Disk) (begun count : Nat) (paths : List Path) :
    (readBy loader d begun count paths).modify count
        (Loading.readFile (begun + 1 + count) (loader.messages d))
      = readBy loader d begun (count + 1) paths := by
  refine List.ext_getElem? fun i => ?_
  rw [List.getElem?_modify, readBy, readBy, List.getElem?_mapIdx, List.getElem?_mapIdx]
  cases paths[i]? with
  | none => rfl
  | some p =>
    refine congrArg some ?_
    by_cases hi : count = i
    · subst hi
      simp [Loading.readFile]
    · have hiff : i < count + 1 ↔ i < count := by omega
      simp only [if_neg hi, hiff]

/-- The call that began last reads one of its files. -/
theorem step_read_last {o : Loadings} {calls : List Loading} {l : Loading}
    (hcalls : o.calls = calls ++ [l]) (file : Nat) :
    o.step loader locale (.read calls.length file)
      = { o with
          clock := o.clock + 1
          calls := calls ++ [l.read o.clock (loader.messages o.disk) file] } := by
  have hlast : o.calls.modify calls.length (Loading.read o.clock (loader.messages o.disk) file)
      = calls ++ [l.read o.clock (loader.messages o.disk) file] := by
    rw [hcalls, List.modify_eq_take_cons_drop (by simp)]
    simp
  rw [step, act, hlast]

/-- The call that began last is committed. -/
theorem step_commit_last {o : Loadings} {calls : List Loading} {l : Loading} {c : Commit}
    (hcalls : o.calls = calls ++ [l]) (hcommit : l.commit? o.clock = some c) :
    o.step loader locale (.commit calls.length)
      = { o with
          store := o.store.perform (c.operation locale)
          clock := o.clock + 1
          calls := calls
          commits := o.commits ++ [c] } := by
  have hcall : o.calls[calls.length]? = some l := by
    rw [hcalls]
    exact List.getElem?_concat_length
  have hleft : o.calls.eraseIdx calls.length = calls := by
    rw [hcalls, List.eraseIdx_append_of_length_le (Nat.le_refl _), Nat.sub_self]
    simp
  rw [step, act, hcall, Option.bind_some, hcommit]
  dsimp only
  rw [hleft]

/-- The files that a load reads in their order, while nothing else happens. -/
theorem run_reads (o : Loadings) (paths : List Path) (count : Nat) :
    o.run loader locale (.load paths :: (List.range count).map (.read o.calls.length))
      = { o with
          clock := o.clock + 1 + count
          calls := o.calls ++ [.load o.clock (readBy loader o.disk o.clock count paths)] } := by
  induction count with
  | zero =>
    have hnone : readBy loader o.disk o.clock 0 paths = paths.map (·, none) := by
      refine List.ext_getElem? fun i => ?_
      rw [readBy, List.getElem?_mapIdx, List.getElem?_map]
      rfl
    rw [hnone]
    rfl
  | succ count ih =>
    rw [List.range_succ, List.map_append, ← List.cons_append, List.map_singleton,
      run_append_singleton, ih, step_read_last rfl, Loading.read, modify_readBy]
    rfl

/-- The files are those of the list. -/
theorem map_fst_readBy (d : Disk) (begun count : Nat) (paths : List Path) :
    (readBy loader d begun count paths).map Prod.fst = paths := by
  refine List.ext_getElem? fun i => ?_
  rw [readBy, List.getElem?_map, List.getElem?_mapIdx, Option.map_map]
  exact Option.map_id_apply

/-- **A load that nothing comes between** is the load of the files as they are.
So the steps are a refinement of the operations: run without a break they come
to the same. -/
theorem run_load (o : Loadings) (paths : List Path) :
    let o' := o.run loader locale (.load paths ::
      (List.range paths.length).map (.read o.calls.length) ++ [.commit o.calls.length])
    o'.store = (o.store.loadAll loader o.disk locale paths).1 ∧ o'.disk = o.disk ∧
      o'.calls = o.calls := by
  intro o'
  let l : Loading := .load o.clock (readBy loader o.disk o.clock paths.length paths)
  -- nothing comes in between, so every file is read from the same disk
  have hfiles : ∀ f ∈ l.files, f.2.isSome = true ∧
      ∀ r, f.2 = some r → r.outcome = loader.messages o.disk f.1 := by
    intro f hf
    obtain ⟨i, hi, rfl⟩ := List.mem_mapIdx.mp hf
    rw [if_pos hi]
    refine ⟨rfl, fun r hr => ?_⟩
    rw [← Option.some.inj hr]
  have hcomplete : l.isComplete = true := List.all_eq_true.mpr fun f hf => (hfiles f hf).1
  have hreadings : l.readings.map (fun f => (f.1, f.2.outcome))
      = Store.evaluate loader o.disk paths := by
    have houtcome : ∀ f ∈ l.readings, (f.1, f.2.outcome) = (f.1, loader.messages o.disk f.1) := by
      intro f hf
      rw [(hfiles _ (Loading.mem_readings.mp hf)).2 f.2 rfl]
    have hpaths : l.readings.map Prod.fst = paths := by
      rw [Loading.map_fst_readings hcomplete]
      exact map_fst_readBy o.disk o.clock paths.length paths
    rw [List.map_congr_left houtcome, Store.evaluate, ← hpaths, List.map_map]
    rfl
  have hcommit : l.commit? (o.clock + 1 + paths.length)
      = some (.load o.clock (o.clock + 1 + paths.length) l.readings) := if_pos hcomplete
  have hlast : o' = { o with
      store := o.store.perform (.load locale (l.readings.map fun f => (f.1, f.2.outcome)))
      clock := o.clock + 1 + paths.length + 1
      commits := o.commits ++ [.load o.clock (o.clock + 1 + paths.length) l.readings] } := by
    rw [show o' = _ from run_append_singleton o _ _, run_reads, step_commit_last rfl hcommit]
    rfl
  rw [hlast, hreadings]
  exact ⟨rfl, rfl, rfl⟩

/-- **A reload that nothing comes between** is the reload of the file as it is.
It is one reading and one commit, as a load of one file would be, but it leaves
the other files alone. -/
theorem run_reload (o : Loadings) (p : Path) :
    let o' := o.run loader locale
      [.reload p, .read o.calls.length 0, .commit o.calls.length]
    o'.store = (o.store.reload loader o.disk locale p).1 ∧ o'.disk = o.disk ∧
      o'.calls = o.calls := by
  intro o'
  let r : FileReading := ⟨o.clock + 1, loader.messages o.disk p⟩
  have hread : (o.step loader locale (.reload p)).step loader locale (.read o.calls.length 0)
      = { o with
          clock := o.clock + 1 + 1
          calls := o.calls ++ [.reload o.clock p (some r)] } := by
    have hbegun : o.step loader locale (.reload p) = { o with
        clock := o.clock + 1
        calls := o.calls ++ [.reload o.clock p none] } := rfl
    rw [hbegun, step_read_last rfl]
    rfl
  have hcommit : (Loading.reload o.clock p (some r)).commit? (o.clock + 1 + 1)
      = some (.reload o.clock (o.clock + 1 + 1) p r) := rfl
  have hlast : o' = { o with
      store := o.store.perform (.reload locale (p, loader.messages o.disk p))
      clock := o.clock + 1 + 1 + 1
      commits := o.commits ++ [.reload o.clock (o.clock + 1 + 1) p r] } := by
    rw [show o' = ((o.step loader locale (.reload p)).step loader locale
      (.read o.calls.length 0)).step loader locale (.commit o.calls.length) from rfl, hread,
      step_commit_last rfl hcommit]
    rfl
  rw [hlast]
  exact ⟨rfl, rfl, rfl⟩

end

/-! ## What the store holds of a file

The theorem puts the parts together for any interleaving. The witness is a run
in which a load is overtaken by nobody, although a reload begins while it is
under way, and the counterexamples are the three ways in which what was read
last is not held. -/

/-- **The store holds what was committed last.** Whatever files are written
meanwhile, and however the calls overlap, of which no load lists a file twice:

* each call has read its files between its beginning and its commit, and has
  read of each what it said then;
* a file gives what the last commit says that has set it, unless a later load
  has left the file out; a call that could not read the file leaves what it
  gives;
* a commit that replaces what a file gives by something that was read before
  what it replaces was overtaken: what it replaces was read after this call has
  read the file, and committed before this call was;
* if no commit goes backwards with a file, then nothing was read later than
  what the file gives, of all that was committed since a load has left the file
  out. -/
theorem held_of_overlapping (loader : Loader) (locale current : String) (d : Disk)
    {steps : List LoadStep} (hlisted : ∀ paths, .load paths ∈ steps → Path.Apart paths) :
    let o := (start current d).run loader locale steps
    (∀ c ∈ o.commits, ∀ p r, (p, r) ∈ c.readings → c.begun < r.time ∧ r.time < c.time ∧
      r.outcome = loader.messages ((start current d).run loader locale (steps.take r.time)).disk p) ∧
    ∀ p,
      (∀ m, (o.store.contributionsOf locale).find? p = some m ↔
        ∃ c time, Commit.Held o.commits p c time m) ∧
      (∀ before c later c' time m time' m', o.commits = before ++ c :: later → c.Sets p time m →
        Commit.Held before p c' time' m' → time < time' →
        c.begun < time ∧ time < time' ∧ time' < c'.time ∧ c'.time < c.time) ∧
      (¬ Commit.Backwards o.commits p → ∀ c time m, Commit.Held o.commits p c time m →
        ∀ earlier kept, o.commits = earlier ++ kept → (∀ c' ∈ kept, ¬ c'.Drops p) →
        ∀ c' ∈ kept, ∀ time' m', c'.Sets p time' m' → time' ≤ time) := by
  intro o
  have hsound := sound_run loader locale current d hlisted
  have hapart : ∀ c ∈ o.commits, c.Apart := fun c hc => (hsound.commits c hc).apart
  refine ⟨fun c hc p r hmem => ?_, fun p => ⟨fun m => ?_, ?_, ?_⟩⟩
  · have hread := (hsound.commits c hc).read p r hmem
    exact ⟨hread.begun, hread.stop, hread.outcome⟩
  · rw [hsound.store]
    exact Store.find?_run_iff current locale hapart p m
  · intro before c later c' time m time' m' heq hsets hheld hbackwards
    exact hsound.overtaken heq hsets hheld hbackwards
  · intro hforward c time m hheld earlier kept heq hkept c' hmem time' m' hsets
    exact Commit.latest_of_forward hapart hforward hheld heq hkept hmem hsets

/-- The loader of the cases below: the message of a file is its text. -/
def textLoader : Loader := fun d p =>
  .ok (.object [("k", .string ((d.read p).toOption.getD ""))])

/-- The disk of the cases below, with the text of one of its two files. -/
def diskOf (text : String) : Disk :=
  ⟨.directory [("a", .file (.ofText text 1)), ("b", .file (.ofText "" 1))], []⟩

/-- What the loader yields for the file, if its text is the given one. -/
def messagesOf (text : String) : Messages :=
  flatten (.object [("k", .string (((diskOf text).read ⟨"a"⟩).toOption.getD ""))])

/-- A load reads a file, the file is written, and a reload that has begun
meanwhile reads it. The load is committed first and the reload behind it, so
that no commit goes backwards, and the file gives what it said last. -/
theorem held_of_overlapping_forward :
    let a : Path := ⟨"a"⟩
    let steps : List LoadStep :=
      [.load [a], .read 0 0, .write (diskOf "2"), .reload a, .read 1 0, .commit 0, .commit 0]
    let o := (start "en" (diskOf "1")).run textLoader "en" steps
    (∀ paths, .load paths ∈ steps → Path.Apart paths) ∧ ¬ Commit.Backwards o.commits a ∧
      (o.store.contributionsOf "en").find? a = some (messagesOf "2") ∧
      ∀ c ∈ o.commits, ∀ time m, c.Sets a time m → time ≤ 4 := by
  intro a steps o
  have hlisted : ∀ paths, .load paths ∈ steps → Path.Apart paths := by
    intro paths hmem
    have heq : paths = [a] := by simpa [steps] using hmem
    rw [heq]
    exact List.pairwise_singleton _ _
  let first : Commit := .load 0 5 [(a, ⟨1, .ok (messagesOf "1")⟩)]
  let last : Commit := .reload 3 6 a ⟨4, .ok (messagesOf "2")⟩
  have hcommits : o.commits = [first, last] := rfl
  have hlast : last.Sets a 4 (messagesOf "2") := ⟨a, Path.same_refl a, List.mem_cons_self⟩
  have hheld : Commit.Held o.commits a last 4 (messagesOf "2") :=
    ⟨[first], [], hcommits, hlast, by simp⟩
  have hforward : ¬ Commit.Backwards o.commits a := by
    rw [hcommits]
    exact Commit.not_backwards_of_ordered (by decide +kernel)
  have hnodrop : ∀ c ∈ o.commits, ¬ c.Drops a := by
    intro c hc
    rw [hcommits] at hc
    rcases List.mem_cons.mp hc with rfl | hc
    · exact fun hdrops => hdrops _ List.mem_cons_self (Path.same_refl a)
    · rw [List.mem_singleton.mp hc]
      exact id
  obtain ⟨-, hgiven⟩ := held_of_overlapping textLoader "en" "en" (diskOf "1") hlisted
  obtain ⟨hheldIff, -, hlatest⟩ := hgiven a
  refine ⟨hlisted, hforward, (hheldIff _).mpr ⟨last, 4, hheld⟩, ?_⟩
  exact hlatest hforward last 4 _ hheld [] o.commits rfl hnodrop

/-- **What was read last need not be held.** A commit goes backwards if its
call was overtaken, and then the file gives what it said before. Nor does a
file give what was read last if a later load leaves it out, or if a load lists
it twice: the second of its places keeps what the load has read. -/
theorem latest_not_held :
    let a : Path := ⟨"a"⟩
    let behind (steps : List LoadStep) := (start "en" (diskOf "1")).run textLoader "en" steps
    let overtaken : List LoadStep := [.load [a], .read 0 0, .write (diskOf "2"), .reload a, .read 1 0,
      .commit 1, .commit 0]
    let unlisted : List LoadStep := [.load [a, ⟨"b"⟩], .read 0 0, .read 0 1, .commit 0, .load [⟨"b"⟩],
      .read 0 0, .commit 0]
    let twice : List LoadStep := [.load [a, a], .read 0 0, .read 0 1, .commit 0, .write (diskOf "2"),
      .reload a, .read 0 0, .commit 0]
    Commit.Backwards (behind overtaken).commits a ∧
      ∀ steps ∈ [overtaken, unlisted, twice], ∃ time m,
        Commit.Latest (behind steps).commits a time m ∧
          ((behind steps).store.contributionsOf "en").find? a ≠ some m := by
  intro a behind overtaken unlisted twice
  let old : FileReading := ⟨1, .ok (messagesOf "1")⟩
  let reloaded : Commit := .reload 3 5 a ⟨4, .ok (messagesOf "2")⟩
  have hsets : reloaded.Sets a 4 (messagesOf "2") := ⟨a, Path.same_refl a, List.mem_cons_self⟩
  have hovertaken : (behind overtaken).commits = [reloaded] ++ .load 0 6 [(a, old)] :: [] := rfl
  have hnew : ∀ m? : Option Messages, m?.map (·["k"]?) = some (some "1") →
      m? ≠ some (messagesOf "2") := by
    rintro m? hold rfl
    exact absurd hold (by decide +kernel)
  -- the load has read first and is committed last
  refine ⟨⟨[reloaded], _, [], reloaded, 1, messagesOf "1", 4, messagesOf "2", hovertaken,
    ⟨a, Path.same_refl a, List.mem_cons_self⟩, ⟨[], [], rfl, hsets, by simp⟩, by decide⟩, ?_⟩
  intro steps hsteps
  simp only [List.mem_cons, List.not_mem_nil, or_false] at hsteps
  -- overtaken by a load that read earlier; dropped by a load that does not
  -- list the file; outlived by the second entry of a file that is listed twice
  rcases hsteps with rfl | rfl | rfl
  · refine ⟨4, messagesOf "2", Commit.latest_of_le (c := reloaded) ?_ hsets ?_, hnew _ ?_⟩
    · rw [hovertaken]
      exact List.mem_cons_self
    · rw [hovertaken]
      decide +kernel
    · decide +kernel
  · let both : Commit := .load 0 3 [(a, old), (⟨"b"⟩, ⟨2, textLoader.messages (diskOf "1") ⟨"b"⟩⟩)]
    have hcommits : (behind unlisted).commits
        = [both, .load 4 6 [(⟨"b"⟩, ⟨5, textLoader.messages (diskOf "1") ⟨"b"⟩⟩)]] := rfl
    have hread : both.Sets a 1 (messagesOf "1") := ⟨a, Path.same_refl a, List.mem_cons_self⟩
    have hnone : (((behind unlisted).store.contributionsOf "en").find? a).isNone = true := by
      decide +kernel
    refine ⟨1, messagesOf "1", Commit.latest_of_le (c := both) ?_ hread ?_, ?_⟩
    · rw [hcommits]
      exact List.mem_cons_self
    · rw [hcommits]
      decide +kernel
    · rw [Option.isNone_iff_eq_none.mp hnone]
      simp
  · let again : Commit := .reload 5 7 a ⟨6, .ok (messagesOf "2")⟩
    have hcommits : (behind twice).commits
        = [.load 0 3 [(a, old), (a, ⟨2, .ok (messagesOf "1")⟩)], again] := rfl
    have hread : again.Sets a 6 (messagesOf "2") := ⟨a, Path.same_refl a, List.mem_cons_self⟩
    refine ⟨6, messagesOf "2", Commit.latest_of_le (c := again) ?_ hread ?_, hnew _ ?_⟩
    · rw [hcommits]
      exact List.mem_cons_of_mem _ List.mem_cons_self
    · rw [hcommits]
      decide +kernel
    · decide +kernel

end Loadings

end LocaleKeys
