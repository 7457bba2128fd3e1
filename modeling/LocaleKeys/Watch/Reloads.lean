/-
Reloads: what is still to be done about changes that were noticed.

A change is not acted on at once, since more of them may follow: the file has
to rest for a while first. A further change of the same file begins the rest
anew. Each reload has a number of its own, its generation, and for each file it
is written down which reload is the one to wait for.
-/
import LocaleKeys.Files.Path

set_option autoImplicit false

namespace LocaleKeys

/-- A reload of a file. -/
structure Reload where
  path : Path
  generation : Nat
  /-- When the file has rested long enough. -/
  due : Nat
  /-- The rest is over, and the file is being loaded. -/
  loading : Bool := false
deriving Repr, DecidableEq, Inhabited

/-- The reloads of a watcher (`PendingReloads`). -/
structure Reloads where
  /-- The generation of the latest reload. -/
  generation : Nat := 0
  /-- The reloads that are under way. -/
  live : List Reload := []
  /-- Which reload is waited for, file by file. -/
  pending : List (Path × Nat) := []
  /-- Nothing is done any more. -/
  closed : Bool := false
deriving Repr, DecidableEq, Inhabited

namespace Reloads

/-- The reload that is waited for because of a file. -/
def pendingOf (r : Reloads) (p : Path) : Option Nat := (r.pending.find? (·.1.same p)).map (·.2)

/-- Without the reload of a generation. -/
def cancel (r : Reloads) (generation : Nat) : Reloads :=
  { r with live := r.live.filter (·.generation != generation) }

/-- A file has changed: its reload is due after the rest, and the one before is
given up. -/
def receive (r : Reloads) (now rest : Nat) (p : Path) : Reloads :=
  if r.closed then r
  else
    let generation := r.generation + 1
    let r := (r.pendingOf p).elim r r.cancel
    { r with
      generation := generation
      live := r.live ++ [⟨p, generation, now + rest, false⟩]
      pending := r.pending.filter (!·.1.same p) ++ [(p, generation)] }

/-- The rest of a reload is over. -/
def expire (r : Reloads) (generation : Nat) : Reloads :=
  { r with
    live := r.live.map fun t =>
      if t.generation == generation then { t with loading := true } else t }

/-- A reload is done. Its file waits for nothing any more, unless it has
changed since. -/
def finish (r : Reloads) (generation : Nat) : Reloads :=
  { r.cancel generation with pending := r.pending.filter (·.2 != generation) }

/-- Nothing is done any more, and what is under way is given up
(`LocaleWatcher::shutdown`). -/
def shutDown (r : Reloads) : Reloads :=
  { r with live := [], pending := [], closed := true }

/-- The reload that has rested longest among those that are due by the time
`now`. -/
def dueBy? (r : Reloads) (now : Nat) : Option Reload :=
  (r.live.filter fun t => !t.loading && t.due ≤ now).foldl earlier none
where
  /-- The earlier of two reloads, where the first one found goes first. -/
  earlier (found : Option Reload) (t : Reload) : Option Reload :=
    match found with
    | some f => if t.due < f.due then some t else some f
    | none => some t

end Reloads

end LocaleKeys
