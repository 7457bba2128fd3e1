/-
Stretches of a text that stand one behind the other.

What is read from a text part by part lies in it part by part: the stretches of
what was read first end before those of what was read next begin. `Runs` says
so of a list of stretches, and of the place at which reading began and the
place that it has come to. So the places where the stretches end follow each
other (`Runs.pairwise_hi`), and such stretches can be told by their ends.
-/
import LocaleKeys.Proofs.Text.Places
import LocaleKeys.Script.Tree

set_option autoImplicit false

namespace LocaleKeys.Script

open LocaleKeys.Text

/-- The stretches begin and end between characters of the text, none of them is
empty, and they stand one behind the other, from the place `n` on and up to the
place `m`. -/
def Runs (text : List Char) (n : Nat) (stretches : List Extent) (m : Nat) : Prop :=
  match stretches with
  | [] => n ≤ m
  | e :: es => n ≤ e.lo ∧ e.lo < e.hi ∧ IsBetween text e.lo ∧ IsBetween text e.hi ∧ Runs text e.hi es m

namespace Runs

variable {text : List Char} {n m : Nat} {e : Extent} {es : List Extent}

/-- Reading may have begun earlier and may have come further. -/
theorem widen {n' m' : Nat} (h : Runs text n es m) (hn : n' ≤ n) (hm : m ≤ m') : Runs text n' es m' := by
  induction es generalizing n n' with
  | nil => exact Nat.le_trans hn (Nat.le_trans h hm)
  | cons e es ih =>
    obtain ⟨hle, hlt, hlo, hhi, hes⟩ := h
    exact ⟨Nat.le_trans hn hle, hlt, hlo, hhi, ih hes (Nat.le_refl _)⟩

/-- Each of the stretches ends between characters. -/
theorem isBetween_hi (h : Runs text n es m) (he : e ∈ es) : IsBetween text e.hi := by
  induction es generalizing n with
  | nil => exact absurd he (List.not_mem_nil)
  | cons e' es ih =>
    obtain ⟨-, -, -, hhi, hes⟩ := h
    rcases List.mem_cons.mp he with rfl | he
    · exact hhi
    · exact ih hes he

/-- None of them ends where reading began, since none is empty. -/
theorem lt_hi (h : Runs text n es m) (he : e ∈ es) : n < e.hi := by
  induction es generalizing n with
  | nil => exact absurd he (List.not_mem_nil)
  | cons e' es ih =>
    obtain ⟨hle, hlt, -, -, hes⟩ := h
    rcases List.mem_cons.mp he with rfl | he
    · exact Nat.lt_of_le_of_lt hle hlt
    · exact Nat.lt_of_le_of_lt hle (Nat.lt_trans hlt (ih hes he))

/-- The ends of the stretches follow each other. -/
theorem pairwise_hi (h : Runs text n es m) : es.Pairwise fun a b => a.hi < b.hi := by
  induction es generalizing n with
  | nil => exact List.Pairwise.nil
  | cons e es ih =>
    obtain ⟨-, -, -, -, hes⟩ := h
    exact List.pairwise_cons.mpr ⟨fun e' he' => hes.lt_hi he', ih hes⟩

end Runs

end LocaleKeys.Script
