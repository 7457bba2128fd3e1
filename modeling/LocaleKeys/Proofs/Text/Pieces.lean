/-
The pieces of a text.

A text is cut at each separator, so that n separators make n + 1 pieces, some
of which may be empty. Putting texts together does the same to their pieces: a
separator in between leaves them as they are (`pieces_append`), and without one
the last piece of the first text and the first of the second become one
(`pieces_append_of_notMem`). The program's recursion agrees with
`List.splitOn`, so that the lemmas about that apply (`pieces_eq_splitOn`).
-/
import LocaleKeys.Text.Pieces
import Mathlib.Data.List.Basic

set_option autoImplicit false

namespace LocaleKeys.Text

/-- Without a separator the text is its only piece. -/
theorem pieces_of_notMem {separator : Char} {text : List Char} (h : separator ∉ text) :
    pieces separator text = [text] := by
  induction text with
  | nil => rfl
  | cons c r ih =>
    have hc : (c == separator) = false := by
      rw [beq_eq_false_iff_ne]
      exact fun heq => h (heq ▸ List.mem_cons_self)
    have hr : separator ∉ r := fun hmem => h (List.mem_cons_of_mem c hmem)
    rw [pieces, hc, ih hr]
    rfl

/-- There is always a piece, if only an empty one. -/
theorem pieces_ne_nil (separator : Char) (text : List Char) : pieces separator text ≠ [] := by
  cases text with
  | nil => simp [pieces]
  | cons c r =>
    rw [pieces]
    split
    · simp
    · split <;> simp

/-- **A separator cuts the pieces in two.** The piece in front of it ends there
and the one behind it begins, so that no piece has parts on both sides. -/
theorem pieces_append (separator : Char) (front rest : List Char) :
    pieces separator (front ++ separator :: rest)
      = pieces separator front ++ pieces separator rest := by
  induction front with
  | nil => simp [pieces]
  | cons c front ih =>
    rw [List.cons_append, pieces, pieces, ih]
    by_cases hc : (c == separator) = true
    · rw [if_pos hc, if_pos hc, List.cons_append]
    · rw [if_neg hc, if_neg hc]
      -- the front has a first piece, which the character belongs to
      cases hfront : pieces separator front with
      | nil => exact absurd hfront (pieces_ne_nil separator front)
      | cons p ps => rfl

/-- What is put in front belongs to the first piece, as long as there is no
separator in it. -/
theorem pieces_append_of_notMem {separator : Char} {front : List Char} (h : separator ∉ front)
    (rest : List Char) :
    pieces separator (front ++ rest) = (pieces separator rest).modifyHead (front ++ ·) := by
  induction front with
  | nil =>
    cases hrest : pieces separator rest with
    | nil => exact absurd hrest (pieces_ne_nil separator rest)
    | cons p ps =>
      rw [List.nil_append, hrest]
      rfl
  | cons c front ih =>
    obtain ⟨hc, hfront⟩ := not_or.mp (mt List.mem_cons.mpr h)
    have hdiffer : ¬ (c == separator) = true := fun heq => hc (eq_of_beq heq).symm
    rw [List.cons_append, pieces, if_neg hdiffer, ih hfront]
    -- there is a first piece, to which the character belongs
    cases hrest : pieces separator rest with
    | nil => exact absurd hrest (pieces_ne_nil separator rest)
    | cons p ps => rfl

/-- Cutting at separators is what the library does, too. -/
theorem pieces_eq_splitOn (separator : Char) (text : List Char) :
    pieces separator text = text.splitOn separator := by
  induction text with
  | nil => rfl
  | cons c r ih =>
    rw [pieces, List.splitOn_cons_eq_if_modifyHead, ih]
    split
    · rfl
    · cases hsplit : r.splitOn separator with
      | nil => exact absurd hsplit (List.splitOn_ne_nil separator r)
      | cons p ps => rfl

/-- A piece has no separator in it. -/
theorem notMem_of_mem_pieces {separator : Char} {text piece : List Char}
    (h : piece ∈ pieces separator text) : separator ∉ piece := by
  induction text generalizing piece with
  | nil =>
    obtain rfl : piece = [] := List.mem_singleton.mp h
    exact List.not_mem_nil
  | cons c r ih =>
    rw [pieces] at h
    by_cases hc : (c == separator) = true
    · rw [if_pos hc] at h
      rcases List.mem_cons.mp h with rfl | h
      · exact List.not_mem_nil
      · exact ih h
    · rw [if_neg hc] at h
      have hc' : separator ≠ c := fun heq => hc (beq_iff_eq.mpr heq.symm)
      cases hpieces : pieces separator r with
      | nil => exact absurd hpieces (pieces_ne_nil separator r)
      | cons p ps =>
        rw [hpieces] at h ih
        rcases List.mem_cons.mp h with rfl | h
        · exact List.not_mem_cons_of_ne_of_not_mem hc' (ih List.mem_cons_self)
        · exact ih (List.mem_cons_of_mem p h)

/-- There is one piece more than there are separators. -/
theorem length_pieces (separator : Char) (text : List Char) :
    (pieces separator text).length = text.count separator + 1 := by
  induction text with
  | nil => rfl
  | cons c r ih =>
    rw [pieces, List.count_cons]
    split
    · rw [List.length_cons, ih]
    · cases hpieces : pieces separator r with
      | nil => exact absurd hpieces (pieces_ne_nil separator r)
      | cons p ps =>
        rw [hpieces] at ih
        exact ih

end LocaleKeys.Text
