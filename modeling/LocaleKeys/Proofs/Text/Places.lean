/-
The places between the characters of a text.

A place has two names, a count of bytes and a line with a column. Bytes inside
of a character have no name of their own, but between the characters the names
order the places alike (`Document.before_place_iff`), because each character
either ends the line or takes at least one column.
-/
import LocaleKeys.Text.Position
import Mathlib.Data.List.Sort

set_option autoImplicit false

namespace LocaleKeys.Text

/-! ## Counting bytes

A place is given by how many bytes stand in front of it. `Stands text n rest`
names what is behind it as well, which leaves no doubt where in the text it is:
`IsBetween` are the places for which there is such a rest, and these are the
only ones that the claims speak of. -/

@[simp] theorem byteCount_nil : byteCount [] = 0 := rfl

@[simp] theorem byteCount_cons (c : Char) (text : List Char) :
    byteCount (c :: text) = c.utf8Size + byteCount text := rfl

@[simp] theorem byteCount_append (front rest : List Char) :
    byteCount (front ++ rest) = byteCount front + byteCount rest := by
  induction front with
  | nil => rw [List.nil_append, byteCount_nil, Nat.zero_add]
  | cons c front ih => rw [List.cons_append, byteCount_cons, byteCount_cons, ih, Nat.add_assoc]

/-- A text that is not empty takes bytes. -/
theorem byteCount_pos {text : List Char} (h : text ≠ []) : 0 < byteCount text := by
  cases text with
  | nil => exact absurd rfl h
  | cons c rest => exact Nat.add_pos_left c.utf8Size_pos _

/-- Characters that take the same bytes from the beginning of a text are the
same. -/
theorem eq_of_byteCount_eq {front rest front' rest' : List Char} (h : front ++ rest = front' ++ rest')
    (hbytes : byteCount front = byteCount front') : front = front' ∧ rest = rest' := by
  have hmid : ∀ {front mid : List Char}, byteCount (front ++ mid) = byteCount front → mid = [] := by
    intro front mid hbytes
    by_contra hne
    have hpos := byteCount_pos hne
    rw [byteCount_append] at hbytes
    omega
  rcases List.append_eq_append_iff.mp h with ⟨mid, rfl, rfl⟩ | ⟨mid, rfl, rfl⟩
  · obtain rfl := hmid hbytes.symm
    simp
  · obtain rfl := hmid hbytes
    simp

/-- At the place `n` of the text there stands `rest`, up to the end. -/
def Stands (text : List Char) (n : Nat) (rest : List Char) : Prop :=
  ∃ front, text = front ++ rest ∧ n = byteCount front

/-- The place is an end of a character of the text, or its beginning. -/
def IsBetween (text : List Char) (n : Nat) : Prop := ∃ rest, Stands text n rest

section

variable {text : List Char} {n : Nat} {rest : List Char}

theorem stands_self (text : List Char) : Stands text 0 text := ⟨[], rfl, rfl⟩

/-- Where something stands is between characters. -/
theorem Stands.isBetween (h : Stands text n rest) : IsBetween text n := ⟨rest, h⟩

theorem Stands.further {taken : List Char} (h : Stands text n (taken ++ rest)) :
    Stands text (n + byteCount taken) rest := by
  obtain ⟨front, rfl, rfl⟩ := h
  exact ⟨front ++ taken, (List.append_assoc _ _ _).symm, (byteCount_append _ _).symm⟩

theorem Stands.tail {c : Char} (h : Stands text n (c :: rest)) : Stands text (n + c.utf8Size) rest :=
  @Stands.further text n rest [c] h

/-- No place is behind the end. -/
theorem IsBetween.le (h : IsBetween text n) : n ≤ byteCount text := by
  obtain ⟨rest, front, rfl, rfl⟩ := h
  rw [byteCount_append]
  exact Nat.le_add_right _ _

end

/-! ## Reading order

Positions are compared by line and then by column. The order is strict and
total on positions, as far as that is needed. `Place.behind` goes over
characters as the program does; each of them moves on in this order, whatever
the terminators are, so that bytes and positions order the places alike. -/

namespace Position

variable {p q r : Position}

theorem before_iff : p.before q = true ↔ p.line < q.line ∨ p.line = q.line ∧ p.column < q.column := by
  simp [before]

theorem upTo_iff : p.upTo q = true ↔ p.line < q.line ∨ p.line = q.line ∧ p.column ≤ q.column := by
  simp [upTo]

/-- Of two different positions that are in order the first is in front. -/
theorem before_of_upTo (hle : p.upTo q = true) (hne : p ≠ q) : p.before q = true := by
  obtain ⟨line, column⟩ := p
  obtain ⟨line', column'⟩ := q
  rw [ne_eq, mk.injEq] at hne
  rw [upTo_iff] at hle
  rw [before_iff]
  dsimp only at hle ⊢
  omega

theorem before_trans (hpq : p.before q = true) (hqr : q.before r = true) : p.before r = true := by
  rw [before_iff] at *
  omega

theorem not_before_self (p : Position) : ¬ p.before p = true := by
  rw [before_iff]
  omega

/-- The places stand in reading order, each once. -/
def InOrder (ps : List Position) : Prop := ps.Pairwise fun p q => p.before q = true

instance (ps : List Position) : Decidable (InOrder ps) :=
  inferInstanceAs (Decidable (ps.Pairwise fun p q => p.before q = true))

/-- Of places that stand in reading order, some do so too if they are named in
the same order. -/
theorem inOrder_iff_sublist {ps all : List Position} (hall : InOrder all) (hmem : ∀ p ∈ ps, p ∈ all) :
    InOrder ps ↔ ps.Sublist all := by
  refine ⟨fun hps => ?_, fun hsub => hall.sublist hsub⟩
  have hnodup : ps.Nodup := by
    refine List.Pairwise.imp (fun {p q} hbefore => ?_) hps
    rintro rfl
    exact not_before_self p hbefore
  have : Std.Antisymm fun p q : Position => p.before q = true :=
    ⟨fun p _ hpq hqp => absurd (before_trans hpq hqp) (not_before_self p)⟩
  exact List.sublist_of_subperm_of_pairwise (List.subperm_of_subset hnodup hmem) hps hall

end Position

/-- The place behind the characters `front`, which stand at `p` and have `rest`
behind them. -/
def Place.behind (p : Place) : (front rest : List Char) → Place
  | [], _ => p
  | c :: front, rest => (p.after c (front ++ rest)).behind front rest

namespace Place

theorem behind_append (p : Place) (front mid rest : List Char) :
    p.behind (front ++ mid) rest = (p.behind front (mid ++ rest)).behind mid rest := by
  induction front generalizing p with
  | nil => rfl
  | cons c front ih => rw [List.cons_append, behind, behind, List.append_assoc, ih]

/-- Each character takes a column, or ends the line. -/
theorem before_after (p : Place) (c : Char) (rest : List Char) :
    p.position.before (p.after c rest).position = true := by
  have hunits : 0 < units16 c := by
    rw [units16]
    split <;> decide
  rw [Position.before_iff, after]
  dsimp only
  split
  · exact .inl (Nat.lt_succ_self _)
  · exact .inr ⟨rfl, Nat.lt_add_of_pos_right hunits⟩

/-- Some characters further on is further on. -/
theorem before_behind (p : Place) {front : List Char} (h : front ≠ []) (rest : List Char) :
    p.position.before (p.behind front rest).position = true := by
  induction front generalizing p with
  | nil => exact absurd rfl h
  | cons c front ih =>
    have hone := p.before_after c (front ++ rest)
    cases front with
    | nil => exact hone
    | cons c' front => exact Position.before_trans hone (ih _ (List.cons_ne_nil _ _))

theorem offset_behind (p : Place) (front rest : List Char) :
    (p.behind front rest).offset = p.offset + byteCount front := by
  induction front generalizing p with
  | nil => rfl
  | cons c front ih => rw [behind, ih, byteCount_cons, after, Nat.add_assoc]

end Place

/-- Between two characters there is one place. -/
theorem getElem?_placesFrom (p : Place) (front rest : List Char) :
    (placesFrom p (front ++ rest))[byteCount front]? = some (p.behind front rest) := by
  induction front generalizing p with
  | nil =>
    cases rest with
    | nil => rfl
    | cons c rest =>
      have hpos : 0 < c.utf8Size := c.utf8Size_pos
      rw [List.nil_append, byteCount_nil, placesFrom, List.getElem?_append_left (by simpa [placesWithin])]
      simp [placesWithin, hpos, Place.behind]
  -- the places of the first character are as many as its bytes, and the others
  -- follow
  | cons c front ih =>
    have hlength : (placesWithin p c).length = c.utf8Size := by
      rw [placesWithin, List.length_map, List.length_range]
    rw [List.cons_append, placesFrom, byteCount_cons,
      List.getElem?_append_right (by rw [hlength]; exact Nat.le_add_right _ _), hlength,
      Nat.add_sub_cancel_left, ih, Place.behind]

namespace Document

variable (source : String)

/-- The places of a document are those of its characters, from the first one
on. -/
theorem places_ofString : (ofString source).places
    = (placesFrom (firstPlace (ofString source).characters) (ofString source).characters).toArray := rfl

theorem size_places : (ofString source).places.size = byteCount (ofString source).characters + 1 := by
  rw [places_ofString, List.size_toArray, length_placesFrom]

/-- The place behind some characters is what they lead to. -/
theorem place_of_stands {source : String} {front rest : List Char}
    (h : (ofString source).characters = front ++ rest) :
    (ofString source).place (byteCount front)
      = (firstPlace (ofString source).characters).behind front rest := by
  have hfound := getElem?_placesFrom (firstPlace (ofString source).characters) front rest
  have hle : byteCount front ≤ byteCount (ofString source).characters := by
    rw [h, byteCount_append]
    exact Nat.le_add_right _ _
  rw [place, size_places, Nat.add_sub_cancel, Nat.min_eq_left hle, places_ofString,
    Array.getD_eq_getD_getElem?, List.getElem?_toArray]
  rw [← h] at hfound
  rw [hfound]
  rfl

/-- **Lines and columns order the places between characters** as the bytes in
front of them do. Going over a character either takes columns or begins a line,
and both lead further on in reading order. -/
theorem before_place {source : String} {a b : Nat} (ha : IsBetween (ofString source).characters a)
    (hb : IsBetween (ofString source).characters b) (hlt : a < b) :
    ((ofString source).place a).position.before ((ofString source).place b).position = true := by
  obtain ⟨rest, front, hfront, rfl⟩ := ha
  obtain ⟨rest', front', hfront', rfl⟩ := hb
  rcases List.append_eq_append_iff.mp (hfront.symm.trans hfront') with ⟨mid, rfl, rfl⟩ | ⟨mid, rfl, -⟩
  · have hmid : mid ≠ [] := by
      rintro rfl
      rw [List.append_nil] at hlt
      exact Nat.lt_irrefl _ hlt
    rw [place_of_stands hfront, place_of_stands hfront', Place.behind_append]
    exact Place.before_behind _ hmid rest'
  · rw [byteCount_append] at hlt
    omega

/-- The same as an equivalence, which is what a list of positions is sorted by. -/
theorem before_place_iff {source : String} {a b : Nat} (ha : IsBetween (ofString source).characters a)
    (hb : IsBetween (ofString source).characters b) :
    ((ofString source).place a).position.before ((ofString source).place b).position = true ↔ a < b := by
  refine ⟨fun hbefore => ?_, before_place ha hb⟩
  rcases Nat.lt_trichotomy a b with hlt | rfl | hgt
  · exact hlt
  · exact absurd hbefore (Position.not_before_self _)
  · exact absurd (Position.before_trans hbefore (before_place hb ha hgt)) (Position.not_before_self _)

/-- A place between characters keeps the offset that it is looked up by. -/
theorem offset_place {source : String} {a : Nat} (ha : IsBetween (ofString source).characters a) :
    ((ofString source).place a).offset = a := by
  obtain ⟨rest, front, hfront, rfl⟩ := ha
  rw [place_of_stands hfront, Place.offset_behind]
  exact Nat.zero_add _

end Document

end LocaleKeys.Text
