/-
Spans and the places in them.

A span keeps its two ends under both of their names, and it is asked about
lines and columns. Between characters the answer is that of the bytes
(`Document.contains_span_iff`). A span may even end inside of a character: then
it is shown to end in front of it, and no place between characters lies behind
that and not behind the end (`Document.exists_front`).
-/
import LocaleKeys.Proofs.Text.Places

set_option autoImplicit false

namespace LocaleKeys.Text

/-- The bytes of a character have its line and its column. -/
theorem getElem?_placesFrom_within (p : Place) (front rest : List Char) {c : Char} {k : Nat} (hk : k < c.utf8Size) :
    (placesFrom p (front ++ c :: rest))[byteCount front + k]?
      = some ⟨(p.behind front (c :: rest)).position, (p.behind front (c :: rest)).offset + k⟩ := by
  induction front generalizing p with
  | nil =>
    have hlength : k < (placesWithin p c).length := by
      rwa [placesWithin, List.length_map, List.length_range]
    rw [List.nil_append, byteCount_nil, Nat.zero_add, placesFrom, List.getElem?_append_left hlength,
      List.getElem?_eq_getElem hlength]
    simp [placesWithin, Place.behind]
  | cons d front ih =>
    have hlength : (placesWithin p d).length = d.utf8Size := by
      rw [placesWithin, List.length_map, List.length_range]
    rw [List.cons_append, placesFrom, byteCount_cons, Nat.add_assoc,
      List.getElem?_append_right (by rw [hlength]; exact Nat.le_add_right _ _), hlength,
      Nat.add_sub_cancel_left, ih, Place.behind]

/-- Every byte belongs to a character. -/
theorem exists_character {text : List Char} {n : Nat} (h : n < byteCount text) :
    ∃ front c rest k, text = front ++ c :: rest ∧ n = byteCount front + k ∧ k < c.utf8Size := by
  induction text generalizing n with
  | nil => exact absurd h (Nat.not_lt_zero n)
  | cons c text ih =>
    rw [byteCount_cons] at h
    by_cases hlt : n < c.utf8Size
    · exact ⟨[], c, text, n, rfl, (Nat.zero_add n).symm, hlt⟩
    · obtain ⟨front, d, rest, k, rfl, hk, hlt'⟩ := @ih (n - c.utf8Size) (by omega)
      exact ⟨c :: front, d, rest, k, rfl, by rw [byteCount_cons]; omega, hlt'⟩

/-- No place between characters lies inside of one. -/
theorem IsBetween.le_of_lt {front rest : List Char} {c : Char} {n : Nat} (h : IsBetween (front ++ c :: rest) n)
    (hlt : n < byteCount front + c.utf8Size) : n ≤ byteCount front := by
  obtain ⟨rest', front', htext, rfl⟩ := h
  rcases List.append_eq_append_iff.mp htext.symm with ⟨mid, rfl, -⟩ | ⟨mid, rfl, hmid⟩
  · rw [byteCount_append]
    exact Nat.le_add_right _ _
  · cases mid with
    | nil => rw [List.append_nil]
    | cons d mid =>
      obtain ⟨rfl, -⟩ := List.cons.inj hmid
      rw [byteCount_append, byteCount_cons] at hlt
      omega

/-- The end of a text is between characters. -/
theorem isBetween_byteCount (text : List Char) : IsBetween text (byteCount text) :=
  ⟨[], text, (List.append_nil text).symm, rfl⟩

namespace Document

variable {source : String} {a b n : Nat}

/-- Order with equality, in both names. -/
theorem upTo_place_iff (ha : IsBetween (ofString source).characters a)
    (hb : IsBetween (ofString source).characters b) :
    ((ofString source).place a).position.upTo ((ofString source).place b).position = true ↔ a ≤ b := by
  rw [← Nat.not_lt, ← before_place_iff hb ha, Position.upTo_iff, Position.before_iff]
  omega

/-- Behind the end there is no further place. -/
theorem place_min (source : String) (n : Nat) :
    (ofString source).place (min n (byteCount (ofString source).characters)) = (ofString source).place n := by
  rw [place, place, size_places, Nat.add_sub_cancel, Nat.min_assoc, Nat.min_self]

/-- **Every offset has the line and the column of a place between characters**:
of the last one that does not lie behind it. -/
theorem exists_front (source : String) (n : Nat) : ∃ m, IsBetween (ofString source).characters m ∧
    ((ofString source).place n).position = ((ofString source).place m).position ∧
    ∀ o, IsBetween (ofString source).characters o → (o ≤ m ↔ o ≤ ((ofString source).place n).offset) := by
  rw [← place_min source n]
  -- within the text the offset belongs to a character, and behind it to the
  -- end
  by_cases hlt : n < byteCount (ofString source).characters
  · obtain ⟨front, c, rest, k, htext, rfl, hk⟩ := exists_character hlt
    have hmid : IsBetween (ofString source).characters (byteCount front) := ⟨c :: rest, front, htext, rfl⟩
    have hplace : (ofString source).place (byteCount front + k)
        = ⟨((ofString source).place (byteCount front)).position, byteCount front + k⟩ := by
      have hfound := getElem?_placesFrom_within (firstPlace (ofString source).characters) front rest hk
      rw [← htext] at hfound
      rw [place_of_stands htext, place, size_places, Nat.add_sub_cancel, Nat.min_eq_left (Nat.le_of_lt hlt),
        places_ofString, Array.getD_eq_getD_getElem?, List.getElem?_toArray, hfound, Option.getD_some,
        Place.offset_behind, show (firstPlace (ofString source).characters).offset = 0 from rfl, Nat.zero_add]
    rw [Nat.min_eq_left (Nat.le_of_lt hlt), hplace]
    refine ⟨_, hmid, rfl, fun o ho => ⟨fun hle => Nat.le_trans hle (Nat.le_add_right _ _), fun hle => ?_⟩⟩
    rw [htext] at ho
    exact ho.le_of_lt (Nat.lt_of_le_of_lt hle (Nat.add_lt_add_left hk _))
  · have hend := isBetween_byteCount (ofString source).characters
    rw [Nat.min_eq_right (Nat.not_lt.mp hlt)]
    exact ⟨_, hend, rfl, fun o _ => by rw [offset_place hend]⟩

/-- **A place between characters lies in a span if its byte does**, wherever
the span ends. -/
theorem contains_span_iff (ha : IsBetween (ofString source).characters a) (b : Nat)
    (hn : IsBetween (ofString source).characters n) :
    ((ofString source).span a b).contains ((ofString source).place n).position = true ↔
      ((ofString source).span a b).lo ≤ n ∧ n ≤ ((ofString source).span a b).hi := by
  obtain ⟨m, hm, hposition, hle⟩ := exists_front source b
  rw [Span.contains, Bool.and_eq_true, span]
  dsimp only
  rw [hposition, upTo_place_iff ha hn, upTo_place_iff hn hm, offset_place ha, hle n hn]

/-- **A span begins in reading order where it begins in bytes**: not behind its
end. -/
theorem upTo_span_iff (ha : IsBetween (ofString source).characters a) (b : Nat) :
    ((ofString source).span a b).start.upTo ((ofString source).span a b).stop = true ↔
      ((ofString source).span a b).lo ≤ ((ofString source).span a b).hi := by
  obtain ⟨m, hm, hposition, hle⟩ := exists_front source b
  rw [span]
  dsimp only
  rw [hposition, upTo_place_iff ha hm, offset_place ha, hle a ha]

end Document

end LocaleKeys.Text
