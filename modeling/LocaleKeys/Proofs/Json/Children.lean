/-
The children of JSON values.

A list has its items and an object its members, and each of them has a name: an
item its number and a member its own. Seen so, both are walked through alike,
and what holds everywhere in a value is said once (`Every`).

Reading never gives an object two members of one name, whatever the text says,
because the later one takes the place of the earlier (`distinct_read`). So the
children of what was read differ in their names (`nodup_children`).
-/
import LocaleKeys.Json.Reader
import LocaleKeys.Proofs.Outcomes
import Mathlib.Data.List.Nodup
import Std.Data.String.ToNat

set_option autoImplicit false

namespace LocaleKeys.Json

namespace Value

/-! ## Values and their children

One notion of what is inside a value serves for lists and objects. A child is
smaller than the value it is in (`sizeOf_lt_of_mem_children`), by which
whatever goes through a value by its children comes to an end. -/

/-- What is directly in a value, with the names that lead there. The items of a
list are numbered from zero. -/
def children : Value → List (String × Value)
  | array items => items.zipIdx.map fun item => (toString item.2, item.1)
  | object members => members
  | _ => []

/-- The names of the members of an object. -/
def names : Value → List String
  | object members => members.map (·.1)
  | _ => []

/-- A child is smaller than the value. -/
theorem sizeOf_lt_of_mem_children {v : Value} {child : String × Value} (h : child ∈ v.children) :
    sizeOf child.2 < sizeOf v := by
  cases v with
  | array items =>
    obtain ⟨item, hitem, rfl⟩ := List.mem_map.mp h
    have hlt := List.sizeOf_lt_of_mem (List.fst_mem_of_mem_zipIdx hitem)
    simp only [array.sizeOf_spec]
    omega
  | object members =>
    obtain ⟨name, v⟩ := child
    have hmem : (name, v) ∈ members := h
    have hlt := List.sizeOf_lt_of_mem hmem
    simp only [Prod.mk.sizeOf_spec, object.sizeOf_spec] at hlt ⊢
    omega
  | _ => exact absurd h List.not_mem_nil

/-! ## What holds everywhere in a value

`Every` is inductive, so that an induction on it goes down to the children with
the property at hand. A recursive definition would say the same and give no
such induction without well-founded recursion. -/

/-- The property holds of the value and of everything in it. -/
inductive Every (P : Value → Prop) : Value → Prop
  | intro {v : Value} (here : P v) (within : ∀ child ∈ v.children, Every P child.2) : Every P v

/-- No object in the value has two members of one name. -/
def Distinct (v : Value) : Prop := v.Every (·.names.Nodup)

/-- Items differ in their numbers, and so no two children have one name. -/
theorem nodup_children {v : Value} (h : v.names.Nodup) : (v.children.map (·.1)).Nodup := by
  cases v with
  | array items =>
    -- numbers of items differ, and different numbers are spelled differently
    have hnumbers : (items.zipIdx.map (·.2)).Nodup := by
      rw [List.zipIdx_map_snd]
      exact List.nodup_range' ..
    rw [children, List.map_map]
    have hnames := hnumbers.map (f := Nat.repr) fun _ _ h => Nat.repr_injective h
    rwa [List.map_map] at hnames
  | object members => exact h
  | _ => exact List.nodup_nil

end Value

/-! ## Members without repetitions

`serde_json` puts members into a map, where a member of a name that is there
takes the place of the other. `put` does that in a list. The lemmas say what it
does to the names and to the members; `distinctMembers_spec` is the fold of
it. -/

/-- Giving a member its value adds a name only if it is new. -/
theorem map_fst_put (members : List (String × Value)) (key : String) (value : Value) :
    (put members key value).map (·.1)
      = if key ∈ members.map (·.1) then members.map (·.1) else members.map (·.1) ++ [key] := by
  rw [put]
  have hany : members.any (·.1 == key) = true ↔ key ∈ members.map (·.1) := by
    simp [List.any_eq_true]
  by_cases hkey : key ∈ members.map (·.1)
  · rw [if_pos (hany.mpr hkey), if_pos hkey, List.map_map]
    refine List.map_congr_left ?_
    intro m _
    by_cases hm : m.1 = key <;> simp [hm]
  · rw [if_neg fun h => hkey (hany.mp h), if_neg hkey, List.map_append]
    rfl

/-- Behind it there are the members from before and the new one. -/
theorem mem_put {members : List (String × Value)} {key : String} {value : Value}
    {m : String × Value} (h : m ∈ put members key value) : m ∈ members ∨ m = (key, value) := by
  rw [put] at h
  split at h
  · obtain ⟨m', hm', heq⟩ := List.mem_map.mp h
    split at heq
    · exact .inr heq.symm
    · exact .inl (heq ▸ hm')
  · simpa using h

/-- Names that differ go on doing so. -/
theorem nodup_put {members : List (String × Value)} (h : (members.map (·.1)).Nodup) (key : String)
    (value : Value) : ((put members key value).map (·.1)).Nodup := by
  rw [map_fst_put]
  split
  · exact h
  · rename_i hkey
    rw [List.nodup_append]
    refine ⟨h, List.nodup_singleton _, ?_⟩
    rintro name hname _ hmem rfl
    rw [List.mem_singleton.mp hmem] at hname
    exact hkey hname

/-- The members that are left differ in their names, and each was among the
given ones. The induction is on the given members, with those that are already
put. -/
theorem distinctMembers_spec (members : List (String × Value)) :
    ((distinctMembers members).map (·.1)).Nodup ∧ ∀ m ∈ distinctMembers members, m ∈ members := by
  suffices hput : ∀ done : List (String × Value), (done.map (·.1)).Nodup →
      ((members.foldl (fun ms m => put ms m.1 m.2) done).map (·.1)).Nodup ∧
      ∀ m ∈ members.foldl (fun ms m => put ms m.1 m.2) done, m ∈ done ∨ m ∈ members by
    obtain ⟨hnodup, hmem⟩ := hput [] List.nodup_nil
    exact ⟨hnodup, fun m hm => (hmem m hm).resolve_left List.not_mem_nil⟩
  induction members with
  | nil => exact fun done hdone => ⟨hdone, fun m hm => .inl hm⟩
  | cons m members ih =>
    intro done hdone
    obtain ⟨hnodup, hmem⟩ := ih (put done m.1 m.2) (nodup_put hdone m.1 m.2)
    refine ⟨hnodup, fun m' hm' => ?_⟩
    rcases hmem m' hm' with hput | hrest
    · rcases mem_put hput with hold | hnew
      · exact .inl hold
      · exact .inr (hnew ▸ List.mem_cons_self)
    · exact .inr (List.mem_cons_of_mem _ hrest)

/-! ## What is read

A value is read with the readers of its elements and members as parameters, and
these are again the reader of values with less depth. So there is one lemma for
each of the two loops, about any reader of elements and any way of taking in
members; in both the induction is on the bound of the loop.
`distinct_valueFrom` puts them together. -/

/-- What holds of every element that is read holds of every item of the list. -/
theorem forall_of_elementsFrom {α : Type} {P : α → Prop}
    {element : Stand → Except Fault (α × Stand)}
    (helement : ∀ s a s', element s = .ok (a, s') → P a) {bound : Nat} {first : Bool}
    {done : List α} (hdone : ∀ a ∈ done, P a) {s s' : Stand} {items : List α}
    (h : elementsFrom element bound first done s = .ok (items, s')) : ∀ a ∈ items, P a := by
  induction bound generalizing first done s with
  | zero => exact absurd h (by simp [elementsFrom, Stand.fault])
  | succ bound ih =>
    -- an element is read in two places, in front of which there may be a comma
    -- or not
    have hgo : ∀ s₁ : Stand, (element s₁ >>= fun read =>
        elementsFrom element bound false (read.1 :: done) read.2) = .ok (items, s') →
        ∀ a ∈ items, P a := by
      intro s₁ h₁
      obtain ⟨⟨a, s₂⟩, ha, hrest⟩ := bind_eq_ok_iff.mp h₁
      refine ih ?_ hrest
      intro b hb
      rcases List.mem_cons.mp hb with rfl | hb
      · exact helement s₁ _ s₂ ha
      · exact hdone b hb
    simp only [elementsFrom] at h
    split at h
    · exact absurd h (by simp [Stand.fault])
    · cases h
      simpa using hdone
    · split at h
      · exact hgo _ h
      · split at h
        · split at h
          · exact absurd h (by simp [Stand.fault])
          · exact absurd h (by simp [Stand.fault])
          · exact hgo _ h
        · exact absurd h (by simp [Stand.fault])

/-- What every member that is read keeps up holds behind the whole object. -/
theorem of_membersFrom {σ : Type} {P : σ → Prop}
    {member : σ → String → Stand → Except Fault (σ × Stand)}
    (hmember : ∀ made key s made' s', P made → member made key s = .ok (made', s') → P made')
    {bound : Nat} {first : Bool} {made made' : σ} (hmade : P made) {s s' : Stand}
    (h : membersFrom member bound first made s = .ok (made', s')) : P made' := by
  induction bound generalizing first made s with
  | zero => exact absurd h (by simp [membersFrom, Stand.fault])
  | succ bound ih =>
    -- a name is read in two places, in front of which there may be a comma or
    -- not
    have hgo : ∀ (n : Nat) (r : List Char), (stringFrom 0 [] n r >>= fun read =>
        member made read.1 read.2 >>= fun next =>
          membersFrom member bound false next.1 next.2) = .ok (made', s') → P made' := by
      intro n r h₁
      obtain ⟨⟨key, s₁⟩, -, h₂⟩ := bind_eq_ok_iff.mp h₁
      obtain ⟨⟨made₁, s₂⟩, hread, hrest⟩ := bind_eq_ok_iff.mp h₂
      exact ih (hmember made key s₁ made₁ s₂ hmade hread) hrest
    simp only [membersFrom] at h
    split at h
    · exact absurd h (by simp [Stand.fault])
    · cases h
      exact hmade
    · split at h
      · split at h
        · exact hgo _ _ h
        · exact absurd h (by simp [Stand.fault])
      · split at h
        · split at h
          · exact absurd h (by simp [Stand.fault])
          · exact hgo _ _ h
          · exact absurd h (by simp [Stand.fault])
          · exact absurd h (by simp [Stand.fault])
        · exact absurd h (by simp [Stand.fault])

/-- A value without children has no two members of one name. -/
theorem distinct_of_map {α : Type} {x : Except Fault α} {f : α → Value × Stand} {v : Value}
    {s : Stand} (hf : ∀ a, (f a).1.children = []) (h : x.map f = .ok (v, s)) : v.Distinct := by
  obtain ⟨a, -, heq⟩ := map_eq_ok_iff.mp h
  have hv : v.children = [] := by
    rw [← hf a, heq]
  refine .intro ?_ ?_
  · have hnames : v.names = [] := by
      cases v with
      | object members => rw [show members = [] from hv]; rfl
      | _ => rfl
    rw [hnames]
    exact List.nodup_nil
  · intro child hchild
    rw [hv] at hchild
    exact absurd hchild List.not_mem_nil

/-- The induction is on the depth. Every value within the one that is read was
read with less. -/
theorem distinct_valueFrom {depth : Nat} {s s' : Stand} {v : Value}
    (h : valueFrom depth s = .ok (v, s')) : v.Distinct := by
  induction depth generalizing s s' v with
  | zero => exact absurd h (by simp [valueFrom, Stand.fault])
  | succ depth ih =>
    simp only [valueFrom] at h
    -- by the first character: the literals, numbers and strings have no
    -- children
    split at h
    · exact absurd h (by simp [Stand.fault])
    · exact distinct_of_map (fun _ => rfl) h
    · exact distinct_of_map (fun _ => rfl) h
    · exact distinct_of_map (fun _ => rfl) h
    · exact distinct_of_map (fun _ => rfl) h
    · exact distinct_of_map (fun _ => rfl) h
    · split at h
      · exact absurd h (by simp [Stand.fault])
      · obtain ⟨⟨items, s₁⟩, hitems, heq⟩ := map_eq_ok_iff.mp h
        cases heq
        -- every item was read by the reader with less depth
        have hall : ∀ w ∈ items, w.Distinct :=
          forall_of_elementsFrom (fun _ _ _ => ih) (by simp) hitems
        refine .intro List.nodup_nil ?_
        intro child hchild
        obtain ⟨item, hitem, rfl⟩ := List.mem_map.mp hchild
        exact hall _ (List.fst_mem_of_mem_zipIdx hitem)
    · split at h
      · exact absurd h (by simp [Stand.fault])
      · obtain ⟨⟨members, s₁⟩, hmembers, heq⟩ := map_eq_ok_iff.mp h
        cases heq
        have hall : ∀ m ∈ members, m.2.Distinct := by
          -- what is kept up from member to member is that the values so far
          -- are as they should be
          refine of_membersFrom (P := fun made : List (String × Value) => ∀ m ∈ made, m.2.Distinct)
            ?_ (by simp) hmembers
          intro made key s₂ made' s₃ hmade hmember
          obtain ⟨s₄, -, hvalue⟩ := bind_eq_ok_iff.mp hmember
          obtain ⟨⟨w, s₅⟩, hw, heq⟩ := bind_eq_ok_iff.mp hvalue
          cases heq
          intro m hm
          rcases List.mem_append.mp hm with hm | hm
          · exact hmade m hm
          · rw [List.mem_singleton.mp hm]
            exact ih hw
        -- the names differ only after the repetitions are taken out, and no
        -- member is added by that
        obtain ⟨hnodup, hmem⟩ := distinctMembers_spec members
        exact .intro hnodup fun m hm => hall m (hmem m hm)
    · split at h
      · exact distinct_of_map (fun _ => rfl) h
      · exact absurd h (by simp [Stand.fault])

/-- **Members of what is read.** No object in it has two of one name. A member
that comes again takes the place of the earlier one as the object is read. -/
theorem distinct_read {text : List Char} {v : Value} (h : read text = .ok v) : v.Distinct := by
  obtain ⟨⟨w, s⟩, hw, hend⟩ := bind_eq_ok_iff.mp h
  obtain ⟨-, -, heq⟩ := bind_eq_ok_iff.mp hend
  cases heq
  exact distinct_valueFrom hw

end LocaleKeys.Json
