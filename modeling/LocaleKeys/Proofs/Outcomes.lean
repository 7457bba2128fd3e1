/-
Results of what may go wrong.

Reading, listing and loading may each end with a fault, and most arguments
begin with the remark that here they did not. What follows from that for the
steps on the way is said once, for `bind`, for `map`, and for lists of steps
that stop at the first fault. In the proofs an outcome is then taken apart with
`obtain`, step by step, and no definition needs to be unfolded for it.
-/

set_option autoImplicit false

namespace LocaleKeys

variable {ε α β : Type}

/-- What came out well went well at every step. -/
theorem bind_eq_ok_iff {x : Except ε α} {f : α → Except ε β} {b : β} :
    (x >>= f) = .ok b ↔ ∃ a, x = .ok a ∧ f a = .ok b := by
  cases x <;> simp [bind, Except.bind]

/-- What comes out of a function that is applied to a result was a result
before. -/
theorem map_eq_ok_iff {x : Except ε α} {f : α → β} {b : β} :
    x.map f = .ok b ↔ ∃ a, x = .ok a ∧ f a = b := by
  cases x <;> simp [Except.map]

/-- Giving a fault another form changes no result. -/
theorem mapError_eq_ok_iff {ε' : Type} {x : Except ε α} {f : ε → ε'} {a : α} :
    x.mapError f = .ok a ↔ x = .ok a := by
  cases x with
  | error e =>
    show Except.error (f e) = .ok a ↔ _
    simp
  | ok b =>
    show Except.ok b = .ok a ↔ _
    simp

/-- A fault is no result. -/
theorem throw_ne_ok {e : ε} {a : α} : (throw e : Except ε α) ≠ .ok a := by
  simp [throw, throwThe, MonadExceptOf.throw]

/-- Forgetting the fault keeps the results. -/
theorem toOption_eq_some_iff {x : Except ε α} {a : α} : x.toOption = some a ↔ x = .ok a := by
  cases x <;> simp [Except.toOption]

/-- That all of some outcomes went well can be found out. -/
theorem forall_ok_of_all {outcomes : List (Except ε α)}
    (h : outcomes.all (·.toOption.isSome) = true) : ∀ outcome ∈ outcomes, ∃ a, outcome = .ok a := by
  intro outcome houtcome
  obtain ⟨a, ha⟩ := Option.isSome_iff_exists.mp (List.all_eq_true.mp h outcome houtcome)
  exact ⟨a, toOption_eq_some_iff.mp ha⟩

/-- A list of steps comes out well if each of them does. -/
theorem exists_mapM_eq_ok_iff {f : α → Except ε β} {l : List α} :
    (∃ bs, l.mapM f = .ok bs) ↔ ∀ a ∈ l, ∃ b, f a = .ok b := by
  induction l with
  | nil => exact iff_of_true ⟨[], rfl⟩ (by simp)
  | cons a l ih =>
    rw [List.forall_mem_cons, ← ih, List.mapM_cons]
    -- a list comes out well exactly if its first step does and the others do
    constructor
    · rintro ⟨bs, h⟩
      obtain ⟨b, hb, h⟩ := bind_eq_ok_iff.mp h
      obtain ⟨bs', hbs', -⟩ := bind_eq_ok_iff.mp h
      exact ⟨⟨b, hb⟩, bs', hbs'⟩
    · rintro ⟨⟨b, hb⟩, bs, hbs⟩
      exact ⟨b :: bs, bind_eq_ok_iff.mpr ⟨b, hb, bind_eq_ok_iff.mpr ⟨bs, hbs, rfl⟩⟩⟩

/-- What a list of steps gives is what its steps give. -/
theorem mem_iff_of_mapM {f : α → Except ε β} {l : List α} {bs : List β} (h : l.mapM f = .ok bs) {b : β} :
    b ∈ bs ↔ ∃ a ∈ l, f a = .ok b := by
  induction l generalizing bs with
  | nil =>
    obtain rfl : bs = [] := (Except.ok.inj h).symm
    simp
  | cons a l ih =>
    rw [List.mapM_cons] at h
    obtain ⟨first, ha, h'⟩ := bind_eq_ok_iff.mp h
    obtain ⟨rest, hrest, h''⟩ := bind_eq_ok_iff.mp h'
    obtain rfl := Except.ok.inj h''
    have hfirst : b = first ↔ f a = .ok b := by rw [ha, Except.ok.injEq, eq_comm]
    simp only [List.mem_cons, ih hrest, hfirst, exists_eq_or_imp]

/-- Two lists of steps, one after the other, give what both give. -/
theorem mapM_append_eq_ok {f : α → Except ε β} {l l' : List α} {bs bs' : List β} (h : l.mapM f = .ok bs)
    (h' : l'.mapM f = .ok bs') : (l ++ l').mapM f = .ok (bs ++ bs') := by
  rw [List.mapM_append, h, h']
  rfl

/-- Where each step gives a list, what is in any of the lists came from one of
the steps. -/
theorem mem_flatten_iff_of_mapM {f : α → Except ε (List β)} {l : List α} {bss : List (List β)}
    (h : l.mapM f = .ok bss) {b : β} :
    b ∈ bss.flatten ↔ ∃ a ∈ l, ∃ bs, f a = .ok bs ∧ b ∈ bs := by
  rw [List.mem_flatten]
  constructor
  · rintro ⟨bs, hbs, hb⟩
    obtain ⟨a, ha, hfa⟩ := (mem_iff_of_mapM h).mp hbs
    exact ⟨a, ha, bs, hfa, hb⟩
  · rintro ⟨a, ha, bs, hfa, hb⟩
    exact ⟨bs, (mem_iff_of_mapM h).mpr ⟨a, ha, hfa⟩, hb⟩

/-- A list of checks is passed if each of them is. -/
theorem forM_eq_ok_iff {f : α → Except ε Unit} {l : List α} :
    l.forM f = .ok () ↔ ∀ a ∈ l, f a = .ok () := by
  induction l with
  | nil => exact iff_of_true rfl (by simp)
  | cons a l ih =>
    rw [List.forall_mem_cons, ← ih, show (a :: l).forM f = (f a >>= fun _ => l.forM f) from rfl,
      bind_eq_ok_iff]
    exact ⟨fun ⟨_, ha, hl⟩ => ⟨ha, hl⟩, fun ⟨ha, hl⟩ => ⟨(), ha, hl⟩⟩

/-- Where a check is passed, there is something that was checked. -/
theorem exists_ok_of_any {x : Except ε α} {p : α → Bool} (h : x.toOption.any p = true) :
    ∃ a, x = .ok a ∧ p a = true := by
  obtain ⟨a, ha, hp⟩ := (Option.any_eq_true _ _).mp h
  exact ⟨a, toOption_eq_some_iff.mp ha, hp⟩

end LocaleKeys
