/-
Changes of two files, in one order and in the other.

A poller looks at all of its files in one go and says of several which have
changed, in whichever order. So it matters what the order of two changes
decides. A change takes what the file gave before away and puts what it gives
now at the end, and both of that can be seen in what a key reads behind two
changes (`Contributions.getElem?_change_change`): the new text of the file that
changed last, else the new text of the other one, else what was there without
the two. Only the first two of these depend on the order, and only for keys
that both files give now.

Nothing is assumed of the store. The published messages need not even be those
that merging gives, because what a change leaves alone it leaves alone in
either order.

The third part is where the work is. A change patches the published messages,
and so it asks of each key whether the file had given it. Behind the first
change this is asked of the second file, in a store in which the first one has
moved. `restOf` says what both questions come to together, and it is symmetric
in the two files because each can be taken away without the other.
-/
import LocaleKeys.Proofs.Dictionary.Holdings
import LocaleKeys.Proofs.Dictionary.Runs

set_option autoImplicit false

namespace LocaleKeys

namespace Contributions

variable (c : Contributions) {p q : Path}

/-- Two files may be taken away in any order. -/
theorem without_comm (h : ¬ p.same q = true) : (c.without p).without q = (c.without q).without p := by
  rw [without, without, without, without]
  refine congrArg Contributions.mk (List.eraseP_comm fun f _ => ?_)
  by_contra hboth
  obtain ⟨hp, hq⟩ := not_or.mp hboth
  rw [not_not] at hp hq
  exact h (Path.same_trans (by rwa [Path.same_comm]) hq)

/-- A file that has changed stays at the end when another one is taken away. -/
theorem without_change (h : ¬ p.same q = true) (new m : Messages) :
    (c.change p new m).1.without q = ⟨((c.without p).without q).files ++ [(p, new)]⟩ := by
  rw [change_files, without, List.eraseP_append, List.eraseP_cons]
  dsimp only
  rw [Bool.eq_false_iff.mpr h, cond_false, List.eraseP_nil]
  split
  · rfl
  · rename_i hany
    -- nothing was there to be taken away
    have hnone : ∀ f ∈ (c.without p).files, ¬ f.1.same q = true := by simpa using hany
    rw [without.eq_def (c.without p), List.eraseP_of_forall_not hnone]

/-- The file has given a text for the key. -/
def Gives (p : Path) (key : String) : Prop := (c.find? p).any (·.contains key) = true

instance (p : Path) (key : String) : Decidable (c.Gives p key) :=
  inferInstanceAs (Decidable ((c.find? p).any (·.contains key) = true))

/-- Taking a file away changes nothing for a key that the file has not given. -/
theorem latest?_without_of_not_gives {key : String} (h : ¬ c.Gives p key) :
    (c.without p).latest? key = c.latest? key := by
  refine latest?_without c p key fun given hgiven => ?_
  rw [Gives, hgiven] at h
  simpa [Std.TreeMap.contains_iff_mem] using h

/-- What a key reads where neither of two files has a new text for it: what is
left without the two if one of them gave it, and else what was there. -/
def restOf (p q : Path) (m : Messages) (key : String) : Option String :=
  if c.Gives p key ∨ c.Gives q key then ((c.without p).without q).latest? key else m[key]?

theorem restOf_comm (h : ¬ p.same q = true) (m : Messages) (key : String) :
    c.restOf p q m key = c.restOf q p m key := by
  rw [restOf, restOf, c.without_comm h]
  exact if_congr or_comm rfl rfl

/-- **A key behind two changes.** The file that changed last decides, then the
one that changed first. Behind these two come the other files, which neither
change has moved. -/
theorem getElem?_change_change (h : ¬ p.same q = true) (new new' m : Messages) (key : String) :
    ((c.change p new m).1.change q new' (c.change p new m).2).2[key]?
      = new'[key]?.or (new[key]?.or (c.restOf p q m key)) := by
  rw [getElem?_change, find?_change_of_ne _ _ _ _ h, without_change c h, latest?_append, getElem?_change]
  refine congrArg _ ?_
  rw [← apply_ite (new[key]?.or ·)]
  refine congrArg _ ?_
  rw [restOf]
  by_cases hq : c.Gives q key
  · rw [if_pos (show (c.find? q).any (·.contains key) = true from hq), if_pos (.inr hq)]
  · rw [if_neg (show ¬ (c.find? q).any (·.contains key) = true from hq)]
    by_cases hp : c.Gives p key
    · -- the key is left without the first file, and the second one did not have it
      have hq' : ¬ (c.without p).Gives q key := by rwa [Gives, find?_without_of_ne c p h]
      rw [if_pos (show (c.find? p).any (·.contains key) = true from hp), if_pos (.inl hp),
        latest?_without_of_not_gives _ hq']
    · rw [if_neg (show ¬ (c.find? p).any (·.contains key) = true from hp), if_neg (not_or.mpr ⟨hp, hq⟩)]

end Contributions

namespace Store

variable (s : Store) (locale : String)

/-- The dictionary behind a change. -/
theorem dictionary?_applyChange (p : Path) (new : Messages) :
    (s.applyChange locale p new).dictionary? locale
      = some ⟨locale, ((s.contributionsOf locale).change p new
          ((s.dictionary? locale).elim ∅ (·.messages))).2, s.version locale + 1⟩ := by
  rw [applyChange, dictionary?_publish, if_pos rfl]

/-- A change publishes once. -/
theorem version_applyChange (p : Path) (new : Messages) :
    (s.applyChange locale p new).version locale = s.version locale + 1 := by
  rw [version, dictionary?_applyChange, Option.elim_some]

/-- The dictionary behind two changes: its version, and what a key reads in it. -/
theorem dictionary?_applyChange_applyChange {p q : Path} (h : ¬ p.same q = true) (new new' : Messages) :
    ∃ dict, ((s.applyChange locale p new).applyChange locale q new').dictionary? locale = some dict ∧
      dict.locale = locale ∧ dict.version = s.version locale + 2 ∧
      ∀ key : String, dict.messages[key]? = new'[key]?.or (new[key]?.or
        ((s.contributionsOf locale).restOf p q ((s.dictionary? locale).elim ∅ (·.messages)) key)) := by
  refine ⟨_, dictionary?_applyChange _ _ _ _, rfl, ?_, fun key => ?_⟩
  · rw [version_applyChange]
  · dsimp only
    rw [dictionary?_applyChange, applyChange, contributionsOf_publish, if_pos rfl, Option.elim_some]
    exact Contributions.getElem?_change_change _ h new new' _ key

/-- **Changes of two files commute up to the keys that they share.** Behind
both changes there is a dictionary, of the same version in either order. A key
that not both files give now reads the same; one that both give reads what the
file that changed last gives. So the order makes no difference exactly if the
two agree on the keys that they share. -/
theorem changes_commute_iff_agree {p q : Path} (hdistinct : ¬ p.same q = true) (new new' : Messages) :
    ∃ pq qp, ((s.applyChange locale p new).applyChange locale q new').dictionary? locale = some pq ∧
      ((s.applyChange locale q new').applyChange locale p new).dictionary? locale = some qp ∧
      pq.version = s.version locale + 2 ∧ qp.version = s.version locale + 2 ∧
      (∀ key : String, ¬ (key ∈ new ∧ key ∈ new') → pq.messages[key]? = qp.messages[key]?) ∧
      (∀ key : String, key ∈ new → key ∈ new' →
        pq.messages[key]? = new'[key]? ∧ qp.messages[key]? = new[key]?) ∧
      ((pq.locale = qp.locale ∧ pq.messages.Equiv qp.messages) ↔
        ∀ key : String, key ∈ new → key ∈ new' → new[key]? = new'[key]?) := by
  obtain ⟨pq, hpq, hlocale, hversion, hreads⟩ :=
    s.dictionary?_applyChange_applyChange locale hdistinct new new'
  obtain ⟨qp, hqp, hlocale', hversion', hreads'⟩ :=
    s.dictionary?_applyChange_applyChange locale (p := q) (q := p) (by rwa [Path.same_comm]) new' new
  have hrest := fun key => (s.contributionsOf locale).restOf_comm hdistinct
    ((s.dictionary? locale).elim ∅ (·.messages)) key
  -- under a key that only one of the changes gives, both orders read the same
  have hapart : ∀ key : String, ¬ (key ∈ new ∧ key ∈ new') → pq.messages[key]? = qp.messages[key]? := by
    intro key hnot
    rw [hreads, hreads', hrest]
    rcases not_and_or.mp hnot with hno | hno
    · rw [Std.TreeMap.getElem?_eq_none hno, Option.none_or, Option.none_or]
    · rw [Std.TreeMap.getElem?_eq_none hno, Option.none_or, Option.none_or]
  -- under a key that both give, the later change is read, and that is a
  -- different one in the other order
  have hshared : ∀ key : String, key ∈ new → key ∈ new' →
      pq.messages[key]? = new'[key]? ∧ qp.messages[key]? = new[key]? := by
    intro key hnew hnew'
    rw [Std.TreeMap.mem_iff_isSome_getElem?] at hnew hnew'
    rw [hreads, hreads', Option.or_of_isSome hnew', Option.or_of_isSome hnew]
    exact ⟨rfl, rfl⟩
  refine ⟨pq, qp, hpq, hqp, hversion, hversion', hapart, hshared, ?_, ?_⟩
  -- dictionaries that read the same under a shared key show that the files
  -- agree on it, and conversely
  · rintro ⟨-, hequiv⟩ key hnew hnew'
    obtain ⟨hlast, hlast'⟩ := hshared key hnew hnew'
    rw [← hlast, ← hlast', hequiv.getElem?_eq]
  · intro hagree
    refine ⟨hlocale.trans hlocale'.symm, Std.TreeMap.Equiv.of_forall_constGet?_eq fun key => ?_⟩
    by_cases hboth : key ∈ new ∧ key ∈ new'
    · obtain ⟨hlast, hlast'⟩ := hshared key hboth.1 hboth.2
      rw [hlast, hlast', hagree key hboth.1 hboth.2]
    · exact hapart key hboth

/-- Two files that both gave a key before, and that both change it: the later
change wins in either order. -/
theorem changes_commute_iff_agree_of_shared :
    let a : Path := ⟨"a.json"⟩
    let b : Path := ⟨"./b.json"⟩
    let one : Messages := .ofList [("k", "1")]
    let two : Messages := .ofList [("k", "2")]
    let s := ((fresh "en").applyChange "en" a two).applyChange "en" b one
    ¬ a.same b = true ∧
      ∃ ab ba, ((s.applyChange "en" a one).applyChange "en" b two).dictionary? "en" = some ab ∧
        ((s.applyChange "en" b two).applyChange "en" a one).dictionary? "en" = some ba ∧
        ab.version = 4 ∧ ba.version = 4 ∧ ab.messages["k"]? = some "2" ∧ ba.messages["k"]? = some "1" ∧
        ¬ (ab.locale = ba.locale ∧ ab.messages.Equiv ba.messages) := by
  intro a b one two s
  have hdistinct : ¬ a.same b = true := by decide +kernel
  obtain ⟨ab, ba, hab, hba, hversion, hversion', -, hshared, hequal⟩ :=
    changes_commute_iff_agree s "en" hdistinct one two
  have hone : "k" ∈ one := by decide +kernel
  have htwo : "k" ∈ two := by decide +kernel
  obtain ⟨hlast, hlast'⟩ := hshared "k" hone htwo
  have hdiffer : one["k"]? ≠ two["k"]? := by decide +kernel
  have hcount : s.version "en" = 2 := by
    rw [version_applyChange, version_applyChange]
    rfl
  rw [hcount] at hversion hversion'
  exact ⟨hdistinct, ab, ba, hab, hba, hversion, hversion', hlast.trans (by decide +kernel),
    hlast'.trans (by decide +kernel), fun heq => hdiffer (hequal.mp heq "k" hone htwo)⟩

end Store

end LocaleKeys
