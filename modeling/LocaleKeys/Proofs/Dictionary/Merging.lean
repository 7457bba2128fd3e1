/-
Merging, seen from a single key.

Messages are merged whole, but what has to be known about a merge is always
what it says of one key. So every operation on messages gets a lemma about the
text of a key behind it, and two messages are compared key by key.

The last section is about the change of a single file. It does not merge anew:
it starts from the merged messages as they were, lets the keys that the file
gives up fall back, and lays the new messages on top. That this comes out as a
merge would, whichever keys the files share, rests on one fact: taking a file
away changes nothing for a key that the file does not have (`latest?_without`).
-/
import LocaleKeys.Dictionary.Contributions

set_option autoImplicit false

namespace LocaleKeys

namespace Messages

/-! ## Laying messages on top of each other

Messages are kept in a tree map, and merging inserts the entries of one map
into another. What a key reads behind a list of insertions is said with
`findSome?` over the reversed list, because that puts the last entry first.
Both insertions and layers come to the same form. -/

/-- **Inserting one after the other.** The last entry with the key decides, and
if there is none, the text stays what it was. The induction is on the entries
from the front, so that what is already inserted takes the place of `base`. -/
theorem getElem?_foldl_insert (entries : List (String × String)) (base : Messages) (key : String) :
    (entries.foldl (fun m e => m.insert e.1 e.2) base)[key]?
      = (entries.reverse.findSome? fun e => if e.1 = key then some e.2 else none).or base[key]? := by
  induction entries generalizing base with
  | nil => simp
  | cons e entries ih =>
    rw [List.foldl_cons, ih, List.reverse_cons, List.findSome?_append, Option.or_assoc,
      Std.TreeMap.getElem?_insert]
    congr 1
    by_cases h : e.1 = key
    · simp [h]
    · simp [h]

/-- The entries of messages have one text for a key, so that it does not matter
which of them with this key is looked at. -/
theorem findSome?_toList_reverse (m : Messages) (key : String) :
    (m.toList.reverse.findSome? fun e => if e.1 = key then some e.2 else none) = m[key]? := by
  cases h : m[key]? with
  | none =>
    rw [List.findSome?_eq_none_iff]
    intro e he
    -- an entry with the key would be a text of the key
    have hne : e.1 ≠ key := by
      intro heq
      have hmem : (e.1, e.2) ∈ m.toList := List.mem_reverse.mp he
      rw [Std.TreeMap.mem_toList_iff_getElem?_eq_some, heq, h] at hmem
      exact absurd hmem (by simp)
    rw [if_neg hne]
  | some text =>
    have hmem : (key, text) ∈ m.toList := Std.TreeMap.mem_toList_iff_getElem?_eq_some.mpr h
    have hsome : (m.toList.reverse.findSome?
        fun e => if e.1 = key then some e.2 else none).isSome := by
      rw [List.findSome?_isSome_iff]
      exact ⟨(key, text), List.mem_reverse.mpr hmem, by simp⟩
    -- so an entry is found, and whichever it is, its text is that of the key
    obtain ⟨found, hfound⟩ := Option.isSome_iff_exists.mp hsome
    obtain ⟨e, he, hif⟩ := List.exists_of_findSome?_eq_some hfound
    split at hif
    · rename_i heq
      have hmem' : (e.1, e.2) ∈ m.toList := List.mem_reverse.mp he
      rw [Std.TreeMap.mem_toList_iff_getElem?_eq_some, heq, h] at hmem'
      rw [hfound, ← hif, hmem']
    · exact absurd hif (by simp)

/-- Of two messages on top of each other, the upper one decides where it has
the key. -/
theorem getElem?_overlay (base top : Messages) (key : String) :
    (base.overlay top)[key]? = top[key]?.or base[key]? := by
  rw [overlay, Std.TreeMap.foldl_eq_foldl_toList, getElem?_foldl_insert, findSome?_toList_reverse]

/-- Of messages that are laid on top of others one by one, the last ones that
have the key decide.
-/
theorem getElem?_foldl_overlay (layers : List Messages) (base : Messages) (key : String) :
    (layers.foldl overlay base)[key]? = (layers.reverse.findSome? (·[key]?)).or base[key]? := by
  induction layers generalizing base with
  | nil => simp
  | cons top layers ih =>
    rw [List.foldl_cons, ih, getElem?_overlay, List.reverse_cons, List.findSome?_append,
      Option.or_assoc]
    congr 1
    simp

/-- Of all layers, the last one that has the key decides. -/
theorem getElem?_overlayAll (layers : List Messages) (key : String) :
    (overlayAll layers)[key]? = layers.reverse.findSome? (·[key]?) := by
  rw [overlayAll, getElem?_foldl_overlay]
  simp

end Messages

namespace Contributions

/-! ## What a merge says of a key

Merging starts with nothing and lays the files on top of each other in their
order. So for each key it says what the latest file says that has it
(`Contributions.latest?`), and every statement about merged messages is one
about this function. -/

/-- **A merge, key by key.** It has the text of the latest file that has the
key. The merge is a fold from the first file on, and each file writes over
those before it. -/
theorem getElem?_merged (c : Contributions) (key : String) : c.merged[key]? = c.latest? key := by
  rw [merged, Messages.getElem?_overlayAll, latest?, ← List.map_reverse, List.findSome?_map]
  rfl

theorem latest?_append (files : List (Path × Messages)) (p : Path) (m : Messages) (key : String) :
    (Contributions.mk (files ++ [(p, m)])).latest? key
      = m[key]?.or ((Contributions.mk files).latest? key) := by
  rw [latest?, latest?, List.reverse_append, List.findSome?_append]
  simp

/-! ## What is left without a file

The file that changes is taken away before it is put at the end. For a key that
it had not given this makes no difference: the file that decided is still
there, and none was put behind it. -/

/-- Without a file, the latest text of a key that the file does not have is the
same as before. The file is the first one with its path, here as in `find?`. -/
theorem latest?_without (c : Contributions) (p : Path) (key : String)
    (h : ∀ given, c.find? p = some given → given[key]? = none) :
    (c.without p).latest? key = c.latest? key := by
  obtain ⟨files⟩ := c
  simp only [find?, without, latest?] at h ⊢
  induction files with
  | nil => rfl
  | cons f files ih =>
    rw [List.eraseP_cons]
    cases hp : f.1.same p with
    | true =>
      -- this is the file that is taken away
      have hf : f.2[key]? = none := h f.2 (by rw [List.find?_cons, hp]; rfl)
      rw [cond_true, List.reverse_cons, List.findSome?_append]
      simp [hf]
    | false =>
      rw [cond_false, List.reverse_cons, List.reverse_cons, List.findSome?_append,
        List.findSome?_append, ih (by simpa [List.find?_cons, hp] using h)]

/-! ## Falling back

Keys that the old version of the file had are looked up once more in what is
left. They are exactly those for which taking the file away can make a
difference, so that nothing else has to be looked at. -/

/-- A key that falls back reads what is left for it, and no other key is
touched. -/
theorem getElem?_fallBack (c : Contributions) (m : Messages) (key key' : String) :
    (c.fallBack m key)[key']? = if key = key' then c.latest? key' else m[key']? := by
  rw [fallBack]
  by_cases hk : key = key'
  · subst hk
    cases h : c.latest? key <;> simp
  · cases h : c.latest? key <;>
      simp [Std.TreeMap.getElem?_insert, Std.TreeMap.getElem?_erase, hk]

/-- Keys that are given up have what is left for them, and the others what they
had. -/
theorem getElem?_foldl_fallBack (c : Contributions) (keys : List String) (m : Messages)
    (key : String) :
    (keys.foldl c.fallBack m)[key]? = if key ∈ keys then c.latest? key else m[key]? := by
  induction keys generalizing m with
  | nil => simp
  | cons k keys ih =>
    rw [List.foldl_cons, ih, getElem?_fallBack]
    by_cases hmem : key ∈ keys
    · simp [hmem]
    · by_cases hk : k = key
      · simp [hk]
      · have hk' : ¬ key = k := fun h => hk h.symm
        simp [hmem, hk, hk']

/-! ## The change of a file

Putting the steps together: keys that the file gave fall back, then the new
messages are laid on top. That comes out as merging all files anew would, and
it is what makes the incremental update of a dictionary correct. -/

/-- The files behind a change: those without the changed one, and behind them
the changed one. -/
theorem change_files (c : Contributions) (p : Path) (new m : Messages) :
    (c.change p new m).1 = ⟨(c.without p).files ++ [(p, new)]⟩ := rfl

/-- The text of a key behind a change of a file: the new one if the file has
one now, what is left for the key if the file gives it up, and else what it
was. -/
theorem getElem?_change (c : Contributions) (p : Path) (new m : Messages) (key : String) :
    (c.change p new m).2[key]?
      = new[key]?.or (if (c.find? p).any (·.contains key) then (c.without p).latest? key
          else m[key]?) := by
  simp only [change]
  rw [Messages.getElem?_overlay, getElem?_foldl_fallBack]
  cases hnew : new[key]? with
  | some text => simp
  | none =>
    -- the keys that are given up are the old ones without the new ones, and
    -- this is no new one
    have hkey : new.contains key = false := by
      rw [Std.TreeMap.contains_eq_isSome_getElem?, hnew]
      rfl
    cases hold : c.find? p with
    | none => simp
    | some given => simp [hkey, Std.TreeMap.mem_keys, Std.TreeMap.contains_iff_mem]

/-- **No drift.** If the messages are merged from the contributions, then so
they are when a file has changed, whatever keys its old and its new messages
share with each other and with those of other files. -/
theorem getElem?_change_eq_merged (c : Contributions) (p : Path) (new m : Messages)
    (h : ∀ key : String, m[key]? = c.merged[key]?) (key : String) :
    (c.change p new m).2[key]? = (c.change p new m).1.merged[key]? := by
  rw [getElem?_change, getElem?_merged, change_files, latest?_append]
  congr 1
  split
  · rfl
  · rename_i hgone
    -- the file did not have the key, so that its being away makes no
    -- difference
    rw [h, getElem?_merged]
    refine (latest?_without c p key ?_).symm
    intro given hgiven
    rw [hgiven] at hgone
    simpa [Std.TreeMap.contains_iff_mem] using hgone

end Contributions

end LocaleKeys
