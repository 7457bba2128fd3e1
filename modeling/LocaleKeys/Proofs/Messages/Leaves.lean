/-
Leaves: what nested data says, and on which path.

A value is a leaf, or it has children, and each child has a name: an item its
number, and a member its own name. So a leaf stands at the end of a path of
names, and the leaves of a value are listed here with their paths, in the order
of the document (`leavesAt`). Flattening keeps the keys of these paths, and of
two leaves with one key the later (`flatten_leaves`).

If the names are plain, no two leaves share a key and nothing is lost. The
argument is about paths: two leaves below different children differ in the name
of the child, wherever else they go on (`nodup_paths`), and a path of plain
names can be read off its key (`keyOf_injective`). A use finds a leaf wherever
the path is cut into the prefix of a binding and the suffix at the use, because
composing the two gives the key that the way down composed name by name.
-/
import LocaleKeys.Analysis.Resolution
import LocaleKeys.Messages.Flatten
import LocaleKeys.Proofs.Dictionary.Merging
import LocaleKeys.Proofs.Json.Children
import LocaleKeys.Proofs.Messages.Keys

set_option autoImplicit false

namespace LocaleKeys

open LocaleKeys.Json

/-- A text and the names that lead to it. -/
structure Leaf where
  path : List String
  text : String
deriving Repr, DecidableEq, Inhabited

/-- The key of a leaf. -/
def Leaf.key (l : Leaf) : String := keyOf l.path

namespace Json.Value

/-! ## The leaves of a value

Flattening returns keys, and of a key it cannot be told any more where it comes
from. So the leaves are listed a second time, with the names that lead to them
kept apart. What is a leaf is the same: a value that is neither a list nor an
object, and a list of texts that has a key, since such a list is joined. `null`
has no text and no children, and is lost on either side. -/

/-- The text that a value under `key` is, if it is a leaf. A list of texts is
one where it has a key. -/
def text? (key : String) : Value → Option String
  | bool b => some (if b then "true" else "false")
  | number n => some n.render
  | string s => some s
  | array items =>
    if items ≠ [] ∧ (items.all (·.string?.isSome)) ∧ key ≠ "" then
      some (", ".intercalate (items.filterMap (·.string?)))
    else none
  | _ => none

/-- The leaves of a value at the end of `path`, in the order of the document. -/
def leavesAt (path : List String) (v : Value) : List Leaf :=
  match v.text? (keyOf path) with
  | some text => [⟨path, text⟩]
  | none => v.children.attach.flatMap fun child => child.1.2.leavesAt (path ++ [child.1.1])
termination_by sizeOf v
decreasing_by exact sizeOf_lt_of_mem_children child.2

/-- The leaves of a whole value. -/
def leaves (v : Value) : List Leaf := v.leavesAt []

/-- A value that is a leaf is its only one. -/
theorem leavesAt_of_text {path : List String} {v : Value} {text : String}
    (h : v.text? (keyOf path) = some text) : v.leavesAt path = [⟨path, text⟩] := by
  rw [leavesAt, h]

/-- The leaves of a value that is none itself are those of its children, one
after the other. -/
theorem leavesAt_of_no_text {path : List String} {v : Value} (h : v.text? (keyOf path) = none) :
    v.leavesAt path = v.children.flatMap fun child => child.2.leavesAt (path ++ [child.1]) := by
  rw [leavesAt, h]
  simp only [List.flatMap_subtype, List.unattach_attach]

/-! ## The paths of leaves

Paths are what makes leaves different. The induction is over the value with the
path to it: the leaves below one child differ by induction, and those below two
children because the paths have the names of the children in one place. Two
members of one object need different names for that, which reading sees to. -/

/-- Every leaf of a value stands below the path to the value. -/
theorem prefix_of_mem_leavesAt {path : List String} {v : Value} {l : Leaf}
    (h : l ∈ v.leavesAt path) : path <+: l.path := by
  induction path, v using leavesAt.induct with
  | case1 path v text htext =>
    rw [leavesAt_of_text htext] at h
    obtain rfl := List.mem_singleton.mp h
    exact List.prefix_rfl
  | case2 path v htext ih =>
    rw [leavesAt_of_no_text htext] at h
    obtain ⟨child, hchild, hl⟩ := List.mem_flatMap.mp h
    -- the path to a child goes on from the path to the value
    exact (List.prefix_append ..).trans (ih ⟨child, hchild⟩ hl)

/-- Only a value that is itself a leaf has a leaf to which no name leads. -/
theorem leaves_eq_of_path_eq_nil {v : Value} {l : Leaf} (hl : l ∈ v.leaves) (hpath : l.path = []) :
    v.leaves = [l] := by
  rw [leaves] at hl ⊢
  cases htext : v.text? (keyOf []) with
  | some text =>
    rw [leavesAt_of_text htext] at hl ⊢
    rw [List.mem_singleton.mp hl]
  | none =>
    rw [leavesAt_of_no_text htext] at hl
    obtain ⟨child, -, hl⟩ := List.mem_flatMap.mp hl
    have hname := prefix_of_mem_leavesAt hl
    rw [hpath, List.prefix_nil] at hname
    exact absurd hname (by simp)

/-- **One leaf at the end of a path.** Below different children, the paths
differ in the name of the child. -/
theorem nodup_paths {v : Value} (h : v.Distinct) (path : List String) :
    ((v.leavesAt path).map (·.path)).Nodup := by
  induction h generalizing path with
  | @intro v here _ ih =>
    cases htext : v.text? (keyOf path) with
    | some text =>
      rw [leavesAt_of_text htext]
      exact List.nodup_singleton _
    | none =>
      rw [leavesAt_of_no_text htext, List.map_flatMap, List.nodup_flatMap]
      -- no path is twice below one child, and none is below two of them
      refine ⟨fun child hchild => ih child hchild _, ?_⟩
      refine (List.pairwise_map.mp (nodup_children here)).imp ?_
      intro a b hab p ha hb
      obtain ⟨l, hl, rfl⟩ := List.mem_map.mp ha
      obtain ⟨l', hl', heq⟩ := List.mem_map.mp hb
      -- two fronts of one path that are equally long are the same
      obtain ⟨rest, hrest⟩ := prefix_of_mem_leavesAt hl
      obtain ⟨rest', hrest'⟩ := prefix_of_mem_leavesAt hl'
      rw [heq, ← hrest] at hrest'
      have hfront := (List.append_inj hrest' (by simp)).1
      exact hab (by simpa using hfront.symm)

/-- Every member in the value has a plain name. -/
def Plain (v : Value) : Prop := v.Every fun w => ∀ name ∈ w.names, PlainName name

/-- The numbers of items are plain names as well. -/
theorem plainName_of_mem_children {v : Value} (h : ∀ name ∈ v.names, PlainName name)
    {child : String × Value} (hchild : child ∈ v.children) : PlainName child.1 := by
  cases v with
  | array items =>
    obtain ⟨item, -, rfl⟩ := List.mem_map.mp hchild
    exact plainName_toString _
  | object members => exact h _ (List.mem_map_of_mem hchild)
  | _ => exact absurd hchild List.not_mem_nil

/-- The names on the way to a leaf are plain, if those in front of the value
are. -/
theorem plain_path {v : Value} (h : v.Plain) {path : List String}
    (hpath : ∀ name ∈ path, PlainName name) {l : Leaf} (hl : l ∈ v.leavesAt path) :
    ∀ name ∈ l.path, PlainName name := by
  induction h generalizing path with
  | @intro v here _ ih =>
    cases htext : v.text? (keyOf path) with
    | some text =>
      rw [leavesAt_of_text htext] at hl
      rwa [List.mem_singleton.mp hl]
    | none =>
      rw [leavesAt_of_no_text htext] at hl
      obtain ⟨child, hchild, hl⟩ := List.mem_flatMap.mp hl
      refine ih child hchild ?_ hl
      intro name hname
      rcases List.mem_append.mp hname with hname | hname
      · exact hpath name hname
      · rw [List.mem_singleton.mp hname]
        exact plainName_of_mem_children here hchild

/-- The names that lead to a leaf of a whole value are plain. -/
theorem plain_path_of_mem_leaves {v : Value} (h : v.Plain) {l : Leaf} (hl : l ∈ v.leaves) :
    ∀ name ∈ l.path, PlainName name :=
  plain_path h (by simp) hl

/-- **One leaf for a key.** Leaves differ in their paths, and with names that
are not empty and have no dots, paths that differ have different keys. -/
theorem nodup_keys {v : Value} (hdistinct : v.Distinct) (hplain : v.Plain) :
    (v.leaves.map (·.key)).Nodup := by
  have hpaths : (v.leaves.map (·.path)).Nodup := nodup_paths hdistinct []
  have hkeys : ((v.leaves.map (·.path)).map keyOf).Nodup := by
    -- the paths differ, and no two of them have one key
    refine hpaths.map_on ?_
    intro path hpath path' hpath' heq
    obtain ⟨l, hl, rfl⟩ := List.mem_map.mp hpath
    obtain ⟨l', hl', rfl⟩ := List.mem_map.mp hpath'
    exact keyOf_injective (plain_path_of_mem_leaves hplain hl)
      (plain_path_of_mem_leaves hplain hl') heq
  rwa [List.map_map] at hkeys

end Json.Value

/-! ## Flattening keeps the leaves

The program goes down with a key, and the leaves are listed going down with a
path. Both recursions are brought to one form first, in which a value is a leaf
or the concatenation of what its children give (`leavesUnder_of_text`,
`leavesUnder_of_no_text` beside `leavesAt_of_text`, `leavesAt_of_no_text`).
Then `leavesUnder_keyOf` is one induction: the key of a child is that of its
path.

The entries that come out are put into a map one after the other, so that of a
key the last one stays. -/

/-- The entry that flattening makes of a leaf, unless the key is empty. -/
def Leaf.entry (l : Leaf) : String × String := (l.key, l.text)

/-- The members of an object are gone into one after the other. -/
theorem leavesOfMembers_eq (key : String) (members : List (String × Value)) :
    leavesOfMembers key members
      = members.flatMap fun m => leavesUnder (composeKey key m.1) m.2 := by
  induction members with
  | nil => rw [leavesOfMembers]; rfl
  | cons m members ih => rw [leavesOfMembers, ih, List.flatMap_cons]

/-- So are the items of a list, and the number of an item is its name. -/
theorem leavesOfItems_eq (key : String) (n : Nat) (items : List Value) :
    leavesOfItems key n items
      = (items.zipIdx n).flatMap fun item => leavesUnder (composeKey key (toString item.2)) item.1 := by
  induction items generalizing n with
  | nil => rw [leavesOfItems]; rfl
  | cons v items ih => rw [leavesOfItems, ih, List.zipIdx_cons, List.flatMap_cons]

/-- What is a leaf is one entry, unless it has no key. -/
theorem leavesUnder_of_text {key text : String} {v : Value} (h : v.text? key = some text) :
    leavesUnder key v = leaf key text := by
  cases v with
  | array items =>
    rw [Value.text?] at h
    split at h
    · rename_i hlist
      obtain ⟨hne, htexts, hkey⟩ := hlist
      cases h
      simp [leavesUnder, leaf, hne, htexts, hkey]
    · exact absurd h (by simp)
  | _ => simp_all [Value.text?, leavesUnder]

/-- What is no leaf has the entries of its children. Lists are where the
program makes the most distinctions, as an empty one, one of texts, and any
other are three cases there. -/
theorem leavesUnder_of_no_text {key : String} {v : Value} (h : v.text? key = none) :
    leavesUnder key v
      = v.children.flatMap fun child => leavesUnder (composeKey key child.1) child.2 := by
  cases v with
  | array items =>
    rw [Value.children, List.flatMap_map, ← leavesOfItems_eq]
    rw [Value.text?] at h
    split at h
    · exact absurd h (by simp)
    · rename_i hlist
      rw [leavesUnder]
      -- a list that is no leaf is empty, or its items are gone through
      by_cases hne : items = []
      · subst hne
        rfl
      · have hnone : ¬ (items.all (·.string?.isSome) && !key.isEmpty) = true := by
          intro hboth
          obtain ⟨htexts, hkey⟩ := Bool.and_eq_true_iff.mp hboth
          exact hlist ⟨hne, htexts, by simpa using hkey⟩
        rw [if_neg (by simpa using hne), if_neg hnone]
  | object members => rw [leavesUnder, leavesOfMembers_eq]; rfl
  | _ => simp_all [Value.text?, leavesUnder, Value.children]

/-- **On the way down, keys are those of paths.** The program composes the key
as it goes down, and here it is made of the whole path at the end. -/
theorem leavesUnder_keyOf (path : List String) (v : Value) :
    leavesUnder (keyOf path) v
      = ((v.leavesAt path).filter (·.key ≠ "")).map (·.entry) := by
  induction path, v using Value.leavesAt.induct with
  | case1 path v text htext =>
    rw [leavesUnder_of_text htext, Value.leavesAt_of_text htext, leaf]
    by_cases hkey : keyOf path = "" <;> simp [Leaf.key, Leaf.entry, hkey]
  | case2 path v htext ih =>
    rw [leavesUnder_of_no_text htext, Value.leavesAt_of_no_text htext, List.filter_flatMap,
      List.map_flatMap]
    -- the two sides agree child by child
    refine List.flatMap_congr ?_
    intro child hchild
    rw [← keyOf_concat]
    exact ih ⟨child, hchild⟩

/-- Of the entries with a key, messages keep the last. -/
theorem Messages.getElem?_ofLeaves (entries : List (String × String)) (key : String) :
    (Messages.ofLeaves entries)[key]? = (entries.filter (·.1 = key)).getLast?.map (·.2) := by
  rw [ofLeaves, getElem?_foldl_insert, List.getLast?_filter, List.find?_eq_findSome?_guard,
    List.map_findSome?]
  simp only [Std.TreeMap.getElem?_emptyc, Option.or_none]
  congr 1
  funext e
  by_cases h : e.1 = key <;> simp [h, Option.guard]

/-- The messages of nested data, key by key. -/
theorem getElem?_flatten (v : Value) (key : String) :
    (flatten v)[key]? = if key = "" then none
      else (v.leaves.filter (·.key = key)).getLast?.map (·.text) := by
  have hentries : leavesUnder "" v = (v.leaves.filter (·.key ≠ "")).map (·.entry) :=
    leavesUnder_keyOf [] v
  rw [flatten, Messages.getElem?_ofLeaves, hentries, List.filter_map, List.filter_filter,
    List.getLast?_map, Option.map_map]
  by_cases hkey : key = ""
  · -- no leaf with the empty key makes an entry
    have hnone : v.leaves.filter (fun l => decide (l.entry.1 = key) && decide (l.key ≠ "")) = [] := by
      rw [List.filter_eq_nil_iff]
      intro l _ h
      simp [Leaf.entry, hkey] at h
    rw [if_pos hkey]
    simp only [Function.comp_def, hnone]
    rfl
  · -- for any other key, every leaf with it does
    have hsame : v.leaves.filter (fun l => decide (l.entry.1 = key) && decide (l.key ≠ ""))
        = v.leaves.filter (·.key = key) := by
      refine List.filter_congr ?_
      intro l _
      by_cases h : l.key = key <;> simp [Leaf.entry, h, hkey]
    rw [if_neg hkey]
    simp only [Function.comp_def, hsame]
    rfl

/-! ## Nothing is lost

For plain names the key condition turns "the last leaf with this key" into "the
leaf": no two leaves share a key. Then the messages are the leaves that have a
key, entry by entry (`toList_flatten_perm`), and what a use composes leads to
one of them (`resolve_flatten`). Leaves without a path are left out throughout.
There is at most one, and it is the whole value. -/

section Plain

variable {v : Value} (hdistinct : v.Distinct) (hplain : v.Plain)

include hdistinct hplain

/-- A leaf that a path leads to is found under its key. -/
theorem getElem?_flatten_of_mem {l : Leaf} (hl : l ∈ v.leaves) (hpath : l.path ≠ []) :
    (flatten v)[l.key]? = some l.text := by
  have hnames : ∀ name ∈ l.path, name ≠ "" := fun name hname =>
    (Value.plain_path_of_mem_leaves hplain hl name hname).1
  have hkey : l.key ≠ "" := fun h => hpath ((keyOf_eq_empty hnames).mp h)
  rw [getElem?_flatten, if_neg hkey]
  have hmem : l ∈ v.leaves.filter (·.key = l.key) := List.mem_filter.mpr ⟨hl, by simp⟩
  cases hlast : (v.leaves.filter (·.key = l.key)).getLast? with
  | none => exact absurd (List.getLast?_eq_none_iff.mp hlast) (List.ne_nil_of_mem hmem)
  | some last =>
    -- the last leaf with this key is the only one
    obtain ⟨hmem', heq⟩ := List.mem_filter.mp (List.mem_of_getLast? hlast)
    have hsame : last = l :=
      List.inj_on_of_nodup_map (Value.nodup_keys hdistinct hplain) hmem' hl (by simpa using heq)
    rw [hsame]
    rfl

/-- The entries of the messages are those of the leaves that a path leads to. -/
theorem mem_toList_flatten {entry : String × String} :
    entry ∈ (flatten v).toList ↔ ∃ l ∈ v.leaves, l.path ≠ [] ∧ l.entry = entry := by
  rw [Std.TreeMap.mem_toList_iff_getElem?_eq_some]
  constructor
  · intro h
    rw [getElem?_flatten] at h
    split at h
    · exact absurd h (by simp)
    · rename_i hkey
      obtain ⟨l, hlast, htext⟩ := Option.map_eq_some_iff.mp h
      obtain ⟨hl, heq⟩ := List.mem_filter.mp (List.mem_of_getLast? hlast)
      have heq : l.key = entry.1 := by simpa using heq
      -- a leaf without a path would have the empty key, under which there is
      -- no message
      refine ⟨l, hl, ?_, Prod.ext heq htext⟩
      intro hpath
      rw [← heq, Leaf.key, hpath] at hkey
      exact hkey rfl
  · rintro ⟨l, hl, hpath, rfl⟩
    exact getElem?_flatten_of_mem hdistinct hplain hl hpath

/-- **One entry for a leaf.** A value that is a leaf itself has no key and no
entry. -/
theorem toList_flatten_perm :
    (flatten v).toList.Perm ((v.leaves.filter (·.path ≠ [])).map (·.entry)) := by
  have hentries : (flatten v).toList.Nodup := by
    have hkeys : ((flatten v).toList.map (·.1)).Nodup := by
      rw [Std.TreeMap.map_fst_toList_eq_keys]
      exact Std.TreeMap.nodup_keys
    exact hkeys.of_map
  have hleaves : ((v.leaves.filter (·.path ≠ [])).map (·.entry)).Nodup := by
    have hkeys : ((v.leaves.filter (·.path ≠ [])).map (·.key)).Nodup :=
      (Value.nodup_keys hdistinct hplain).sublist (List.filter_sublist.map _)
    have hfirst : (((v.leaves.filter (·.path ≠ [])).map (·.entry)).map (·.1)).Nodup := by
      rwa [List.map_map]
    exact hfirst.of_map
  -- neither side has anything twice, so that it is enough that they have the
  -- same
  rw [List.perm_ext_iff_of_nodup hentries hleaves]
  intro entry
  rw [mem_toList_flatten hdistinct hplain]
  simp [List.mem_map, List.mem_filter, and_assoc]

/-- **A leaf is found from wherever its path is cut.** The front goes into the
prefix of a binding and the rest into a use, and composing puts the dot back
that stood between them. -/
theorem resolve_flatten {l : Leaf} (hl : l ∈ v.leaves) {front rest : List String}
    (hpath : l.path = front ++ rest) (hrest : rest ≠ []) {bindings : List Binding} {b : Binding}
    {use : KeyUse} (hbinding : bindings[use.binding]? = some b)
    (hunder : b.prefixKey = ".".intercalate front) (hsuffix : use.suffix = ".".intercalate rest) :
    (use.resolve bindings (flatten v)).text = some l.text := by
  have hnames : ∀ name ∈ l.path, name ≠ "" := fun name hname =>
    (Value.plain_path_of_mem_leaves hplain hl name hname).1
  have hfront : ∀ name ∈ front, name ≠ "" := fun name hname =>
    hnames name (hpath ▸ List.mem_append_left rest hname)
  have hkey : composeKey b.prefixKey use.suffix = l.key := by
    rw [hunder, hsuffix, composeKey_intercalate hrest hfront, Leaf.key,
      keyOf_eq_intercalate hnames, hpath]
  have hne : l.path ≠ [] := by simp [hpath, hrest]
  -- what the use asks for is the key of the leaf
  simp only [KeyUse.resolve, hbinding, Option.elim_some, hkey]
  exact getElem?_flatten_of_mem hdistinct hplain hl hne

end Plain

/-- **Every leaf can be reached, and nothing is lost.** The messages say of a
key what the last leaf with it says. If the names are plain, there is one leaf
for a key and one message for a leaf to which a name leads; without a name
there is only the leaf that a whole value may be, and that has no key. Wherever
the path to a leaf is cut in two, a use finds the leaf by its second part under
a binding with the first. That no object has two members of one name is so in
everything that is read (`distinct_read`). -/
theorem flatten_leaves (v : Value) :
    (∀ key text : String, (flatten v)[key]? = some text ↔
      key ≠ "" ∧ ∃ l, (v.leaves.filter (·.key = key)).getLast? = some l ∧ l.text = text) ∧
    (v.Distinct → v.Plain →
      (v.leaves.map (·.key)).Nodup ∧
      (flatten v).toList.Perm ((v.leaves.filter (·.path ≠ [])).map (·.entry)) ∧
      (∀ l ∈ v.leaves, l.path = [] → v.leaves = [l]) ∧
      ∀ l ∈ v.leaves, ∀ front rest : List String, l.path = front ++ rest → rest ≠ [] →
        ∀ (bindings : List Binding) (b : Binding) (use : KeyUse),
          bindings[use.binding]? = some b →
          b.prefixKey = ".".intercalate front →
          use.suffix = ".".intercalate rest →
          (use.resolve bindings (flatten v)).text = some l.text) := by
  refine ⟨?_, ?_⟩
  · intro key text
    rw [getElem?_flatten]
    by_cases hkey : key = ""
    · simp [hkey]
    · simp [hkey]
  · intro hdistinct hplain
    refine ⟨Value.nodup_keys hdistinct hplain, toList_flatten_perm hdistinct hplain,
      fun l hl hpath => Value.leaves_eq_of_path_eq_nil hl hpath, ?_⟩
    intro l hl front rest hpath hrest bindings b use hbinding hunder hsuffix
    exact resolve_flatten hdistinct hplain hl hpath hrest hbinding hunder hsuffix

/-- A text in an object in a list, under the prefix of the object. -/
theorem flatten_leaves_of_steps :
    ∃ v : Value, v.Distinct ∧ v.Plain ∧ ⟨["steps", "0", "name"], "One"⟩ ∈ v.leaves ∧
      ((KeyUse.mk "name" default default 0).resolve [⟨"steps.0", "t", default, 0, 0⟩]
        (flatten v)).text = some "One" := by
  let step : Value := .object [("name", .string "One")]
  let v : Value := .object [("steps", .array [step])]
  have hdistinct : v.Distinct :=
    .intro (by decide) <| List.forall_mem_singleton.mpr <|
      .intro (by decide) <| List.forall_mem_singleton.mpr <|
        .intro (by decide) <| List.forall_mem_singleton.mpr <|
          .intro (by decide) <| List.forall_mem_nil _
  have hplain : v.Plain :=
    .intro (by decide) <| List.forall_mem_singleton.mpr <|
      .intro (by decide) <| List.forall_mem_singleton.mpr <|
        .intro (by decide) <| List.forall_mem_singleton.mpr <|
          .intro (by decide) <| List.forall_mem_nil _
  have hleaf : ⟨["steps", "0", "name"], "One"⟩ ∈ v.leaves := by
    rw [Value.leaves, Value.leavesAt_of_no_text rfl]
    refine List.mem_flatMap.mpr ⟨("steps", .array [step]), List.mem_singleton_self _, ?_⟩
    rw [Value.leavesAt_of_no_text rfl]
    refine List.mem_flatMap.mpr ⟨(toString 0, step), List.mem_singleton_self _, ?_⟩
    rw [Value.leavesAt_of_no_text rfl]
    refine List.mem_flatMap.mpr ⟨("name", .string "One"), List.mem_singleton_self _, ?_⟩
    rw [Value.leavesAt_of_text rfl]
    exact List.mem_singleton.mpr (by decide)
  refine ⟨v, hdistinct, hplain, hleaf, ?_⟩
  exact ((flatten_leaves v).2 hdistinct hplain).2.2.2 _ hleaf ["steps", "0"] ["name"] rfl (by decide)
    _ _ _ rfl (by decide) (by decide)

end LocaleKeys
