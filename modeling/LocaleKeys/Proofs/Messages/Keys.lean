/-
Keys, seen as paths of names.

Flattening composes a key name by name on the way down, while a file composes
it from two parts: the prefix of a binding and what is written at the use. Both
are the names of one path with dots in between, as long as no name on it is
empty (`keyOf_eq_intercalate`), and so it makes no difference where a path is
cut in two (`composeKey_intercalate`).

A key leads back to a single path if moreover no name has a dot in it
(`keyOf_injective`). An empty name is lost in front of a path, and a name with
a dot reads like two names.
-/
import LocaleKeys.Messages.Basic
import Mathlib.Data.List.Induction

set_option autoImplicit false

namespace LocaleKeys

/-- The key of a path: its names, of which each is composed with those in front
of it. -/
def keyOf (path : List String) : String := path.foldl composeKey ""

@[simp] theorem keyOf_nil : keyOf [] = "" := rfl

/-- The last name is the one composed last, so that a path is gone into from
its end. -/
theorem keyOf_concat (path : List String) (name : String) :
    keyOf (path ++ [name]) = composeKey (keyOf path) name := by
  rw [keyOf, List.foldl_append]
  rfl

/-! ## Composing

A name is put behind a key with a dot in between, and behind the empty key
without one. That case is where the two ways of composing could come apart:
once a key is empty although names stand behind it, the next name is composed
as if it were the first. All the lemmas here that ask for names that are not
empty ask it for that reason. -/

theorem composeKey_empty (suffix : String) : composeKey "" suffix = suffix := rfl

theorem composeKey_of_ne_empty {prefixKey : String} (h : prefixKey ≠ "") (suffix : String) :
    composeKey prefixKey suffix = prefixKey ++ "." ++ suffix := by
  have hne : ¬ prefixKey.isEmpty = true := by rwa [String.isEmpty_iff]
  rw [composeKey, if_neg hne]

/-- Names in front of an empty name are not lost, since a dot follows them. -/
theorem composeKey_ne_empty {prefixKey : String} (h : prefixKey ≠ "") (suffix : String) :
    composeKey prefixKey suffix ≠ "" := by
  rw [composeKey_of_ne_empty h]
  intro heq
  have hchars := congrArg String.toList heq
  simp at hchars

/-- Names with dots in between are empty only if there are no names. -/
theorem intercalate_ne_empty {path : List String} (hne : path ≠ [])
    (h : ∀ name ∈ path, name ≠ "") : ".".intercalate path ≠ "" := by
  cases path with
  | nil => exact absurd rfl hne
  | cons name path =>
    have hname : name ≠ "" := h name List.mem_cons_self
    -- a single name is the key itself, and any further one puts a dot behind
    -- the first
    cases path with
    | nil => rwa [String.intercalate_singleton]
    | cons next path =>
      rw [String.intercalate_cons_cons, ← composeKey_of_ne_empty hname]
      exact composeKey_ne_empty hname _

/-- **Wherever a path is cut.** The key of a whole path is composed of its
front and its rest. -/
theorem composeKey_intercalate {front rest : List String} (hrest : rest ≠ [])
    (h : ∀ name ∈ front, name ≠ "") :
    composeKey (".".intercalate front) (".".intercalate rest)
      = ".".intercalate (front ++ rest) := by
  by_cases hfront : front = []
  · -- below the empty prefix, a suffix is the whole key
    subst hfront
    rfl
  · rw [composeKey_of_ne_empty (intercalate_ne_empty hfront h),
      String.intercalate_append_of_ne_nil hfront hrest]

/-- Without empty names, a key is the names of its path with dots in between.
The induction is on the path from its end, where the next name is composed. -/
theorem keyOf_eq_intercalate {path : List String} (h : ∀ name ∈ path, name ≠ "") :
    keyOf path = ".".intercalate path := by
  induction path using List.reverseRecOn with
  | nil => rfl
  | append_singleton path name ih =>
    have hpath : ∀ n ∈ path, n ≠ "" := fun n hn => h n (List.mem_append_left _ hn)
    rw [keyOf_concat, ih hpath, ← composeKey_intercalate (by simp) hpath,
      String.intercalate_singleton]

/-- Without empty names, only the empty path has the empty key. -/
theorem keyOf_eq_empty {path : List String} (h : ∀ name ∈ path, name ≠ "") :
    keyOf path = "" ↔ path = [] := by
  rw [keyOf_eq_intercalate h]
  constructor
  · intro hkey
    cases path with
    | nil => rfl
    | cons name path => exact absurd hkey (intercalate_ne_empty (List.cons_ne_nil _ _) h)
  · rintro rfl
    rfl

/-! ## Back to the path

To tell two leaves apart by their keys, a key has to say which path it is the
key of. It is cut at its dots, and the pieces are the names if no name has a
dot itself; that is where `List.splitOn` comes in, since cutting is the inverse
of putting dots in between for texts without one. Keys of items are no trouble,
because a number is spelled with digits only. -/

/-- A name that is still seen in a key: it is not empty, and it has no dot. -/
def PlainName (name : String) : Prop := name ≠ "" ∧ '.' ∉ name.toList

instance (name : String) : Decidable (PlainName name) :=
  inferInstanceAs (Decidable (_ ∧ _))

/-- The number of an item is a plain name. -/
theorem plainName_toString (n : Nat) : PlainName (toString n) := by
  rw [Nat.toString_eq_repr]
  refine ⟨Nat.repr_ne_empty, ?_⟩
  rw [Nat.toList_repr]
  intro hdot
  have hdigit : '.'.isDigit = true :=
    Nat.isDigit_of_mem_toDigits (by omega) (by omega) hdot
  exact absurd hdigit (by decide)

/-- Cutting a key at its dots gives its path back. -/
theorem splitOn_intercalate {path : List String} (hne : path ≠ [])
    (h : ∀ name ∈ path, PlainName name) :
    (".".intercalate path).toList.splitOn '.' = path.map String.toList := by
  rw [String.toList_intercalate]
  refine List.splitOn_intercalate '.' ?_ (by simpa using hne)
  intro chars hchars
  obtain ⟨name, hname, rfl⟩ := List.mem_map.mp hchars
  exact (h name hname).2

/-- **One path for a key.** Paths of plain names with the same key are the
same. -/
theorem keyOf_injective {path path' : List String} (h : ∀ name ∈ path, PlainName name)
    (h' : ∀ name ∈ path', PlainName name) (heq : keyOf path = keyOf path') : path = path' := by
  have hnames : ∀ name ∈ path, name ≠ "" := fun name hname => (h name hname).1
  have hnames' : ∀ name ∈ path', name ≠ "" := fun name hname => (h' name hname).1
  by_cases hnil : path = []
  · -- the key is empty, and so the other path has no names either
    rw [hnil, keyOf_nil] at heq
    rw [hnil, (keyOf_eq_empty hnames').mp heq.symm]
  · have hnil' : path' ≠ [] := by
      rwa [Ne, ← keyOf_eq_empty hnames', ← heq, keyOf_eq_empty hnames]
    rw [keyOf_eq_intercalate hnames, keyOf_eq_intercalate hnames'] at heq
    -- both keys are cut at their dots, and the pieces are the names on either
    -- side
    have hcut := congrArg (fun key => key.toList.splitOn '.') heq
    simp only [splitOn_intercalate hnil h, splitOn_intercalate hnil' h'] at hcut
    exact (List.map_inj_right fun _ _ hchars => String.toList_inj.mp hchars).mp hcut

end LocaleKeys
