/-
The store: a dictionary for each locale that was loaded.

A dictionary is published whole and never changed; a newer version takes its
place. With each go the contributions it was merged from, which a later change
of a single file starts from. Loading has two parts, since time passes between
them: evaluating the files, and committing what came out.
-/
import LocaleKeys.Dictionary.Contributions
import LocaleKeys.Dictionary.Loading

set_option autoImplicit false

namespace LocaleKeys

/-- The messages of a locale as they are published (`LocaleDictionary`). -/
structure Dictionary where
  locale : String
  messages : Messages
  /-- How often the dictionary of the locale was published, with this one. -/
  version : Nat
deriving Inhabited

/-- How loading went. -/
structure LoadReport where
  locale : String := ""
  /-- How many files were loaded. -/
  loaded : Nat := 0
  faults : List LoadFault := []
deriving Repr, DecidableEq, Inhabited

/-- Every file was loaded. -/
def LoadReport.isFine (r : LoadReport) : Bool := r.faults.isEmpty

/-- The dictionaries, what they were merged from, and the locale that is looked
at (`KeyDictionaryStore`). -/
structure Store where
  current : String
  published : Std.TreeMap String Dictionary := ∅
  contributions : Std.TreeMap String Contributions := ∅
deriving Inhabited

/-- What came out for a file. -/
abbrev Evaluated := Path × Except LoadFault Messages

namespace Store

/-- The dictionary of a locale (`KeyDictionaryStore::snapshot`). -/
def dictionary? (s : Store) (locale : String) : Option Dictionary := s.published[locale]?

/-- The dictionary of the current locale. -/
def currentDictionary? (s : Store) : Option Dictionary := s.dictionary? s.current

/-- The version of the dictionary of a locale. A locale that was never loaded
has version zero. -/
def version (s : Store) (locale : String) : Nat := (s.dictionary? locale).elim 0 (·.version)

/-- The contributions to a locale. -/
def contributionsOf (s : Store) (locale : String) : Contributions :=
  (s.contributions[locale]?).getD {}

/-- The files of a locale in the order of merging. -/
def files (s : Store) (locale : String) : List Path := (s.contributionsOf locale).paths

/-! ## The current locale

The locale that is looked at is a name, and whether it was loaded is another
question. -/

/-- Another locale is current. -/
def setLocale (s : Store) (locale : String) : Store := { s with current := locale }

/-- The locale behind `current`, where the first follows the last. Behind a
locale that is not supported comes the first. -/
def nextLocale? (supported : List String) (current : String) : Option String :=
  match supported.findIdx? (· == current) with
  | some i => supported[(i + 1) % supported.length]?
  | none => supported.head?

/-- Moves on to the next locale (`KeyDictionaryStore::cycle_locale`). -/
def cycle (s : Store) (supported : List String) : Option (Store × String) :=
  (nextLocale? supported s.current).map fun next => (s.setLocale next, next)

/-! ## Publishing

What is published and what it was merged from are set in one go. The store is
the only one that publishes, and every publishing counts as a new version of
its locale. -/

/-- Publishes messages with the contributions they were merged from
(`KeyDictionaryStore::publish`). -/
def publish (s : Store) (locale : String) (c : Contributions) (m : Messages) : Store :=
  { s with
    published := s.published.insert locale ⟨locale, m, s.version locale + 1⟩
    contributions := s.contributions.insert locale c }

/-! ## Loading

Files are evaluated first, and what came out is committed afterwards. Between
the two the store may have been changed by others, which is why they are two
functions and not one. A file that could not be loaded is left out of a load;
in a reload of a single file it leaves everything as it was. -/

/-- What comes out for each of the files. -/
def evaluate (loader : Loader) (d : Disk) (paths : List Path) : List Evaluated :=
  paths.map fun p => (p, loader.messages d p)

/-- What a file contributes: its messages, or what it gave before if it cannot
be loaded. -/
def contributed (previous : Contributions) : Evaluated → Option (Path × Messages)
  | (p, .ok m) => some (p, m)
  | (p, .error _) => (previous.find? p).map (p, ·)

/-- The fault of a file. -/
def faultOf? : Evaluated → Option LoadFault
  | (_, .ok _) => none
  | (_, .error fault) => some fault

/-- Publishes what came out for all files of a locale. -/
def commit (s : Store) (locale : String) (evaluated : List Evaluated) : Store × LoadReport :=
  let c : Contributions := ⟨evaluated.filterMap (contributed (s.contributionsOf locale))⟩
  let faults := evaluated.filterMap faultOf?
  (s.publish locale c c.merged, ⟨locale, evaluated.length - faults.length, faults⟩)

/-- Loads all files of a locale (`KeyDictionaryStore::load_all`). -/
def loadAll (s : Store) (loader : Loader) (d : Disk) (locale : String) (paths : List Path) :
    Store × LoadReport :=
  s.commit locale (evaluate loader d paths)

/-- Publishes what a single file gives from now on
(`KeyDictionaryStore::apply_file_change`). -/
def applyChange (s : Store) (locale : String) (p : Path) (new : Messages) : Store :=
  let m := (s.dictionary? locale).elim ∅ (·.messages)
  let (c, m) := (s.contributionsOf locale).change p new m
  s.publish locale c m

/-- Publishes what came out for a single file, unless it has a fault. -/
def commitReload (s : Store) (locale : String) : Evaluated → Store × Option LoadFault
  | (p, .ok m) => (s.applyChange locale p m, none)
  | (_, .error fault) => (s, some fault)

/-- Loads a single file again (`KeyDictionaryStore::reload_file`). -/
def reload (s : Store) (loader : Loader) (d : Disk) (locale : String) (p : Path) :
    Store × Option LoadFault :=
  s.commitReload locale (p, loader.messages d p)

end Store

end LocaleKeys
