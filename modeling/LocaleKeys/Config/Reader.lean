/-
Reading a configuration.

The three fields that say which files are sources are read where they stand.
All other members are put aside first and become the settings at the end, so
that a fault in one of them is reported at the end of the whole object.
-/
import LocaleKeys.Config.Basic
import LocaleKeys.Json.Reader

set_option autoImplicit false

namespace LocaleKeys

open LocaleKeys.Json

/-! ## Fields of settings

The names of fields are told apart from one another here, so that a field given
twice is noticed whichever of its names is used. -/

/-- A field of settings. -/
inductive SettingsField where
  | enabled
  | supportedLocales
  | hookNames
  | accessorKeys
  | localePaths
  | debounceMs
  | pollIntervalMs
deriving Repr, DecidableEq, Inhabited

namespace SettingsField

/-- The name of a field. -/
def name : SettingsField → String
  | enabled => "enabled"
  | supportedLocales => "supportedLocales"
  | hookNames => "hookMatchNames"
  | accessorKeys => "accessorKeyMatch"
  | localePaths => "localePaths"
  | debounceMs => "debounceMs"
  | pollIntervalMs => "pollIntervalMs"

/-- The field with this name. The paths have two more names. -/
def ofName? : String → Option SettingsField
  | "enabled" => some enabled
  | "supportedLocales" => some supportedLocales
  | "hookMatchNames" => some hookNames
  | "accessorKeyMatch" => some accessorKeys
  | "localePaths" | "localeFilePathTemplate" | "localePath" => some localePaths
  | "debounceMs" => some debounceMs
  | "pollIntervalMs" => some pollIntervalMs
  | _ => none

/-- All fields in their order. -/
def all : List SettingsField :=
  [enabled, supportedLocales, hookNames, accessorKeys, localePaths, debounceMs, pollIntervalMs]

end SettingsField

/-! ## Values of fields

Settings are read from values that have been read already. A value of another
type than wanted is a fault without a place. -/

/-- The truth value that a value is. -/
def boolOf : Value → Except Cause Bool
  | .bool b => .ok b
  | v => .error (.wrongType v.described "a boolean")

/-- The text that a value is. -/
def stringOf : Value → Except Cause String
  | .string s => .ok s
  | v => .error (.wrongType v.described "a string")

/-- The texts that a value lists. -/
def stringsOf : Value → Except Cause (List String)
  | .array items => items.mapM stringOf
  | v => .error (.wrongType v.described "a sequence")

/-- The texts that a value lists, or the one that it is (`one_or_many`). -/
def oneOrManyOf (v : Value) : Except Cause (List String) :=
  match v with
  | .string s => .ok [s]
  | _ =>
    match stringsOf v with
    | .ok ss => .ok ss
    | .error _ => .error (.noVariant "OneOrMany")

/-- The number of milliseconds that a value is. -/
def millisecondsOf (v : Value) : Except Cause UInt64 :=
  match v with
  | .number (.integer n) =>
    if 0 ≤ n then .ok n.toNat.toUInt64 else .error (.wrongValue v.described "u64")
  | _ => .error (.wrongType v.described "u64")

/-- The settings with a field set to a value. -/
def Settings.setField (s : Settings) (field : SettingsField) (v : Value) : Except Cause Settings :=
  match field with
  | .enabled => (boolOf v).map ({ s with enabled := · })
  | .supportedLocales => (stringsOf v).map ({ s with supportedLocales := · })
  | .hookNames => (stringsOf v).map ({ s with hookNames := · })
  | .accessorKeys => (stringsOf v).map ({ s with accessorKeys := · })
  | .localePaths => (oneOrManyOf v).map ({ s with localePaths := · })
  | .debounceMs => (millisecondsOf v).map ({ s with debounceMs := · })
  | .pollIntervalMs => (millisecondsOf v).map ({ s with pollIntervalMs := · })

/-- Sets the fields that the members name. The last argument has the fields
that are set already. -/
def Settings.setMembers : List (String × Value) → Settings → List SettingsField →
    Except Cause Settings
  | [], s, _ => .ok s
  | (name, v) :: ms, s, done =>
    match SettingsField.ofName? name with
    | none => setMembers ms s done
    | some field =>
      if done.contains field then .error (.duplicateField field.name)
      else
        match s.setField field v with
        | .ok s => setMembers ms s (field :: done)
        | .error cause => .error cause

/-- Sets fields to the values that are listed in the same order. -/
def Settings.setInOrder : List (SettingsField × Value) → Settings → Except Cause Settings
  | [], s => .ok s
  | (field, v) :: rest, s => do setInOrder rest (← s.setField field v)

/-- The settings that a value says: an object by the names of the fields, a
list by their order. What it does not say is as usual. -/
def Settings.ofValue : Value → Except Cause Settings
  | .object members => setMembers members {} []
  | .array items => do
    let s ← setInOrder (SettingsField.all.zip items) {}
    if items.length > SettingsField.all.length then
      throw (.wrongLength items.length "fewer elements in array")
    return s
  | v => .error (.wrongType v.described "struct EngineConfig")

/-! ## The text of a configuration

The object itself is read from the text, member by member, and a fault in it is
reported where it stands. -/

/-- The fault that a value of another type than wanted is. A list or an object
is not read first. -/
def wrongTypeAt {α : Type} (wanted : String) (s : Stand) : Except Fault α :=
  match s.rest with
  | '[' :: _ => s.faultHere (.wrongType "sequence" wanted)
  | '{' :: _ => s.faultHere (.wrongType "map" wanted)
  | _ => do
    let (v, s) ← valueFrom 1 s
    s.faultHere (.wrongType v.described wanted)

/-- Reads a text. -/
def stringAt (s : Stand) : Except Fault (String × Stand) :=
  let s := s.skipBlanks
  match s.rest with
  | '"' :: r => stringFrom 0 [] (s.index + 1) r
  | _ => wrongTypeAt "a string" s

/-- Reads a list of texts. -/
def stringsAt (s : Stand) : Except Fault (List String × Stand) :=
  let s := s.skipBlanks
  match s.rest with
  | '[' :: r => elementsFrom stringAt (r.length + 1) true [] (s.drop 1)
  | _ => wrongTypeAt "a sequence" s

/-- Reads a truth value. -/
def boolAt (s : Stand) : Except Fault (Bool × Stand) := do
  let s := s.skipBlanks
  match s.rest with
  | 't' :: _ | 'f' :: _ =>
    let (v, s) ← valueFrom 1 s
    return (v matches .bool true, s)
  | _ => wrongTypeAt "a boolean" s

/-- What has been read of a configuration. -/
structure ConfigDraft where
  includes : Option (List String) := none
  ignores : Option (List String) := none
  ignoreTestFiles : Option Bool := none
  /-- The members that may be settings, the last one first. -/
  others : List (String × Value) := []

/-- A field that was there before. Since the object is closed before that is
said, a brace that follows is passed over. -/
def duplicateAt {α : Type} (name : String) (s : Stand) : Except Fault α :=
  let s := s.skipBlanks
  let s := if s.rest.head? == some '}' then s.drop 1 else s
  s.faultHere (.duplicateField name)

/-- Reads a member from behind its name on. -/
def ConfigDraft.read (c : ConfigDraft) (name : String) (s : Stand) :
    Except Fault (ConfigDraft × Stand) := do
  match name with
  | "includes" =>
    if c.includes.isSome then duplicateAt name s
    let (ss, s) ← stringsAt (← colon s)
    return ({ c with includes := some ss }, s)
  | "ignores" =>
    if c.ignores.isSome then duplicateAt name s
    let (ss, s) ← stringsAt (← colon s)
    return ({ c with ignores := some ss }, s)
  | "ignoreTestFiles" =>
    if c.ignoreTestFiles.isSome then duplicateAt name s
    let (b, s) ← boolAt (← colon s)
    return ({ c with ignoreTestFiles := some b }, s)
  | _ =>
    let (v, s) ← valueFrom (greatestDepth - 1) (← colon s)
    return ({ c with others := (name, v) :: c.others }, s)

/-- The configuration that has been read, given its settings. -/
def ConfigDraft.config (c : ConfigDraft) (settings : Settings) : Config :=
  let usual : Config := {}
  ⟨settings, c.includes.getD usual.includes, c.ignores.getD usual.ignores,
    c.ignoreTestFiles.getD usual.ignoreTestFiles⟩

/-- The configuration that a text says. -/
def Config.read (text : List Char) : Except Fault Config := do
  let s := (Stand.start text).skipBlanks
  match s.rest with
  | [] => s.fault .valueEnds
  | '{' :: r =>
    let (draft, s) ← membersFrom ConfigDraft.read (r.length + 1) true {} (s.drop 1)
    match Settings.setMembers draft.others.reverse {} [] with
    | .error cause => s.faultHere cause
    | .ok settings =>
      atEnd s
      return draft.config settings
  | _ => wrongTypeAt "struct Config" s

end LocaleKeys
