/-
Resolution: what each key use of a file says in the active locale.

Every key use gets a result, in the order of the uses. A result that has a text
is resolved and one without is missing; that is not an error but what the
reader of the file is told.
-/
import LocaleKeys.Analysis.KeyUse
import LocaleKeys.Messages.Basic

set_option autoImplicit false

namespace LocaleKeys

/-- A key use and the text of its key (`ResolutionResult`). -/
structure Resolution where
  /-- The whole key. -/
  key : String
  /-- The place right behind the key in the source. -/
  position : Text.Position
  /-- The key in the source, with its quotes. -/
  span : Text.Span
  /-- The text of the key, or none if there is no such key. -/
  text : Option String
deriving Repr, DecidableEq, Inhabited

/-- What is said about a key that no message has (`missing_warning`). -/
def missingWarning (key : String) : String := "missing key: " ++ key

/-- The result for a key use. -/
def KeyUse.resolve (use : KeyUse) (bindings : List Binding) (messages : Messages) : Resolution :=
  let key := composeKey ((bindings[use.binding]?).elim "" (·.prefixKey)) use.suffix
  ⟨key, use.position, use.span, messages[key]?⟩

/-- The results for all key uses of a file (`resolve`). -/
def Outline.resolve (o : Outline) (settings : Settings) (bindings : List Binding)
    (messages : Messages) : List Resolution :=
  (o.keyUses settings bindings).map (·.resolve bindings messages)

/-! ## The report on a file

A list of results is split into what has a text and what has none, and both are
kept in the order of their places. -/

/-- A key and what is shown at its place: its text, or a warning. -/
structure Entry where
  key : String
  position : Text.Position
  text : String
deriving Repr, DecidableEq, Inhabited

/-- The results for one version of a file (`FileResolution`). -/
structure FileReport where
  uri : String
  version : Int
  locale : String
  resolved : List Entry
  missing : List Entry
deriving Repr, DecidableEq, Inhabited

/-- The entry of a result that has a text. -/
def Resolution.asResolved? (r : Resolution) : Option Entry :=
  r.text.map (⟨r.key, r.position, ·⟩)

/-- The entry of a result that has none. -/
def Resolution.asMissing? (r : Resolution) : Option Entry :=
  if r.text.isNone then some ⟨r.key, r.position, missingWarning r.key⟩ else none

namespace FileReport

/-- The report that says nothing. -/
def empty (uri : String) (version : Int) (locale : String) : FileReport :=
  ⟨uri, version, locale, [], []⟩

/-- The report on these results (`FileResolution::from_results`). -/
def ofResolutions (uri : String) (version : Int) (locale : String) (results : List Resolution) :
    FileReport :=
  ⟨uri, version, locale, results.filterMap (·.asResolved?), results.filterMap (·.asMissing?)⟩

/-- The report has no entry. -/
def isEmpty (r : FileReport) : Bool := r.resolved.isEmpty && r.missing.isEmpty

/-- Every key of the file in the order of their places. -/
def entries (r : FileReport) : List (String × Text.Position) :=
  ((r.resolved ++ r.missing).map fun e => (e.key, e.position)).mergeSort
    fun a b => a.2.upTo b.2

end FileReport

/-! ## Hovering

An editor asks with a place. The literal of a key is one span from quote to
quote, and the place right behind it belongs to it as well. -/

/-- What is shown for a key under the cursor. -/
structure HoverText where
  key : String
  text : String
deriving Repr, DecidableEq, Inhabited

/-- What is shown for a result. -/
def Resolution.hoverText (r : Resolution) (locale : String) : HoverText :=
  match r.text with
  | some text => ⟨r.key, "i18n " ++ locale ++ " -> " ++ text⟩
  | none => ⟨r.key, missingWarning r.key⟩

/-- What is shown at a place: it is about the first result whose key is there
(`hover`). -/
def hover (results : List Resolution) (locale : String) (p : Text.Position) : Option HoverText :=
  (results.find? (·.span.contains p)).map (·.hoverText locale)

end LocaleKeys
