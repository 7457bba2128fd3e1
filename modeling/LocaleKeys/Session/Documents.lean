/-
Documents: what a session says about the sources that are worked on.

A document is looked at in the dictionary of the current locale, or as if there
were no messages before it is loaded. Nothing is said about documents that are
not sources, nor if the session is not enabled.
-/
import LocaleKeys.Analysis.Completion
import LocaleKeys.Analysis.Resolution
import LocaleKeys.Session.Basic

set_option autoImplicit false

namespace LocaleKeys

/-- A version of a source that is worked on (`DocumentChange`). -/
structure Document where
  uri : String
  /-- What the editor calls the language. If that says nothing the name of the
  file decides. -/
  languageId : String := ""
  version : Int := 0
  text : String
deriving Repr, DecidableEq, Inhabited

namespace Document

/-- The document that a file holds. -/
def ofFile (p : Path) (text : String) : Document := { uri := p.text, text }

/-- The dialect that a document is written in. -/
def dialect? (doc : Document) : Option Script.Dialect :=
  (Script.Dialect.ofLanguage? doc.languageId).or
    ((Path.mk doc.uri).extension?.bind Script.Dialect.ofExtension?)

end Document

/-- What was found in a document, and in which locale. -/
structure Analysis where
  bindings : List Binding
  results : List Resolution
  locale : String
deriving Repr, DecidableEq, Inhabited

namespace Session

/-- The messages of the current locale. -/
def messages (s : Session) : Messages := s.store.currentDictionary?.elim ∅ (·.messages)

/-- What is found in a document (`I18nEngine::run`). -/
def analysis? (s : Session) (doc : Document) : Option (Except Outline.Unreadable Analysis) :=
  if !s.settings.enabled then none
  else doc.dialect?.map fun dialect => do
    let o ← Outline.ofSource dialect doc.text
    let bindings := o.bindings s.settings
    return ⟨bindings, o.resolve s.settings bindings s.messages, s.locale⟩

/-- The report on a document (`I18nEngine::try_analyze`). -/
def report (s : Session) (doc : Document) : Except Outline.Unreadable FileReport :=
  match s.analysis? doc with
  | none => .ok (.empty doc.uri doc.version s.locale)
  | some (.error u) => .error u
  | some (.ok a) => .ok (.ofResolutions doc.uri doc.version a.locale a.results)

/-- The report on a document, which says nothing if the document cannot be read
(`I18nEngine::analyze`). -/
def reportOrEmpty (s : Session) (doc : Document) : FileReport :=
  match s.report doc with
  | .ok r => r
  | .error _ => .empty doc.uri doc.version s.locale

/-- The bindings of a document. -/
def bindings (s : Session) (doc : Document) : List Binding :=
  match s.analysis? doc with
  | some (.ok a) => a.bindings
  | _ => []

/-- The keys that may be written in a document (`I18nEngine::complete`). -/
def complete (s : Session) (doc : Document) : List Completion :=
  let bindings := s.bindings doc
  if bindings.isEmpty then []
  else s.store.currentDictionary?.elim [] fun dict => LocaleKeys.complete bindings dict.messages

/-- What is shown at a place of a document (`I18nEngine::hover`). -/
def hover (s : Session) (doc : Document) (p : Text.Position) : Option HoverText :=
  match s.analysis? doc with
  | some (.ok a) => LocaleKeys.hover a.results a.locale p
  | _ => none

end Session

end LocaleKeys
