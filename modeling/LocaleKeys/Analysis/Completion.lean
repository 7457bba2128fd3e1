/-
Completion: the keys that may be written in a file.

If a binding of the file has a prefix, the keys below the prefixes are offered,
each as it is written below its prefix. A label that fits below several
prefixes stands for the key of the binding that is declared first. If no
binding has a prefix, all keys are offered as they are.
-/
import LocaleKeys.Analysis.Binding
import LocaleKeys.Messages.Basic

set_option autoImplicit false

namespace LocaleKeys

/-- A key that may be written. -/
structure Completion where
  /-- What is written. -/
  label : String
  /-- The whole key. -/
  key : String
  /-- The text of the key. -/
  detail : String
deriving Repr, DecidableEq, Inhabited

namespace Completion

/-- The keys below a prefix that ends in a dot. -/
def below (dotted : String) (messages : Messages) : List Completion :=
  messages.toList.filterMap fun (key, text) =>
    if dotted.toList.isPrefixOf key.toList then
      some ⟨String.ofList (key.toList.drop dotted.length), key, text⟩
    else none

/-- Adds a completion unless its label is taken. -/
def add (offered : Std.TreeMap String Completion) (c : Completion) :
    Std.TreeMap String Completion :=
  if offered.contains c.label then offered else offered.insert c.label c

/-- The completions with different labels, of which the first counts, in the
order of the labels. -/
def distinct (candidates : List Completion) : List Completion :=
  (candidates.foldl add ∅).values

end Completion

/-- The keys that may be written in a file with these bindings (`complete`). -/
def complete (bindings : List Binding) (messages : Messages) : List Completion :=
  let prefixes := (bindings.map (·.prefixKey)).filter (!·.isEmpty)
  Completion.distinct <|
    if prefixes.isEmpty then messages.toList.map fun (key, text) => ⟨key, key, text⟩
    else prefixes.flatMap fun p => Completion.below (p ++ ".") messages

end LocaleKeys
