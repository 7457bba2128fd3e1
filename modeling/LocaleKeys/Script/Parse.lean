/-
From a text to the tree of a module.

Here the circle of the grammar is closed. The rules ask for phrases by name,
and `readPhrase` answers with the rule of that name, whose own requests are
answered one level deeper. A request is only repeated behind at least one
character of the text or in a rule that stands higher in the grammar, so a
multiple of the length of the text is more than enough levels.
-/
import LocaleKeys.Script.Grammar.Module

set_option autoImplicit false

namespace LocaleKeys.Script

/-- The rule for a phrase. -/
def Phrase.rule : Phrase → Rule Tree
  | .assignment => Rule.assignmentRule
  | .unary => Rule.unaryRule
  | .leftSide => Rule.leftSide
  | .callee => Rule.calleeRule
  | .operators left least => Rule.operatorsRule left least
  | .binary => Rule.binaryRule
  | .assigned lo left => Rule.assignedRule lo left
  | .decorator => Rule.decorator
  | .parent => Rule.parentRule
  | .element => Rule.element
  | .object => Rule.objectLiteral
  | .type => Rule.typeRule
  | .unconditionalType => Rule.unconditionalType
  | .target => Rule.targetRule
  | .statement declarations => Rule.statementRule declarations
  | .moduleItem => Rule.moduleItem

/-- Reads a phrase, with requests nested at most `depth` deep. -/
def readPhrase (dialect : Dialect) (size : Nat) :
    (depth : Nat) → Phrase → Context → EStateM Failure Cursor Tree
  | 0, _, _ => fun c => .error ⟨.nestedTooDeeply, c.lo⟩ c
  | depth + 1, phrase, context =>
    phrase.rule ⟨dialect, size, context, fun p c => readPhrase dialect size depth p c⟩

/-- How deep requests may nest in a text of `size` bytes. -/
def depthFor (size : Nat) : Nat := 8 * size + 64

/-- The module that a text is: a compound of its items. It extends from its
first token, or from the line for the system, to its last token. -/
def parseModule (dialect : Dialect) (text : List Char) : Except Failure Tree :=
  let size := Text.byteCount text
  let start := Cursor.start text
  let env : Environment :=
    ⟨dialect, size, {}, fun p c => readPhrase dialect size (depthFor size) p c⟩
  match Rule.moduleItems env start with
  | .ok items c =>
    let lo := if start.previous == 0 then start.lo else 0
    .ok (.compound .statement ⟨min lo c.previous, max lo c.previous⟩ items)
  | .error failure _ => .error failure

end LocaleKeys.Script
