/-
Taking a text apart where a character stands, and putting it together again.
-/

set_option autoImplicit false

namespace LocaleKeys.Text

/-- The pieces between the occurrences of a character. There is one piece more
than there are occurrences. -/
def pieces (separator : Char) : List Char → List (List Char)
  | [] => [[]]
  | c :: r =>
    if c == separator then [] :: pieces separator r
    else match pieces separator r with
      | p :: ps => (c :: p) :: ps
      | [] => [[c]]

/-- The pieces of a string. -/
def piecesOf (separator : Char) (text : String) : List String :=
  (pieces separator text.toList).map String.ofList

/-- `what` with every occurrence replaced, from the left. The first argument
counts characters of an occurrence that is being passed over. -/
def replacedFrom (what instead : List Char) : (skip : Nat) → List Char → List Char
  | _, [] => []
  | k + 1, _ :: r => replacedFrom what instead k r
  | 0, c :: r =>
    if what.isPrefixOf (c :: r) then instead ++ replacedFrom what instead (what.length - 1) r
    else c :: replacedFrom what instead 0 r

/-- The text with every occurrence of `what` replaced. -/
def replaced (text what instead : String) : String :=
  String.ofList (replacedFrom what.toList instead.toList 0 text.toList)

/-- `what` occurs in the text. -/
def occurs (what : List Char) : List Char → Bool
  | [] => what.isEmpty
  | c :: r => what.isPrefixOf (c :: r) || occurs what r

end LocaleKeys.Text
