/-
What a source says about its calls and its names, read off the syntax tree.

An outline is made to be asked, and it keeps only what the questions need. To
say what it keeps and what it loses, the syntax tree is surveyed here without
it: every call is listed with the *regions* around it, which are the stretches
of text in which names are declared, and every region with its parameters and
its declarations. Nothing is left out of a survey (`map_call_survey`). What the
outline has no node for is marked as not reached instead, and there are four
kinds of such places:

* what is inside a declared target that is a name or an object, with or without
  a type behind it;
* what is put around the call that an initial value evaluates;
* the types that a call is given;
* the types of a function's own parameters and of its result.

A region that the outline opens no scope for is that of a getter or setter of
an object: its parameter is declared for the body alone, but only the body is a
scope there.

What two trees say together is what the one says and then what the other says.
So a survey is put together from the surveys of the parts, and what is around
the parts is told to them from outside.
-/
import LocaleKeys.Outline.Shape
import Mathlib.Data.List.Basic

set_option autoImplicit false

namespace LocaleKeys.Outline

open LocaleKeys.Script

/-! ## Calls, declarations and regions

These are not nodes. A call has its callee and its arguments as syntax trees,
so that a statement about calls can be read against the source, and the outline
is not asked what it has made of them. -/

/-- A call as it is written. -/
structure Call where
  extent : Extent
  callee : Tree
  arguments : List Tree

/-- A declaration as it is written. -/
structure Declarator where
  extent : Extent
  target : Tree
  value : List Tree
  /-- The outline has a node for it. -/
  reached : Bool

/-- A stretch of text in which names are declared. -/
structure Region where
  parameters : List String
  /-- The declarations that stand in it, but in no region further in. -/
  declarators : List Declarator
  /-- The outline has a scope for it. -/
  opened : Bool

/-- A call in its place. -/
structure Site where
  call : Call
  /-- The outline has a node for it. -/
  reached : Bool
  /-- The regions around the call, from the inside out. -/
  regions : List Region

mutual

/-- The calls in a tree, in the order in which the tree is listed. -/
def calls : Tree → List Call
  | .name _ _ => []
  | .text _ _ => []
  | .template _ _ substitutions => callsOfAll substitutions
  | .call e callee arguments types =>
    ⟨e, callee, arguments⟩ :: calls callee ++ callsOfAll arguments ++ callsOfAll types
  | .callKeyword _ => []
  | .spread _ inner => calls inner
  | .wrapped _ _ before inner after => callsOfAll before ++ calls inner ++ callsOfAll after
  | .function _ _ decorators parameters types body =>
    callsOfAll decorators ++ callsOfAll parameters ++ callsOfAll types ++ callsOfAll body
  | .scope _ parts => callsOfAll parts
  | .handler _ parameter body => callsOfAll parameter ++ callsOfAll body
  | .declarator _ target value => calls target ++ callsOfAll value
  | .object _ members => callsOfAll members
  | .property _ key value => calls key ++ calls value
  | .shorthand _ _ fallback => callsOfAll fallback
  | .array _ elements => callsOfAll elements
  | .assignment _ _ target value => calls target ++ calls value
  | .compound _ _ parts => callsOfAll parts

/-- The calls in several trees, one after the other. -/
def callsOfAll : List Tree → List Call
  | [] => []
  | t :: ts => calls t ++ callsOfAll ts

end

/-! ## Places that are not reached

Which places these are is stated here once, and not taken from the walk that
makes the outline. That the two agree is what has to be proved
(`reads_shapes`). -/

/-- The wrapper is looked through when an initial value is asked which call it
evaluates. -/
def isTransparent : Wrapper → Bool
  | .parentheses | .awaiting | .typeAssertion | .nonNull => true
  | _ => false

/-- The call that an initial value evaluates. -/
def evaluatedCall? : Tree → Option Call
  | .call e callee arguments _ => some ⟨e, callee, arguments⟩
  | .wrapped wrapper _ _ inner _ => if isTransparent wrapper then evaluatedCall? inner else none
  | _ => none

/-- The declared target is a name or an object, with or without a type behind
it. -/
def isNameOrObject : Tree → Bool
  | .name _ _ | .object _ _ => true
  | .wrapped .annotated _ _ inner _ => isNameOrObject inner
  | _ => false

/-! ## Surveys

Whether a place is reached depends on what is around it, and so do the regions
of a call. The first is a parameter of the recursion, which is turned off and
never on again. The second cannot be one: a region holds its declarations, and
these are known only when the tree inside of it has been surveyed. So a survey
is a function of the regions around. -/

/-- What a tree says: the declarations that it adds to the region that it
stands in, and its calls, once the regions around the tree are known. -/
structure Survey where
  declarators : List Declarator
  sites : List Region → List Site

namespace Survey

/-- Nothing is said. -/
def nothing : Survey := ⟨[], fun _ => []⟩

/-- What two trees say together. -/
def and (x y : Survey) : Survey :=
  ⟨x.declarators ++ y.declarators, fun regions => x.sites regions ++ y.sites regions⟩

/-- A call is made here. -/
def ofCall (call : Call) (reached : Bool) : Survey := ⟨[], fun regions => [⟨call, reached, regions⟩]⟩

/-- Names are declared here. -/
def ofDeclarator (declarator : Declarator) : Survey := ⟨[declarator], fun _ => []⟩

/-- The tree is a region of its own. -/
def enclosed (parameters : List String) (opened : Bool) (x : Survey) : Survey :=
  ⟨[], fun regions => x.sites (⟨parameters, x.declarators, opened⟩ :: regions)⟩

/-- The tree is a region of its own for its parameters, but the outline opens
no scope for it, and what else it declares is declared outside. -/
def unopened (parameters : List String) (x : Survey) : Survey :=
  ⟨x.declarators, fun regions => x.sites (⟨parameters, [], false⟩ :: regions)⟩

theorem and_assoc (x y z : Survey) : (x.and y).and z = x.and (y.and z) := by
  simp only [and, List.append_assoc]

end Survey

mutual

/-- What a tree says, if it is reached or not. `asValue` says that it is, or is
put around, the call that an initial value evaluates. -/
def survey (reached asValue : Bool) : Tree → Survey
  | .name _ _ => .nothing
  | .text _ _ => .nothing
  | .template _ _ substitutions => surveyOfAll reached substitutions
  | .call e callee arguments types =>
    (((Survey.ofCall ⟨e, callee, arguments⟩ reached).and (survey reached false callee)).and
      (surveyOfAll reached arguments)).and (surveyOfAll false types)
  | .callKeyword _ => .nothing
  | .spread _ inner => survey reached false inner
  | .wrapped wrapper _ before inner after =>
    let through := asValue && isTransparent wrapper
    ((surveyOfAll (reached && !through) before).and (survey reached through inner)).and
      (surveyOfAll (reached && !through) after)
  | .function _ _ decorators parameters types body =>
    Survey.enclosed (Tree.boundNamesAll parameters) reached
      ((((surveyOfAll reached decorators).and (surveyOfAll reached parameters)).and
        (surveyOfAll false types)).and (surveyOfAll reached body))
  | .scope _ parts => Survey.enclosed [] reached (surveyOfAll reached parts)
  | .handler _ parameter body =>
    Survey.enclosed (Tree.boundNamesAll parameter) reached
      ((surveyOfAll reached parameter).and (surveyOfAll reached body))
  | .declarator e target value =>
    ((Survey.ofDeclarator ⟨e, target, value, reached⟩).and
      (survey (reached && !isNameOrObject target) false target)).and (surveyOfValue reached value)
  | .object _ members => surveyOfAll reached members
  | .property _ key value => (survey reached false key).and (survey reached false value)
  | .shorthand _ _ fallback => surveyOfAll reached fallback
  | .array _ elements => surveyOfAll reached elements
  | .assignment _ _ target value => (survey reached false target).and (survey reached false value)
  | .compound form _ parts =>
    if form = .accessor then surveyOfAccessor reached parts else surveyOfAll reached parts

/-- What several trees say, one after the other. -/
def surveyOfAll (reached : Bool) : List Tree → Survey
  | [] => .nothing
  | t :: ts => (survey reached false t).and (surveyOfAll reached ts)

/-- What the value of a declaration says, if there is a value. -/
def surveyOfValue (reached : Bool) : List Tree → Survey
  | [] => .nothing
  | v :: rest =>
    (survey reached (evaluatedCall? v).isSome v).and
      (surveyOfAll (reached && !(evaluatedCall? v).isSome) rest)

/-- What a getter or setter of an object says. Its key stands outside of its
region. -/
def surveyOfAccessor (reached : Bool) : List Tree → Survey
  | [] => .nothing
  | key :: rest =>
    (survey reached false key).and
      (Survey.unopened (Tree.boundNamesAll rest) (surveyOfAll reached rest))

end

/-- The calls of a module. -/
def sites (t : Tree) : List Site := ((survey true false t).enclosed [] true).sites []

/-! ## Nothing is left out

A survey that forgot a call would make every statement about calls weaker
without anyone noticing. So it is checked against `calls`, which is a plain
traversal without marks and regions. -/

/-- The calls of two trees are those of the one and then those of the other. -/
theorem map_call_and (x y : Survey) (regions : List Region) :
    ((x.and y).sites regions).map Site.call =
      (x.sites regions).map Site.call ++ (y.sites regions).map Site.call := by
  rw [Survey.and, List.map_append]

mutual

/-- **A survey lists every call, once and in order.** What it adds to each is
whether it is reached and in which regions it stands, and that adds or drops no
call. -/
theorem map_call_survey (reached asValue : Bool) (regions : List Region) :
    (t : Tree) → ((survey reached asValue t).sites regions).map Site.call = calls t
  | .name _ _ => rfl
  | .text _ _ => rfl
  | .template _ _ substitutions => by
    rw [survey, calls, map_call_surveyOfAll]
  | .call e callee arguments types => by
    rw [survey, calls, map_call_and, map_call_and, map_call_and, map_call_survey,
      map_call_surveyOfAll, map_call_surveyOfAll]
    rfl
  | .callKeyword _ => rfl
  | .spread _ inner => by
    rw [survey, calls, map_call_survey]
  | .wrapped wrapper _ before inner after => by
    rw [survey, calls, map_call_and, map_call_and, map_call_survey, map_call_surveyOfAll,
      map_call_surveyOfAll]
  | .function _ _ decorators parameters types body => by
    rw [survey, calls, Survey.enclosed, map_call_and, map_call_and, map_call_and,
      map_call_surveyOfAll, map_call_surveyOfAll, map_call_surveyOfAll, map_call_surveyOfAll]
  | .scope _ parts => by
    rw [survey, calls, Survey.enclosed, map_call_surveyOfAll]
  | .handler _ parameter body => by
    rw [survey, calls, Survey.enclosed, map_call_and, map_call_surveyOfAll, map_call_surveyOfAll]
  | .declarator e target value => by
    rw [survey, calls, map_call_and, map_call_and, map_call_survey, map_call_surveyOfValue]
    rfl
  | .object _ members => by
    rw [survey, calls, map_call_surveyOfAll]
  | .property _ key value => by
    rw [survey, calls, map_call_and, map_call_survey, map_call_survey]
  | .shorthand _ _ fallback => by
    rw [survey, calls, map_call_surveyOfAll]
  | .array _ elements => by
    rw [survey, calls, map_call_surveyOfAll]
  | .assignment _ _ target value => by
    rw [survey, calls, map_call_and, map_call_survey, map_call_survey]
  | .compound form _ parts => by
    rw [survey, calls]
    split
    · exact map_call_surveyOfAccessor reached regions parts
    · exact map_call_surveyOfAll reached regions parts

theorem map_call_surveyOfAll (reached : Bool) (regions : List Region) :
    (ts : List Tree) → ((surveyOfAll reached ts).sites regions).map Site.call = callsOfAll ts
  | [] => rfl
  | t :: ts => by
    rw [surveyOfAll, callsOfAll, map_call_and, map_call_survey, map_call_surveyOfAll]

theorem map_call_surveyOfValue (reached : Bool) (regions : List Region) :
    (ts : List Tree) → ((surveyOfValue reached ts).sites regions).map Site.call = callsOfAll ts
  | [] => rfl
  | v :: rest => by
    rw [surveyOfValue, callsOfAll, map_call_and, map_call_survey, map_call_surveyOfAll]

theorem map_call_surveyOfAccessor (reached : Bool) (regions : List Region) :
    (ts : List Tree) → ((surveyOfAccessor reached ts).sites regions).map Site.call = callsOfAll ts
  | [] => rfl
  | key :: rest => by
    rw [surveyOfAccessor, callsOfAll, map_call_and, map_call_survey, Survey.unopened,
      map_call_surveyOfAll]

end

/-- **The sites of a module are its calls.** So what is said of all sites is
said of all calls that are written in the module. -/
theorem map_call_sites (t : Tree) : (sites t).map Site.call = calls t :=
  map_call_survey true false _ t

end LocaleKeys.Outline
