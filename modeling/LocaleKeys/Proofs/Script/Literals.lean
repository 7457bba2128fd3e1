/-
The literals of a syntax tree, in the order in which they are written.

A tree is listed in an order of its own. Mostly it is that of the text, and
where it is not there are a form, a wrapper or an arrangement of parts that say
so (`Tree.literals`): the condition of a `do` loop is listed before its body,
and the members of a class before its parent, but they are written behind. So
the literals of a tree can be gone through as they stand in the text, whatever
the tree is made of. Types of calls and of functions are left out.

The order of the tree itself is `Tree.listedLiterals`. It goes through the same
literals (`Tree.subperm_listedLiterals`), and the two orders differ in angle
assertions, in methods and in parts that are arranged, and nowhere else.
-/
import LocaleKeys.Script.Tree
import Mathlib.Data.List.Flatten
import Mathlib.Data.List.Perm.Subperm

set_option autoImplicit false

namespace LocaleKeys.Script

namespace Tree

/-- The places of the parts of an arrangement, in the order in which the parts
are written. Parts that `order` does not speak of come last. -/
def writtenOrder (order : List Nat) (count : Nat) : List Nat :=
  order ++ (List.range count).filter fun i => !order.contains i

/-- No part of an arrangement is forgotten. -/
theorem mem_writtenOrder {order : List Nat} {count i : Nat} (h : i < count) :
    i ∈ writtenOrder order count := by
  by_cases hi : i ∈ order
  · exact List.mem_append_left _ hi
  · exact List.mem_append_right _ (List.mem_filter.mpr ⟨List.mem_range.mpr h, by simpa using hi⟩)

mutual

/-- The stretches of the literal texts in a tree, in the order in which they
are written. Among them are the templates without substitutions. -/
def literals : Tree → List Extent
  | name _ _ | callKeyword _ => []
  | text e _ => [e]
  | template e value substitutions =>
    if value.isSome && substitutions.isEmpty then [e] else literalsAll substitutions
  | call _ callee arguments _ => literals callee ++ literalsAll arguments
  | spread _ inner => literals inner
  | wrapped wrapper _ before inner after =>
    if wrapper = .angleAssertion then literalsAll before ++ literalsAll after ++ literals inner
    else literalsAll before ++ literals inner ++ literalsAll after
  | function _ _ decorators parameters _ body =>
    literalsAll decorators ++ literalsAll parameters ++ literalsAll body
  | scope _ parts => literalsAll parts
  | handler _ parameter body => literalsAll parameter ++ literalsAll body
  | declarator _ target value => literals target ++ literalsAll value
  | object _ members => literalsAll members
  | property _ key value => literals key ++ literals value
  | shorthand _ _ fallback => literalsAll fallback
  | array _ elements => literalsAll elements
  | assignment _ _ target value => literals target ++ literals value
  -- the decorators of a method stand in front of its key
  | compound .method _ [key, function _ _ decorators parameters _ body] =>
    literalsAll decorators ++ literals key ++ literalsAll parameters ++ literalsAll body
  | compound (.arranged order) _ parts =>
    (writtenOrder order parts.length).flatMap fun i => (literalsEach parts)[i]?.getD []
  | compound _ _ parts => literalsAll parts

/-- The literals of several trees, one after the other. -/
def literalsAll : List Tree → List Extent
  | [] => []
  | t :: ts => literals t ++ literalsAll ts

/-- The literals of several trees, each for itself. -/
def literalsEach : List Tree → List (List Extent)
  | [] => []
  | t :: ts => literals t :: literalsEach ts

end

attribute [simp] literals literalsAll literalsEach

/-! ## Nothing is left out

The written order may permute the parts of an arrangement, and it may repeat
one that `order` names twice. What can be said of all arrangements is therefore
that each part is there at least once, as `Subperm` does. -/

section

open List (Subperm Perm subperm_of_subset)

/-- Of more, more is collected. -/
theorem subperm_flatMap {α β : Type} {as bs : List α} (h : Subperm as bs) (f : α → List β) :
    Subperm (as.flatMap f) (bs.flatMap f) := by
  obtain ⟨cs, hperm, hsub⟩ := h
  exact (hperm.flatMap_right f).symm.subperm.trans (hsub.flatMap f).subperm

/-- The literals of several trees, collected by their places. -/
theorem literalsAll_eq_flatMap_range (ts : List Tree) :
    literalsAll ts = (List.range ts.length).flatMap fun i => (literalsEach ts)[i]?.getD [] := by
  induction ts with
  | nil => rfl
  | cons t ts ih =>
    rw [literalsAll, ih, List.length_cons, List.range_succ_eq_map, List.flatMap_cons, List.flatMap_map,
      literalsEach]
    rfl

/-- A part of a tree keeps its literals, wherever it is written. -/
theorem subperm_literals_compound (form : Form) (e : Extent) (ts : List Tree) :
    Subperm (literalsAll ts) (compound form e ts).literals := by
  by_cases hmethod : ∃ key e' isArrow ds ps us bs, form = .method ∧ ts = [key, function e' isArrow ds ps us bs]
  · obtain ⟨key, e', isArrow, ds, ps, us, bs, rfl, rfl⟩ := hmethod
    simp only [literalsAll, literals, List.append_nil, ← List.append_assoc]
    exact ((List.perm_append_comm.append_right _).append_right _).subperm
  · by_cases harranged : ∃ order, form = .arranged order
    · obtain ⟨order, rfl⟩ := harranged
      rw [literals, literalsAll_eq_flatMap_range]
      refine subperm_flatMap (subperm_of_subset List.nodup_range fun i hi => ?_) _
      exact mem_writtenOrder (List.mem_range.mp hi)
    · rw [literals]
      · exact fun key e' isArrow ds ps us bs hform hts => hmethod ⟨key, e', isArrow, ds, ps, us, bs, hform, hts⟩
      · exact fun order horder => harranged ⟨order, horder⟩

/-- Nor does a wrapper lose any, wherever its types are written. -/
theorem subperm_literals_wrapped (wrapper : Wrapper) (e : Extent) (before : List Tree) (inner : Tree)
    (after : List Tree) :
    Subperm (literalsAll before ++ inner.literals ++ literalsAll after)
      (wrapped wrapper e before inner after).literals := by
  rw [literals]
  split
  · rw [List.append_assoc, List.append_assoc]
    exact (List.perm_append_comm.append_left _).subperm
  · exact Subperm.refl _

end

/-! ## The order of the tree

The same literals in the order in which a walk over the tree comes to them. It
is this order that the outline numbers its nodes in, while the claims about the
order of the source need the other one. -/

mutual

/-- The stretches of the literal texts in a tree, in the order in which the
tree is listed. -/
def listedLiterals : Tree → List Extent
  | name _ _ | callKeyword _ => []
  | text e _ => [e]
  | template e value substitutions =>
    if value.isSome && substitutions.isEmpty then [e] else listedLiteralsAll substitutions
  | call _ callee arguments _ => listedLiterals callee ++ listedLiteralsAll arguments
  | spread _ inner => listedLiterals inner
  | wrapped _ _ before inner after =>
    listedLiteralsAll before ++ listedLiterals inner ++ listedLiteralsAll after
  | function _ _ decorators parameters _ body =>
    listedLiteralsAll decorators ++ listedLiteralsAll parameters ++ listedLiteralsAll body
  | scope _ parts => listedLiteralsAll parts
  | handler _ parameter body => listedLiteralsAll parameter ++ listedLiteralsAll body
  | declarator _ target value => listedLiterals target ++ listedLiteralsAll value
  | object _ members => listedLiteralsAll members
  | property _ key value => listedLiterals key ++ listedLiterals value
  | shorthand _ _ fallback => listedLiteralsAll fallback
  | array _ elements => listedLiteralsAll elements
  | assignment _ _ target value => listedLiterals target ++ listedLiterals value
  | compound _ _ parts => listedLiteralsAll parts

/-- The literals of several trees, one after the other, each in the order of
its list. -/
def listedLiteralsAll : List Tree → List Extent
  | [] => []
  | t :: ts => listedLiterals t ++ listedLiteralsAll ts

end

mutual

/-- **What a tree lists is written**, wherever it is written. Nothing is listed
twice that is written once, and literals in places where no one looks are
written but not listed. -/
theorem subperm_listedLiterals : (t : Tree) → List.Subperm t.listedLiterals t.literals
  | name _ _ | text _ _ | callKeyword _ => List.Subperm.refl _
  | template e value substitutions => by
    rw [listedLiterals, literals]
    split
    · exact List.Subperm.refl _
    · exact subperm_listedLiteralsAll substitutions
  | call _ callee arguments _ =>
    (subperm_listedLiterals callee).append (subperm_listedLiteralsAll arguments)
  | spread _ inner => subperm_listedLiterals inner
  | wrapped wrapper e before inner after =>
    (((subperm_listedLiteralsAll before).append (subperm_listedLiterals inner)).append
      (subperm_listedLiteralsAll after)).trans (subperm_literals_wrapped wrapper e before inner after)
  | function _ _ decorators parameters _ body =>
    ((subperm_listedLiteralsAll decorators).append (subperm_listedLiteralsAll parameters)).append
      (subperm_listedLiteralsAll body)
  | scope _ parts => subperm_listedLiteralsAll parts
  | handler _ parameter body => (subperm_listedLiteralsAll parameter).append (subperm_listedLiteralsAll body)
  | declarator _ target value => (subperm_listedLiterals target).append (subperm_listedLiteralsAll value)
  | object _ members => subperm_listedLiteralsAll members
  | property _ key value => (subperm_listedLiterals key).append (subperm_listedLiterals value)
  | shorthand _ _ fallback => subperm_listedLiteralsAll fallback
  | array _ elements => subperm_listedLiteralsAll elements
  | assignment _ _ target value => (subperm_listedLiterals target).append (subperm_listedLiterals value)
  | compound form e parts => (subperm_listedLiteralsAll parts).trans (subperm_literals_compound form e parts)

theorem subperm_listedLiteralsAll : (ts : List Tree) → List.Subperm (listedLiteralsAll ts) (literalsAll ts)
  | [] => List.Subperm.refl _
  | t :: ts => (subperm_listedLiterals t).append (subperm_listedLiteralsAll ts)

end

end Tree

end LocaleKeys.Script
