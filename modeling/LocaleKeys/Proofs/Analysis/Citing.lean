/-
Each key use is at a literal of its own, and in its order.

A use is at the first argument of its call. The callee is a name and has
nothing inside of it, so the node of the argument is the second behind that of
the call (`exists_text_of_use`), and uses are made by different calls at
different texts, in the order of the calls. The texts of an outline are
literals of the source, each for itself and in the order in which the tree is
listed. So are the literals that uses are at (`exists_literalOf`), and none of
them is named by two uses (`exists_literals_of_uses`).
-/
import LocaleKeys.Proofs.Analysis.Uses
import LocaleKeys.Proofs.Analysis.Recorded
import LocaleKeys.Proofs.Outline.Texts
import Mathlib.Data.List.Nodup
import Mathlib.Data.Option.Basic

set_option autoImplicit false

namespace LocaleKeys

open LocaleKeys.Script
open List (Subperm)

/-- The use is at this literal. -/
def KeyUse.IsAt (d : Text.Document) (use : KeyUse) (e : Extent) : Prop :=
  use.span = d.span e.lo e.hi ∧ use.position = (d.place e.hi).position

namespace Outline

instance : Inhabited Spot := ⟨⟨0, default, []⟩⟩

variable {settings : Settings} {d : Text.Document} {t : Tree}

/-- The callee of a call is the first node behind it. If the callee is a name,
there is nothing inside of it, so the first argument is the second. -/
theorem exists_argument_of_call {s : Shape} {x : Spot} {call : Call} {callee argument : Nat} {rest : List Nat}
    {name : String} (hx : x ∈ spots s) (hshape : x.shape = call.shape)
    (hkind : (ofShape d s).kind? x.number = some (.call callee (argument :: rest)))
    (hname : (ofShape d s).kind? callee = some (.name name)) :
    argument = x.number + 2 ∧ ∃ y ∈ spots s, y.number = argument := by
  have hparts := forall₂_parts hx
  have hnumbers := kind?_number (d := d) hx
  rw [hshape] at hparts hnumbers
  obtain ⟨rfl, harguments⟩ := Kind.call.inj (Option.some.inj (hnumbers.symm.trans hkind))
  obtain ⟨hcallee, hplaces⟩ := List.forall₂_cons.mp hparts
  obtain ⟨e, hleaf⟩ := (kind?_place_eq_name_iff hcallee).mp hname
  obtain ⟨extent, tree, arguments⟩ := call
  obtain rfl : tree = .name e name := hleaf
  -- a call without arguments has no first one
  cases arguments with
  | nil => exact absurd harguments (List.cons_ne_nil argument rest).symm
  | cons t ts =>
    obtain ⟨rfl, -⟩ := List.cons.inj harguments
    exact ⟨rfl, _, (List.forall₂_cons.mp hplaces).1, rfl⟩

/-- **The text that a use is at, as a spot.** Its node is the second behind
that of the call. The callee is a name and so a single node, and the first
argument comes right behind it. -/
theorem exists_text_of_use {c : Nat} {use : KeyUse} (h : (ofModule d t).useAt? settings c = some use) :
    ∃ y ∈ (spots (moduleShape t)).filter (·.shape.label.isText),
      y.number = c + 2 ∧ use.IsAt d y.shape.extent := by
  obtain ⟨callee, argument, rest, name, node, hkind, hname, hsuffix, hnode, hspan, hposition, -⟩ :=
    useAt?_eq_some_iff.mp h
  obtain ⟨node', hnode', -⟩ := Option.map_eq_some_iff.mp hkind
  obtain ⟨x, hx, rfl, -⟩ := getElem?_nodes_iff.mp hnode'
  have hisCall : x.shape.isCall = true := by
    rw [← isCall_number (d := d) hx, isCall, hkind]
  obtain ⟨call, hshape⟩ := exists_call_of_spot hx hisCall
  obtain ⟨hnumber, y, hy, rfl⟩ := exists_argument_of_call hx hshape hkind hname
  rw [nodes_number hy, Option.some.injEq] at hnode
  subst hnode
  rw [kind?_number hy, Option.some.injEq, kind_eq_text_iff] at hsuffix
  exact ⟨y, List.mem_filter.mpr ⟨hy, by rw [hsuffix]; rfl⟩, hnumber, hspan, hposition⟩

/-- There are literals that the uses are at, and uses that are named in the
order of their calls have them in the order in which the tree is listed. -/
theorem exists_literalOf (d : Text.Document) (t : Tree) (settings : Settings) :
    ∃ literalOf : Nat → Extent,
      (∀ c use, (ofModule d t).useAt? settings c = some use → use.IsAt d (literalOf c)) ∧
      ∀ found : List (Nat × KeyUse), found.Pairwise (fun x y => x.1 < y.1) →
        (∀ x ∈ found, (ofModule d t).useAt? settings x.1 = some x.2) →
        (found.map fun x => literalOf x.1).Sublist t.listedLiterals := by
  have htext : ∀ c, ((ofModule d t).useAt? settings c).isSome = true →
      ∃ y ∈ (spots (moduleShape t)).filter (·.shape.label.isText), y.number = c + 2 ∧
        ∀ use, (ofModule d t).useAt? settings c = some use → use.IsAt d y.shape.extent := by
    intro c hc
    obtain ⟨use, huse⟩ := Option.isSome_iff_exists.mp hc
    obtain ⟨y, hy, hnumber, hat⟩ := exists_text_of_use huse
    exact ⟨y, hy, hnumber, fun use' huse' => Option.some.inj (huse.symm.trans huse') ▸ hat⟩
  -- one text is chosen for each call that is a use
  choose! textOf hmem hnumber hat using htext
  refine ⟨fun c => (textOf c).shape.extent, fun c use huse => hat c (by rw [huse]; rfl) use huse, ?_⟩
  intro found hcalls huses
  have hsome : ∀ x ∈ found, ((ofModule d t).useAt? settings x.1).isSome = true :=
    fun x hx => by rw [huses x hx]; rfl
  -- the texts are numbered in the order of the calls
  have hrises : (found.map fun x => textOf x.1).Pairwise fun y z => y.number < z.number := by
    rw [List.pairwise_map]
    refine hcalls.imp_of_mem fun hx hy hlt => ?_
    rw [hnumber _ (hsome _ hx), hnumber _ (hsome _ hy)]
    omega
  -- texts with growing numbers are a sublist of all texts, since these are in
  -- the order of their numbers
  have htexts : (found.map fun x => textOf x.1).Sublist
      ((spots (moduleShape t)).filter (·.shape.label.isText)) := by
    refine sublist_of_pairwise_number hrises fun y hy => ?_
    obtain ⟨x, hx, rfl⟩ := List.mem_map.mp hy
    exact List.mem_filter.mp (hmem x.1 (hsome x hx))
  have hextents := htexts.map fun y => y.shape.extent
  rw [List.map_map] at hextents
  have hlisted := sublist_texts_shapes t
  rw [← @texts_node (.scope .module []) rfl t.extent, ← moduleShape, texts_eq_map_spotsFrom [] 0] at hlisted
  exact hextents.trans hlisted

/-- **Key uses are at literals of the source, and no two of them are at the
same.** Each use has a call of its own and with it a literal of its own,
however the uses are sorted afterwards. -/
theorem exists_literals_of_uses (d : Text.Document) (t : Tree) (settings : Settings) :
    ∃ es : List Extent, Subperm es t.literals ∧
      List.Forall₂ (KeyUse.IsAt d) ((ofModule d t).keyUses settings ((ofModule d t).bindings settings)) es := by
  obtain ⟨literalOf, hat, hlisted⟩ := exists_literalOf d t settings
  have hfound : ∀ x ∈ (ofModule d t).foundUses settings, (ofModule d t).useAt? settings x.1 = some x.2 :=
    fun x hx => mem_foundUses.mp hx
  refine ⟨((ofModule d t).foundUses settings).map fun x => literalOf x.1, ?_, ?_⟩
  · -- the uses are sorted by binding, but they are those of the calls in their order
    have hperm := List.mergeSort_perm ((ofModule d t).ids.filterMap fun c =>
      ((ofModule d t).useAt? settings c).map (c, ·)) fun x y => x.2.binding ≤ y.2.binding
    have hsub := hlisted _ (pairwise_useAt? _ _) fun x hx => hfound x (hperm.mem_iff.mpr hx)
    exact ((hperm.map _).subperm.trans hsub.subperm).trans t.subperm_listedLiterals
  · rw [← map_snd_foundUses, List.forall₂_map_left_iff, List.forall₂_map_right_iff, List.forall₂_same]
    exact fun x hx => hat x.1 x.2 (hfound x hx)

/-- A key use is at a literal of the source. -/
theorem exists_literal_of_use {use : KeyUse}
    (huse : use ∈ (ofModule d t).keyUses settings ((ofModule d t).bindings settings)) :
    ∃ e ∈ t.literals, use.IsAt d e := by
  obtain ⟨es, hsub, hes⟩ := exists_literals_of_uses d t settings
  obtain ⟨i, hi, rfl⟩ := List.getElem_of_mem huse
  have hi' : i < es.length := hes.length_eq ▸ hi
  exact ⟨es[i], hsub.subset (List.getElem_mem hi'), hes.get hi hi'⟩

end Outline

end LocaleKeys
