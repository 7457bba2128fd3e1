/-
Whether key uses are in the order of the source.

The uses of one binding are in the order of the nodes, and that is the order in
which the tree is listed. So every list of uses that is to be in the order of
the source (`Outline.Sequence`) is in that order of the tree. The tree does not
list everything as it is written (`Tree.literals`, `Tree.listedLiterals`);
where it does, the uses are in the order of the source.
-/
import LocaleKeys.Analysis.Resolution
import LocaleKeys.Proofs.Analysis.Citing
import LocaleKeys.Proofs.Script.Parsing

set_option autoImplicit false

namespace LocaleKeys

open LocaleKeys.Script
open Text (Position)

/-! ## Places of uses

All lists of uses that the claim is about come down to one: calls with growing
nodes and the uses they are. Their places form a sublist of those of the listed
literals. Two facts bring the lists to that form. Sorting by binding leaves the
uses of one binding in the order of their nodes, and if there is one binding
there is nothing to sort. -/

/-- The places behind the literals of a tree, in the order in which the tree is
listed. -/
def listedEnds (d : Text.Document) (t : Tree) : List Position :=
  t.listedLiterals.map fun e => (d.place e.hi).position

/-- The places behind the literals of a tree, in the order in which the
literals are written. -/
def writtenEnds (d : Text.Document) (t : Tree) : List Position :=
  t.literals.map fun e => (d.place e.hi).position

namespace Outline

variable {settings : Settings} {d : Text.Document} {t : Tree}

/-- The uses that go to a binding. -/
def usesOf (o : Outline) (settings : Settings) (b : Nat) : List KeyUse :=
  (o.keyUses settings (o.bindings settings)).filter (·.binding == b)

/-- The uses of a binding, each with its call and in the order of the calls. -/
def callsOf (o : Outline) (settings : Settings) (b : Nat) : List (Nat × KeyUse) :=
  (o.ids.filterMap fun c => (o.useAt? settings c).map (c, ·)).filter (·.2.binding == b)

/-- They are in the order of the nodes. -/
theorem pairwise_callsOf (o : Outline) (settings : Settings) (b : Nat) :
    (o.callsOf settings b).Pairwise fun x y => x.1 < y.1 :=
  (pairwise_useAt? o settings).filter _

/-- The uses of a binding are in the order of their calls. -/
theorem map_snd_callsOf (o : Outline) (settings : Settings) (b : Nat) :
    (o.callsOf settings b).map Prod.snd = o.usesOf settings b := by
  -- among the sorted uses, those of one binding follow each other by node
  have hfound : ((o.foundUses settings).filter (·.2.binding == b)).Pairwise fun x y => x.1 < y.1 := by
    rw [List.pairwise_filter]
    refine (pairwise_foundUses o settings).imp ?_
    intro x y hxy hx hy
    rw [beq_iff_eq] at hx hy
    omega
  have hperm := (List.mergeSort_perm (o.ids.filterMap fun c => (o.useAt? settings c).map (c, ·))
    fun x y => x.2.binding ≤ y.2.binding).filter fun x => x.2.binding == b
  -- two lists with the same uses, both in the order of nodes, are the same
  have heq := hperm.eq_of_pairwise
    (fun x y _ _ hxy hyx => absurd (Nat.lt_trans hxy hyx) (Nat.lt_irrefl _)) hfound (pairwise_callsOf o settings b)
  rw [usesOf, ← map_snd_foundUses, List.filter_map]
  exact congrArg (List.map Prod.snd) heq.symm

/-- The uses of a binding, without sorting. -/
theorem usesOf_eq (o : Outline) (settings : Settings) (b : Nat) :
    o.usesOf settings b = (o.ids.filterMap (o.useAt? settings)).filter (·.binding == b) := by
  have hsnd : (o.ids.filterMap fun c => (o.useAt? settings c).map (c, ·)).map Prod.snd
      = o.ids.filterMap (o.useAt? settings) := by
    rw [List.map_filterMap]
    congr 1
    funext c
    rw [Option.map_map]
    exact Option.map_id'
  rw [← map_snd_callsOf, callsOf, ← hsnd, List.filter_map]
  rfl

/-- Uses that are named in the order of their calls are named in the order in
which the tree is listed. -/
theorem sublist_listedEnds (settings : Settings) (found : List (Nat × KeyUse))
    (hcalls : found.Pairwise fun x y => x.1 < y.1)
    (huses : ∀ x ∈ found, (ofModule d t).useAt? settings x.1 = some x.2) :
    (found.map (·.2.position)).Sublist (listedEnds d t) := by
  obtain ⟨literalOf, hat, hlisted⟩ := exists_literalOf d t settings
  have hends : found.map (·.2.position) = (found.map fun x => literalOf x.1).map fun e => (d.place e.hi).position := by
    rw [List.map_map]
    exact List.map_congr_left fun x hx => (hat x.1 x.2 (huses x hx)).2
  rw [hends]
  exact (hlisted found hcalls huses).map _

/-- The uses of a binding are in the order in which the tree is listed. -/
theorem sublist_usesOf (d : Text.Document) (t : Tree) (settings : Settings) (b : Nat) :
    (((ofModule d t).usesOf settings b).map (·.position)).Sublist (listedEnds d t) := by
  rw [← map_snd_callsOf, List.map_map]
  refine sublist_listedEnds settings _ (pairwise_callsOf _ _ _) fun x hx => ?_
  obtain ⟨c, -, hfound⟩ := List.mem_filterMap.mp (List.mem_of_mem_filter hx)
  obtain ⟨use, huse, rfl⟩ := Option.map_eq_some_iff.mp hfound
  exact huse

/-- A use goes to one of the bindings. -/
theorem IsUse.binding_lt {o : Outline} {c : Nat} {use : KeyUse} (h : o.IsUse settings c use) :
    use.binding < (o.bindings settings).length := by
  obtain ⟨_, _, _, name, _, scope, j, -, -, -, -, -, -, -, hcounts⟩ := h
  cases hcounts.declares with
  | accessor hbinding _ _ => exact (List.getElem?_eq_some_iff.mp hbinding).1

/-- If there is one binding only, all uses go to it. -/
theorem keyUses_eq_usesOf (h : ((ofModule d t).bindings settings).length ≤ 1) :
    (ofModule d t).keyUses settings ((ofModule d t).bindings settings) = (ofModule d t).usesOf settings 0 := by
  refine (List.filter_eq_self.mpr fun use huse => ?_).symm
  rw [← map_snd_foundUses] at huse
  obtain ⟨⟨c, use⟩, hfound, rfl⟩ := List.mem_map.mp huse
  have hlt := (useAt?_ofShape_iff.mp (mem_foundUses.mp hfound)).binding_lt
  rw [beq_iff_eq]
  exact Nat.lt_one_iff.mp (Nat.lt_of_lt_of_le hlt h)

end Outline

/-! ## Places in reports

A report keeps the results with a text in one list and those without in
another. Filtering does not change the order, and entries stand where their
results do. -/

/-- What is listed of the results is listed in their order. -/
theorem sublist_positions {f : Resolution → Option Entry}
    (hf : ∀ r entry, f r = some entry → entry.position = r.position) (results : List Resolution) :
    ((results.filterMap f).map (·.position)).Sublist (results.map (·.position)) := by
  induction results with
  | nil => exact List.Sublist.refl _
  | cons r results ih =>
    cases h : f r with
    | none =>
      rw [List.filterMap_cons_none h]
      exact ih.cons _
    | some entry =>
      rw [List.filterMap_cons_some h, List.map_cons, List.map_cons, hf r entry h]
      exact ih.cons_cons _

/-- The entry of a resolved result stands where the result does. -/
theorem Resolution.position_of_asResolved? (r : Resolution) (entry : Entry) (h : r.asResolved? = some entry) :
    entry.position = r.position := by
  obtain ⟨text, -, rfl⟩ := Option.map_eq_some_iff.mp h
  rfl

/-- So does that of a missing one. -/
theorem Resolution.position_of_asMissing? (r : Resolution) (entry : Entry) (h : r.asMissing? = some entry) :
    entry.position = r.position := by
  rw [asMissing?, Option.ite_none_right_eq_some] at h
  rw [← Option.some.inj h.2]

/-! ## The order of the source

A list of literals is in the order of the source if it is a sublist of the
literals as they are written, since those are strictly increasing. The uses
form a sublist of the listed literals. So the exact condition is that this
sublist is one of the written literals as well, which holds for all uses at
once if the tree is listed as it is written. -/

/-- The lists of places that are to be in the order of the source: those of two
calls that are uses, the smaller node first; those of the uses of a binding,
and of the results for them; and, if there is one binding only, those of what a
report has of the keys with texts and of the missing ones. -/
inductive Outline.Sequence (o : Outline) (settings : Settings) : List Position → Prop
  | calls {c c' : Nat} {use use' : KeyUse} (h : o.IsUse settings c use) (h' : o.IsUse settings c' use')
      (hlt : c < c') : Sequence o settings [use.position, use'.position]
  | uses (b : Nat) : Sequence o settings ((o.usesOf settings b).map (·.position))
  | results (b : Nat) (messages : Messages) :
      Sequence o settings (((o.usesOf settings b).map (·.resolve (o.bindings settings) messages)).map (·.position))
  | resolved (h : (o.bindings settings).length ≤ 1) (uri : String) (version : Int) (locale : String)
      (messages : Messages) : Sequence o settings ((FileReport.ofResolutions uri version locale
        (o.resolve settings (o.bindings settings) messages)).resolved.map (·.position))
  | missing (h : (o.bindings settings).length ≤ 1) (uri : String) (version : Int) (locale : String)
      (messages : Messages) : Sequence o settings ((FileReport.ofResolutions uri version locale
        (o.resolve settings (o.bindings settings) messages)).missing.map (·.position))

section

variable {source : String} {d : Text.Document} {t : Tree} {settings : Settings}

/-- **They are in the order in which the tree is listed**, whatever the tree.
Whether that is the order of the source too depends on the tree, and is asked
afterwards. -/
theorem Outline.Sequence.sublist {ps : List Position} (h : (ofModule d t).Sequence settings ps) :
    ps.Sublist (listedEnds d t) := by
  have hresults : ∀ messages, ((ofModule d t).bindings settings).length ≤ 1 →
      (((ofModule d t).resolve settings ((ofModule d t).bindings settings) messages).map (·.position)).Sublist
        (listedEnds d t) := by
    intro messages hone
    rw [resolve, keyUses_eq_usesOf hone, List.map_map]
    exact sublist_usesOf d t settings 0
  cases h with
  | @calls c c' use use' h h' hlt =>
    refine sublist_listedEnds settings [(c, use), (c', use')] (List.pairwise_pair.mpr hlt) fun x hx => ?_
    rcases List.mem_pair.mp hx with rfl | rfl
    · exact useAt?_ofShape_iff.mpr h
    · exact useAt?_ofShape_iff.mpr h'
  | uses b => exact sublist_usesOf d t settings b
  | results b messages =>
    rw [List.map_map]
    exact sublist_usesOf d t settings b
  | resolved hone uri version locale messages =>
    exact (sublist_positions Resolution.position_of_asResolved? _).trans (hresults messages hone)
  | missing hone uri version locale messages =>
    exact (sublist_positions Resolution.position_of_asMissing? _).trans (hresults messages hone)

/-- The literals of a text stand one behind the other. -/
theorem inOrder_writtenEnds {n m : Nat} (h : Runs (Text.Document.ofString source).characters n t.literals m) :
    Position.InOrder (writtenEnds (Text.Document.ofString source) t) := by
  rw [Position.InOrder, writtenEnds, List.pairwise_map]
  exact h.pairwise_hi.imp_of_mem fun ha hb hlt =>
    Text.Document.before_place (h.isBetween_hi ha) (h.isBetween_hi hb) hlt

/-- **Uses are in the order of the source exactly where the tree is listed as
it is written.** The literals of a text stand one behind the other as they are
written. The uses of a binding, the results for them and the lists of a report
name their keys in the order in which the tree is listed, and so do any two
calls that are uses. They name them in the order of the text if and only if
that is also the order in which the literals are written, and always do if the
whole tree is listed as it is written. -/
theorem inOrder_iff_written {dialect : Dialect}
    (hparse : parseModule dialect (Text.Document.ofString source).characters = .ok t) (settings : Settings) :
    let d := Text.Document.ofString source
    Position.InOrder (writtenEnds d t) ∧
      ∀ ps, (Outline.ofTree d t).Sequence settings ps →
        ps.Sublist (listedEnds d t) ∧
        (Position.InOrder ps ↔ ps.Sublist (writtenEnds d t)) ∧
        (t.listedLiterals = t.literals → Position.InOrder ps) := by
  intro d
  have hwritten : Position.InOrder (writtenEnds d t) := inOrder_writtenEnds (runs_parseModule hparse)
  refine ⟨hwritten, fun ps hps => ?_⟩
  rw [Outline.ofTree_eq] at hps
  have hlisted := hps.sublist
  -- the listed literals are the written ones, in some order
  have hmem : ∀ p ∈ ps, p ∈ writtenEnds d t := by
    intro p hp
    obtain ⟨e, he, rfl⟩ := List.mem_map.mp (hlisted.subset hp)
    exact List.mem_map_of_mem (t.subperm_listedLiterals.subset he)
  have hiff := Position.inOrder_iff_sublist hwritten hmem
  refine ⟨hlisted, hiff, fun heq => hiff.mpr ?_⟩
  rwa [listedEnds, heq] at hlisted

end

/-- The tree of a source with two uses is listed as it is written. -/
theorem inOrder_iff_written_of_calls :
    let d := Text.Document.ofString "let t=useI18n();t('a');t('b')"
    ∃ t, parseModule .tsx d.characters = .ok t ∧ t.listedLiterals = t.literals ∧
      Position.InOrder (((Outline.ofTree d t).usesOf {} 0).map (·.position)) := by
  intro d
  obtain ⟨t, ht, hliterals⟩ : ∃ t, parseModule .tsx d.characters = .ok t ∧
      (t.listedLiterals == t.literals) = true :=
    exists_ok_of_any (by decide +kernel)
  have hlisted : t.listedLiterals = t.literals := eq_of_beq hliterals
  exact ⟨t, ht, hlisted, ((inOrder_iff_written ht {}).2 _ (.uses 0)).2.2 hlisted⟩

/-- The condition of a loop stands behind its body, but it is listed in front
of it. -/
theorem loop_uses_reversed :
    let d := Text.Document.ofString "let t=useI18n();do t('a');while(t('b'))"
    ∃ t, parseModule .tsx d.characters = .ok t ∧
      ¬ Position.InOrder (((Outline.ofTree d t).usesOf {} 0).map (·.position)) := by
  intro d
  obtain ⟨t, ht, huses⟩ : ∃ t, parseModule .tsx d.characters = .ok t ∧
      ((((Outline.ofTree d t).ids.filterMap ((Outline.ofTree d t).useAt? {})).filter
        (·.binding == 0)).map (·.position) == [⟨1, 38⟩, ⟨1, 25⟩]) = true :=
    exists_ok_of_any (by decide +kernel)
  refine ⟨t, ht, ?_⟩
  rw [Outline.usesOf_eq, eq_of_beq huses]
  decide

end LocaleKeys
