/-
Which declarations belong to a scope of an outline.

An outline says it from the side of the declaration: the scope it belongs to is
the first one on the way up. A shape says it from the side of the scope: its
declarations are found on the way down, as far as no other scope is in between
(`declarationsOfAll`). Both ways are the same way
(`mem_declarations_of_enclosingScope`, `exists_spot_of_mem_declarations`),
since what is around a spot is exactly what was passed on the way down to it.

The two directions are inductions over the shape with the same cases. A
declaration may be inside of another one, as in the default of a pattern, so
that a declaration belongs to its scope as well as what is found below it.
-/
import LocaleKeys.Proofs.Outline.Reading

set_option autoImplicit false

namespace LocaleKeys.Outline

open LocaleKeys.Script

/-- The shape is a declaration. -/
def Shape.isDeclaration (s : Shape) : Bool :=
  match s.label with
  | .declaration _ => true
  | _ => false

/-- What is not a scope leaves its declarations to the scope around it. -/
theorem declarationsOfAll_subset {label : Label} {e : Script.Extent} {parts : List Shape}
    (h : (Shape.node label e parts).isScope = false) :
    declarationsOfAll parts ⊆ declarationsOf (.node label e parts) := by
  cases label with
  | scope _ _ => exact absurd h (by simp [Shape.isScope, Shape.label])
  | declaration _ => exact List.subset_cons_self _ _
  | _ => exact List.Subset.refl _

mutual

/-- A declaration that is reached without passing another scope is one of the
scope's. What has been passed inside of the scope is `before`, and no scope is
in it. -/
theorem mem_declarationsOf_of_spot {around before : List (Nat × Shape)} {y : Spot}
    (hno : ∀ z ∈ before, z.2.isScope = false) (hy : y.shape.isDeclaration = true) (n : Nat) :
    (s : Shape) → y ∈ spotsFrom around n s → y.around = before ++ around →
      y.shape ∈ declarationsOf s
  | .node label e parts, hmem, hbefore => by
    rw [spotsFrom, List.mem_cons] at hmem
    rcases hmem with rfl | hmem
    · cases label with
      | declaration _ => exact List.mem_cons_self
      | _ => exact absurd hy (by simp [Shape.isDeclaration, Shape.label])
    · obtain ⟨inner, hinner⟩ := suffix_around_spotsOfAllFrom (n + 1) parts hmem
      -- the shape itself was passed, so that it is no scope
      have hsplit : before = inner ++ [(n, .node label e parts)] := by
        rw [← List.append_cancel_right_eq _ around, ← hbefore, ← hinner, List.append_assoc]
        rfl
      refine declarationsOfAll_subset (hno (n, .node label e parts) (by rw [hsplit]; simp)) ?_
      exact mem_declarationsOfAll_of_spot
        (fun z hz => hno z (by rw [hsplit]; exact List.mem_append_left _ hz)) hy (n + 1) parts hmem
        hinner.symm

theorem mem_declarationsOfAll_of_spot {around before : List (Nat × Shape)} {y : Spot}
    (hno : ∀ z ∈ before, z.2.isScope = false) (hy : y.shape.isDeclaration = true) (n : Nat) :
    (ss : List Shape) → y ∈ spotsOfAllFrom around n ss → y.around = before ++ around →
      y.shape ∈ declarationsOfAll ss
  | [], hmem, _ => absurd hmem (by simp [spotsOfAllFrom])
  | s :: ss, hmem, hbefore => by
    rw [spotsOfAllFrom, List.mem_append] at hmem
    rw [declarationsOfAll, List.mem_append]
    rcases hmem with hmem | hmem
    · exact .inl (mem_declarationsOf_of_spot hno hy n s hmem hbefore)
    · exact .inr (mem_declarationsOfAll_of_spot hno hy (n + s.size) ss hmem hbefore)

end

mutual

/-- A declaration of the scope has a spot that is reached without passing
another scope. -/
theorem exists_spot_of_mem_declarationsOf {sh : Shape} (around : List (Nat × Shape)) (n : Nat) :
    (s : Shape) → sh ∈ declarationsOf s → ∃ y ∈ spotsFrom around n s, y.shape = sh ∧
      ∃ before, y.around = before ++ around ∧ ∀ z ∈ before, z.2.isScope = false
  | .node label e parts, hsh => by
    -- a scope keeps its declarations to itself, so that nothing is found below
    -- it
    by_cases hscope : (Shape.node label e parts).isScope = true
    · cases label with
      | scope _ _ => exact absurd hsh (by simp [declarationsOf])
      | _ => exact absurd hscope (by simp [Shape.isScope, Shape.label])
    · have hdeeper : sh ∈ declarationsOfAll parts → _ := fun hparts =>
        exists_spot_of_mem_declarationsOfAll ((n, .node label e parts) :: around) (n + 1) parts
          hparts
      -- the declaration is inside of this one, or it is this one
      by_cases hparts : sh ∈ declarationsOfAll parts
      · obtain ⟨y, hy, rfl, before, hbefore, hno⟩ := hdeeper hparts
        refine ⟨y, by rw [spotsFrom]; exact List.mem_cons_of_mem _ hy, rfl,
          before ++ [(n, .node label e parts)], by rw [hbefore, List.append_assoc]; rfl, ?_⟩
        intro z hz
        rcases List.mem_append.mp hz with hz | hz
        · exact hno z hz
        · rw [List.mem_singleton.mp hz]
          simpa using hscope
      · refine ⟨⟨n, .node label e parts, around⟩, by rw [spotsFrom]; exact List.mem_cons_self, ?_,
          [], rfl, by simp⟩
        cases label with
        | declaration _ => exact ((List.mem_cons.mp hsh).resolve_right hparts).symm
        | scope _ _ => exact absurd rfl hscope
        | _ => exact absurd hsh hparts

theorem exists_spot_of_mem_declarationsOfAll {sh : Shape} (around : List (Nat × Shape)) (n : Nat) :
    (ss : List Shape) → sh ∈ declarationsOfAll ss → ∃ y ∈ spotsOfAllFrom around n ss, y.shape = sh ∧
      ∃ before, y.around = before ++ around ∧ ∀ z ∈ before, z.2.isScope = false
  | [], hsh => absurd hsh (by simp [declarationsOfAll])
  | s :: ss, hsh => by
    rw [declarationsOfAll, List.mem_append] at hsh
    rw [spotsOfAllFrom]
    rcases hsh with hsh | hsh
    · obtain ⟨y, hy, hrest⟩ := exists_spot_of_mem_declarationsOf around n s hsh
      exact ⟨y, List.mem_append_left _ hy, hrest⟩
    · obtain ⟨y, hy, hrest⟩ := exists_spot_of_mem_declarationsOfAll around (n + s.size) ss hsh
      exact ⟨y, List.mem_append_right _ hy, hrest⟩

end

/-! ## The scope of a declaration

With both directions a scope and its declarations can be told from the outline
or from the source, whichever is at hand. The first is what attribution works
with, and the second is what the rules of scoping say. -/

section Scope

variable {d : Text.Document} {j : Nat} {sh : Shape} {rest : List (Nat × Shape)}

/-- **On the way up from a declaration, the first scope is one that it belongs
to.** Only the module has no scope around it, and the module is no
declaration. -/
theorem mem_declarations_of_enclosingScope {t : Tree} {y : Spot} (hy : y ∈ spots (moduleShape t))
    (hdeclaration : y.shape.isDeclaration = true)
    (hscope : ⟨j, sh, rest⟩ ∈ spots (moduleShape t))
    (h : (ofModule d t).enclosingScope y.number = j) :
    y.shape ∈ declarationsOfAll sh.parts := by
  -- the module is around the declaration, so that there is a scope on the way
  -- up
  have hmodule : (0, moduleShape t) ∈ y.around.filter (·.2.isScope) := by
    rw [spots, spotsFrom_eq, List.mem_cons] at hy
    rcases hy with rfl | hy
    · exact absurd hdeclaration (by simp [moduleShape, Shape.isDeclaration, Shape.label])
    · exact List.mem_filter.mpr
        ⟨(suffix_around_spotsOfAllFrom 1 _ hy).mem List.mem_cons_self, rfl⟩
  rw [enclosingScope, enclosingScopes_number hy] at h
  -- the first scope on the way up, with what was passed before
  cases hscopes : y.around.filter (·.2.isScope) with
  | nil =>
    rw [hscopes] at hmodule
    exact absurd hmodule (by simp)
  | cons first scopes =>
    obtain ⟨j', sh'⟩ := first
    rw [hscopes] at h
    obtain rfl : j' = j := h
    obtain ⟨before, rest', haround, hno, -, -⟩ := List.filter_eq_cons_iff.mp hscopes
    obtain ⟨hmem, hin⟩ := mem_of_around hy haround
    -- a number has one spot, so that this is the scope that was asked for
    obtain ⟨-, rfl, rfl⟩ := Spot.mk.inj (eq_of_number_eq hmem hscope rfl)
    exact mem_declarationsOfAll_of_spot (fun z hz => by simpa using hno z hz) hdeclaration _ _ hin
      haround

/-- **A declaration that belongs to a scope has a node, and on the way up from
there the scope comes first.** The shapes between the two are no scopes, for a
declaration inside of another scope would belong to that one. -/
theorem exists_spot_of_mem_declarations {s shd : Shape} (hscope : ⟨j, sh, rest⟩ ∈ spots s)
    (hisScope : sh.isScope = true) (h : shd ∈ declarationsOfAll sh.parts) :
    ∃ y ∈ spots s, y.shape = shd ∧ (ofShape d s).enclosingScope y.number = j := by
  obtain ⟨y, hy, hshape, before, haround, hno⟩ :=
    exists_spot_of_mem_declarationsOfAll ((j, sh) :: rest) (j + 1) sh.parts h
  have hmem : y ∈ spots s := mem_of_part_spotsFrom 0 s hscope hy
  refine ⟨y, hmem, hshape, ?_⟩
  have hbefore : before.filter (·.2.isScope) = [] :=
    List.filter_eq_nil_iff.mpr fun z hz => by simp [hno z hz]
  rw [enclosingScope, enclosingScopes_number hmem, haround, List.filter_append, hbefore,
    List.nil_append, List.filter_cons_of_pos (by exact hisScope)]
  rfl

end Scope

end LocaleKeys.Outline
