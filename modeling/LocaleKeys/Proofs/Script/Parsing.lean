/-
What is noted of a text that parses.

Every phrase writes what it answers, however deep it is nested
(`sound_readPhrase`): a phrase is read by its rule, and the rule asks only for
phrases that are nested one level deeper. So what is noted of a module stands
in its text in a row, in the order in which its syntax has it
(`row_parseModule`), and so do its literals (`runs_parseModule`).
-/
import LocaleKeys.Proofs.Script.Grammar.Modules
import LocaleKeys.Script.Parse

set_option autoImplicit false

namespace LocaleKeys.Script

open LocaleKeys.Text

variable {text : List Char}

/-- Each phrase is read by a rule that writes what it answers, if what it asks
for does. -/
theorem Phrase.writes (p : Phrase) : Rule.Writes text p.given p.rule Tree.stretches := by
  cases p with
  | operators left least => exact Rule.writes_operatorsRule left least
  | assigned lo left =>
    refine .noted (p := lo) (.behind_cons (.nil _)) fun _ => ?_
    exact (Rule.writes_assignedRule left).of_drawn (.besides (.refl _))
  | _ =>
    dsimp only [Phrase.rule]
    exact Rule.Writes.last

/-- **Every phrase writes what it answers**, however deep requests may nest.
The induction is on that depth: a phrase may ask for phrases, and those are
read with one request less to spend. -/
theorem sound_readPhrase (dialect : Dialect) (depth : Nat) (context : Context) :
    Environment.Sound text
      ⟨dialect, byteCount text, context, fun p c => readPhrase dialect (byteCount text) depth p c⟩ := by
  induction depth generalizing context with
  | zero => exact ⟨rfl, fun p _ c n hc => ⟨hc.sound, hc.row.le⟩⟩
  | succ depth ih =>
    refine ⟨rfl, ?_⟩
    intro p context' c n hc
    exact p.writes _ (ih context') c n hc

/-- **What is noted of a text stands in a row**, in the order in which its
syntax has it. This is what the analysis of literals rests on, and all that it
uses of the parser. -/
theorem row_parseModule {dialect : Dialect} {t : Tree} (h : parseModule dialect text = .ok t) :
    Row text 0 t.stretches (byteCount text) := by
  have hstart : At text 0 [] (Cursor.start text) := ⟨Cursor.sound_start text, Nat.zero_le _⟩
  have hitems : Rule.Writes text [] Rule.moduleItems Tree.stretchesAll := Rule.Writes.last
  have hread := hitems _ (sound_readPhrase dialect (depthFor (byteCount text)) {}) _ _ hstart
  rw [parseModule] at h
  split at h
  · rename_i items c hresult
    rw [hresult] at hread
    obtain ⟨hsound, hrow⟩ := hread
    obtain rfl := Except.ok.inj h
    have hle : c.previous ≤ byteCount text := Nat.le_trans hsound.previous_le hsound.isBetween.le
    -- the place where a module begins is looked up in the cursor that reading
    -- began with
    have hlo : IsBetween text (if (Cursor.start text).previous == 0 then (Cursor.start text).lo else 0) := by
      split
      · exact hstart.sound.isBetween
      · exact ⟨text, stands_self text⟩
    rw [Tree.stretches_compound _ _ (by decide) (by decide) (by simp)]
    -- a module begins at its first token, unless nothing was read and the end
    -- of what is in front comes before
    refine ⟨0, ⟨Nat.le_refl 0, ?_⟩, hrow.widen (Nat.le_refl 0) hle⟩
    generalize (if (Cursor.start text).previous == 0 then (Cursor.start text).lo else 0) = lo at hlo ⊢
    rcases Nat.le_total lo c.previous with hmin | hmin
    · rw [Nat.min_eq_left hmin]
      exact hlo
    · rw [Nat.min_eq_right hmin]
      exact hsound.previous_isBetween
  · exact absurd h (by simp)

/-- **The literals of a text stand one behind the other**, in the order in
which its syntax has them. Of a row, only the literals are kept. -/
theorem runs_parseModule {dialect : Dialect} {t : Tree} (h : parseModule dialect text = .ok t) :
    Runs text 0 t.literals (byteCount text) := by
  rw [Tree.literals_eq.1 t]
  exact (row_parseModule h).runs

end LocaleKeys.Script
