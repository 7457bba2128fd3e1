/-
What classes and elements write.

A class and a field are listed in another order than that in which they are
written, and so is the opening tag of an element. Their arrangements say how
they are written.
-/
import LocaleKeys.Proofs.Script.Grammar.Functions
import LocaleKeys.Script.Grammar.Element

set_option autoImplicit false

namespace LocaleKeys.Script.Rule

open LocaleKeys.Text
open Writes

variable {text : List Char} {α β : Type} {es : List Stretch} {k : α → List Stretch} {l : β → List Stretch}
-- a rule that is told where a tree begins is told a place between characters
variable {lo : Nat} [Fact (IsBetween text lo)]

/-! ## Members

A member is a method, a field, an accessor, a constructor or a block, and which
of these it is shows late: each word in front may be a modifier, or else the
name of the member. So rules are tried, and the name is handed on to the rule
that goes on with it. The value of a field is listed in front of its type and
written behind it, as its arrangement says. -/

instance : Reads text classMemberName Tree.stretches := ⟨pass fun _ => either last last⟩

instance : Silent text atMethod := ⟨pass fun _ => either last (pass fun _ => either last last)⟩

instance (orBreak : Bool) : Silent text (atField orBreak) :=
  ⟨pass fun _ => pass fun _ => either last (pass fun _ => either last (either last last))⟩

/-- A field, with its decorators and its name. -/
theorem writes_fieldFrom {before : List Tree} {key : Tree}
    (h : Drawn text (Tree.stretchesAll before ++ key.stretches) es) :
    Writes text es (fieldFrom lo before key) Tree.stretches := by
  refine of_drawn (refused (pass fun _ => ?_)) h
  extract_lets inField rest
  have hrest : Writes text (Tree.stretchesAll before ++ key.stretches) (rest ()) Tree.stretches := by
    refine step fun types => pass fun _ => optional fun value => pass fun _ => located fun e _ => pure ?_
    refine Tree.drawn_compound_arranged e (by decide) (by decide) (by simp) ?_
    simp [Tree.writtenOrder, List.range_succ]
  exact either (pass fun _ => hrest) hrest

/-- A method is listed with its key first; its decorators are written in front
of that. -/
theorem stretches_method_toTree (e : Extent) [Fact (IsBetween text e.lo)] (key : Tree) (tail : FunctionTail)
    (before : List Tree) : Drawn text (Tree.compound .method e [key, tail.toTree before]).stretches
      (Tree.stretchesAll before ++ key.stretches ++ tail.stretches) := by
  rw [FunctionTail.toTree, Tree.stretches_method, FunctionTail.stretches]
  simp only [List.cons_append, List.append_assoc, Drawn.origin_cons_iff]
  refine .known (by simp [Stretch.begin?]) (.behind (.behind (.besides (.besides ?_))))
  simp

/-- A method, with its decorators and its name. -/
theorem writes_methodFrom {before : List Tree} {key : Tree} {async generator : Bool}
    (h : Drawn text (Tree.stretchesAll before ++ key.stretches) es) :
    Writes text es (methodFrom lo before key async generator) Tree.stretches :=
  of_drawn (step fun tail => located fun _ _ => pure (stretches_method_toTree _ key tail before)) h

instance : Reads text constructorParameter Tree.stretches := ⟨by
  refine located fun lo _ => step fun before => pass fun _ => either ?_ ?_
  · refine step fun target => ((writes_restFrom (Drawn.refl _)).frame _).bind fun collects => ?_
    exact begun (.append_right _ _) fun _ => pure (by simp)
  · refine pass fun access => pass fun overrides => pass fun readOnly => step fun inner => ?_
    -- words in front of a parameter make a field of it, and the wrapper says
    -- so
    have hdecorated : Writes text ([] ++ Tree.stretchesAll before ++ inner.stretches)
        (extentFrom lo >>= fun e => Pure.pure (Tree.wrapped .decoration e before inner [])) Tree.stretches :=
      located fun _ _ => pure (by simp)
    refine either ?_ (either (pure (by simp)) hdecorated)
    split
    · exact hdecorated
    · exact hdecorated
    · exact hdecorated
    · exact stop⟩

instance : Reads text (constructorFrom lo) Tree.stretches := ⟨by
  refine Writes.within (step fun types => pass fun _ => step fun parameters => step fun result => ?_) _
  exact step fun body => located fun _ _ => pure (by simp)⟩

instance : Reads text staticBlock Tree.stretches := ⟨last.within _⟩

instance (key : Tree) : Silent text (isAccessorWord key) := ⟨by
  unfold isAccessorWord
  split
  · exact either (pass fun _ => either last (pass fun _ => pass fun _ => last)) last
  · exact last⟩

instance (key : Tree) : Silent text (isAsyncWord key) := ⟨by
  unfold isAsyncWord
  split
  · exact pass fun _ => last
  · exact last⟩

/-- A member behind its modifiers. -/
theorem writes_namedMember {before : List Tree} {readOnly : Bool} :
    Writes text (Tree.stretchesAll before) (namedMember lo before readOnly) Tree.stretches := by
  refine pass fun _ => either ?_ ?_
  · exact step fun key => writes_methodFrom (Drawn.refl _)
  · refine step fun key => pass fun _ => pass fun _ => either ?_ (pass fun _ => pass fun _ => either ?_ ?_)
    · exact refused (either last (writes_methodFrom (Drawn.refl _)))
    · exact writes_fieldFrom (Drawn.refl _)
    · refine pass fun _ => either ?_ (either ?_ stop)
      · refine pass fun _ => pass fun _ => step fun key' => refused (refused (pass fun _ => ?_))
        exact writes_methodFrom (by simp)
      · exact step fun key' => writes_methodFrom (by simp)

/-- A member of which a modifier was the name, if it was. -/
theorem writes_memberNamed? {before : List Tree} {key : Tree} {orBreak : Bool} :
    Writes text (Tree.stretchesAll before ++ key.stretches) (memberNamed? lo before key orBreak)
      fun member => member.elim (Tree.stretchesAll before) Tree.stretches := by
  refine pass fun _ => either ?_ ?_
  · exact (writes_methodFrom (Drawn.refl _)).bind fun _ => pure (Drawn.refl _)
  · refine pass fun _ => ?_
    extract_lets rest
    -- a question mark may stand behind the name, and nothing is noted of it
    have hrest (optional : Bool) : Writes text (Tree.stretchesAll before ++ key.stretches) (rest optional)
        fun member => member.elim (Tree.stretchesAll before) Tree.stretches := by
      refine pass fun _ => either ?_ (pure (.append_left _ _))
      exact (writes_fieldFrom (Drawn.refl _)).bind fun _ => pure (Drawn.refl _)
    exact either (pass hrest) (known (hrest _))

/-- A modifier may turn out to be the name of a member. -/
theorem writes_named {before : List Tree} {key : Tree} {orBreak : Bool} {f : Option Tree → Rule Tree}
    (hsome : ∀ member, f (some member) = Pure.pure member)
    (hnone : Writes text (Tree.stretchesAll before) (f none) Tree.stretches) :
    Writes text (Tree.stretchesAll before ++ Tree.stretchesAll (some key).toList)
      (memberNamed? lo before key orBreak >>= f) Tree.stretches := by
  refine of_drawn (writes_memberNamed?.bind fun member => ?_) (by simp)
  cases member with
  | none => exact hnone
  | some member =>
    rw [hsome]
    exact pure (Drawn.refl _)

instance : Reads text classMember Tree.stretches := ⟨by
  refine located fun lo _ => pass fun typed => step fun before => ?_
  extract_lets word named
  have hword (w : String) : Reads text (word w) fun key => Tree.stretchesAll key.toList := ⟨by
    refine located fun _ _ => pass fun b => pure ?_
    cases b <;> simp⟩
  -- the words in front of a member are read one by one, and each of them may
  -- turn out to be its name
  have hnamed (declared : Option Tree) : Writes text (Tree.stretchesAll before ++ Tree.stretchesAll declared.toList)
      (named declared) Tree.stretches := by
    refine pass fun access => ?_
    extract_lets behindDeclare declared
    have hbehindDeclare : Writes text (Tree.stretchesAll before) (behindDeclare ()) Tree.stretches := by
      refine step fun static => ?_
      extract_lets behindStatic
      have hbehindStatic : Writes text (Tree.stretchesAll before) (behindStatic ()) Tree.stretches := by
        refine pass (h := silent_iterate fun done => ?_) fun modifiers => ?_
        · refine pass fun _ => pass fun _ => either last (pass fun w => ?_)
          cases w <;> exact last
        · refine bind (k := fun key => Tree.stretchesAll before ++ Tree.stretchesAll key.toList)
            (either ?_ (pure (by simp))) fun key => ?_
          · have h := (hword "accessor").writes.frame (Tree.stretchesAll before)
            rw [List.append_nil] at h
            exact h
          · extract_lets mayBeIndex unnamed
            have hunnamed : Writes text (Tree.stretchesAll before) (unnamed ()) Tree.stretches := by
              refine pass fun _ => either last (pass fun _ => pass fun _ => either (pass fun _ => last) ?_)
              exact pass fun _ => either last writes_namedMember
            cases key with
            | none => exact hunnamed.of_drawn (by simp)
            | some key => exact writes_named (fun _ => rfl) hunnamed
      cases static with
      | none => exact hbehindStatic.of_drawn (by simp)
      | some key => exact writes_named (fun _ => rfl) hbehindStatic
    have hdeclared (key : Option Tree) : Writes text (Tree.stretchesAll before ++ Tree.stretchesAll key.toList)
        (declared key) Tree.stretches := by
      cases key with
      | none => exact hbehindDeclare.of_drawn (by simp)
      | some key => exact writes_named (fun _ => rfl) hbehindDeclare
    refine either (step fun key => (hdeclared key).of_drawn (by simp)) (known (hdeclared _))
  exact either (step hnamed) (known ((hnamed none).of_drawn (by simp)))⟩

/-! ## Classes

The parent stands in front of the members and is listed behind them. It is read
as the left side of an expression and given types, both of which may hold
calls. -/

instance : Reads text superclass fun answer => answer.1.stretches ++ Tree.stretchesAll answer.2 := ⟨by
  refine step fun parent => ?_
  split
  · exact pure (by simp)
  · refine pass fun _ => pass fun _ => optionalAll fun types => pure (by simp)⟩

instance : Reads text heritage Tree.stretchesAll := inferInstanceAs (Reads text (separatedBefore _ _) _)

/-- What stands between the name of a class and its brace. -/
def Heritage.stretches (h : Heritage) : List Stretch :=
  if h.isBehind then Tree.stretchesAll h.promised ++ Tree.stretchesAll h.parent ++ Tree.stretchesAll h.types
  else Tree.stretchesAll h.parent ++ Tree.stretchesAll h.types ++ Tree.stretchesAll h.promised

instance : Reads text classHeritage Heritage.stretches := ⟨by
  refine pass fun typed => ?_
  extract_lets parent? promised?
  -- parents and promises may come in either order, and each may be missing
  have hparent : Reads text parent? fun answer => Tree.stretchesAll answer.1 ++ Tree.stretchesAll answer.2 :=
    ⟨pass fun _ => either (step fun _ => pure (by simp)) (pure (by simp))⟩
  have hpromised : Reads text promised? Tree.stretchesAll :=
    ⟨either (pass fun _ => either last (pure (by simp))) (pure (by simp))⟩
  refine step fun first => ?_
  extract_lets rest
  have hrest : Writes text (Tree.stretchesAll first.1 ++ Tree.stretchesAll first.2) (rest ()) Heritage.stretches := by
    refine forget fun _ => step fun promised => forget fun _ => step fun behind => either ?_ ?_
    · exact pure (by simp [Heritage.stretches])
    · exact pure (by simp [Heritage.stretches])
  exact either (pass fun _ => either (forget fun _ => hrest) hrest) hrest⟩

/-- A class, with its decorators in front. -/
theorem writes_classFrom {before : List Tree} {nameNeeded : Bool}
    (h : Drawn text (Tree.stretchesAll before) es) :
    Writes text es (classFrom lo before nameNeeded) Tree.stretches := by
  refine of_drawn (pass fun _ => pass fun _ => ?_) h
  extract_lets rest
  have hrest : Writes text (Tree.stretchesAll before) (rest ()) Tree.stretches := by
    refine step fun types => step fun heritage => pass fun _ => step (k := Tree.stretchesAll) (h := ?_) fun members => ?_
    · refine ⟨Writes.within (Reads.collect fun done => pass fun _ => either (pure (Drawn.refl _)) ?_).writes _⟩
      exact pass fun _ => either (pure (Drawn.refl _)) (step fun _ => pure (by simp))
    · refine pass fun _ => located fun extent _ => pure ?_
      refine Tree.drawn_compound_arranged extent (by decide) (by decide) (by simp) ?_
      -- the order in which parents and promises were written is part of the
      -- arrangement
      unfold Heritage.stretches
      cases heritage.isBehind
      all_goals simp [Tree.writtenOrder, List.range_succ]
  exact either (pass fun _ => forget fun _ => hrest) hrest

/-! ## Elements

Elements are read with a depth of their own, since their children are elements
again: `reads_elements` is by induction on it. Between tags the text is plain
and its tokens are read in another way, so cursors are moved by rules of their
own. A value of an attribute is in quotes and begins where its token did, but
the characters between are not escapes, so it spells nothing. -/

instance (plain : Bool) : Silent text (advanceIn plain) :=
  ⟨either (last (h := silent_of_moves fun _ c hc => ⟨(), c.advancePlain, rfl, hc.advancePlain, hc.previous_le_hi⟩))
    last⟩

instance (m : Mark) (plain : Bool) : Silent text (expectMarkIn m plain) := ⟨pass fun _ => either last last⟩

instance : Silent text elementWord := ⟨by
  refine get fun env henv c n hc => ?_
  generalize c.token = t
  split
  -- a name in a tag may hold hyphens, so that its token is read again from
  -- where it begins
  · extract_lets isPart word stop
    have hsteady : (c.reread ⟨.word (String.ofList word), stop, c.here.drop word.length⟩).Steady text :=
      hc.sound.reread (.plain ⟨stands_dropWhile isPart hc.sound.stands, Nat.le_add_right _ _⟩ rfl (by simp))
    have hword : Writes text [] (advance >>= fun _ => Pure.pure (String.ofList word)) fun _ => [] := pass fun _ => last
    exact hword env henv _ n ⟨hsteady.sound rfl, hc.row⟩
  · exact (stop : Writes text _ _ _) env henv c n hc⟩

instance : Silent text elementName :=
  ⟨pass fun _ => pass fun _ => either (pass fun _ => last) (pass fun _ => last)⟩

/-- Seen as a quoted text, the token begins where it did, and nothing in front
of it has changed. -/
theorem sound_rereadQuoted {c : Cursor} (hc : c.Sound text) {quote : Char} (hquote : quote.utf8Size = 1)
    {r : List Char} (hhere : c.here = quote :: r) :
    (rereadQuoted.reread c quote r).Sound text ∧ c.previous ≤ (rereadQuoted.reread c quote r).previous := by
  unfold rereadQuoted.reread
  split
  · exact ⟨hc, Nat.le_refl _⟩
  · have hstands := hc.stands
    rw [hhere] at hstands
    obtain ⟨hend, hle⟩ := Cursor.stands_quotedEnd hquote (Stands.tail_narrow hstands hquote)
    have hfits : Lexeme.Fits text c.begins c.here
        ⟨.text none, (quotedEnd quote (c.begins + 1) r).1, (quotedEnd quote (c.begins + 1) r).2⟩ :=
      ⟨⟨hend, Nat.le_of_succ_le hle⟩, fun _ => hle, by simp⟩
    exact ⟨(hc.reread hfits).sound rfl, Nat.le_refl _⟩

instance : Silent text rereadQuoted := silent_of_moves fun env c hc => by
  refine ⟨(), _, rfl, ?_⟩
  dsimp only
  split
  · exact sound_rereadQuoted hc (by decide) ‹_›
  · exact sound_rereadQuoted hc (by decide) ‹_›
  · exact ⟨hc, Nat.le_refl _⟩

instance : Reads text elementBraces Tree.stretchesAll := ⟨by
  refine pass fun _ => pass fun _ => ?_
  extract_lets rest
  have hrest (parts : List Tree) : Writes text (Tree.stretchesAll parts) (rest parts) Tree.stretchesAll :=
    pass fun _ => pure (Drawn.refl _)
  refine either (known (hrest [])) (pass fun _ => step fun _ => known ((hrest _).of_drawn (by simp)))⟩

instance : Reads text attributeBraces Tree.stretchesAll :=
  ⟨pass fun _ => pass fun _ => pass fun _ => refused (step fun _ => pass fun _ => pure (by simp))⟩

instance : Reads text attributeValue Tree.stretchesAll := ⟨by
  refine pass fun _ => pass fun t => ?_
  split
  · exact pass fun _ => pure (by simp)
  · exact last
  · exact step fun _ => pure (by simp)
  · exact stop⟩

instance : Reads text attributes Tree.stretchesAll := .iterate Tree.stretchesAll rfl fun done => by
  refine pass fun _ => pass fun _ => either (pure (Drawn.refl _)) (pass fun _ => either ?_ (pass fun _ => ?_))
  · exact pass fun _ => step fun value => pass fun _ => pure (by simp)
  · refine pass fun _ => ?_
    extract_lets rest
    have hrest : Writes text (Tree.stretchesAll done) (rest ()) (Sum.elim Tree.stretchesAll Tree.stretchesAll) :=
      pass fun _ => either (step fun _ => pure (by simp)) (pure (Drawn.refl _))
    exact either (pass fun _ => hrest) hrest

instance (plain : Bool) : Silent text (closeTag plain) := ⟨pass fun _ => last⟩

/-- A tag keeps the types that were given and the attributes, in this order. -/
theorem writes_tagFrom {given types : List Tree}
    (h : Drawn text (Tree.stretchesAll types ++ Tree.stretchesAll given) es) :
    Writes text es (tagFrom lo given types) Tree.stretches :=
  of_drawn (located fun e _ => pure (Tree.drawn_arranged e (by simp [Tree.writtenOrder, List.range_succ]))) h

/-- An element that is made of parts has what they have. -/
theorem writes_elementOf {parts : List Tree} (h : Drawn text (Tree.stretchesAll parts) es) :
    Writes text es (elementOf lo parts) Tree.stretches :=
  located fun _ _ => pure (by simp [h])

/-- Children are read from elements that are nested less deeply, and elements
from their children. -/
theorem reads_elements (depth : Nat) :
    Reads text (elementChildren depth) Tree.stretchesAll ∧
      ∀ plain, Reads text (elementFrom depth plain) Tree.stretches := by
  -- a child is read one level deeper, and at no depth the rule fails
  induction depth with
  | zero => exact ⟨⟨stop (r := failHere _)⟩, fun _ => ⟨stop (r := failHere _)⟩⟩
  | succ depth ih =>
    obtain ⟨hchildren, helement⟩ := ih
    constructor
    -- a child may be an element, an expression in braces or plain text
    · refine .iterate Tree.stretchesAll rfl fun done => step (k := fun child => Tree.stretchesAll (child.getD []))
        (h := ⟨tryCatch (pass fun t => ?_) fun _ => pure (by simp)⟩) fun child => ?_
      · split
        · exact step fun _ => pure (by simp)
        · exact step fun _ => pure (by simp)
        · exact pure (by simp)
      · cases child with
        | none => exact pure (by simp)
        | some trees => exact pure (by simp)
    -- an element may be without a name; with one, it may close itself or have
    -- children
    · intro plain
      refine ⟨located fun lo _ => pass fun _ => pass fun _ => pass fun _ => either ?_ ?_⟩
      · exact pass fun _ => step fun _ => pass fun _ => pass fun _ => writes_elementOf (by simp)
      · refine pass fun name => pass fun _ => optionalAll fun types => step fun given => pass fun _ => either ?_ ?_
        · exact pass fun _ => (writes_tagFrom (Drawn.refl _)).bind fun tag => writes_elementOf (by simp)
        · refine pass fun _ => pass fun _ => step fun children => pass fun _ => pass fun _ => pass fun _ => ?_
          refine pass fun _ => refused (pass fun closing => pass fun _ => refused ?_)
          refine bind (k := fun tag => tag.stretches ++ Tree.stretchesAll children) (located fun e _ => pure ?_)
            fun tag => writes_elementOf (by simp)
          refine .front (Tree.drawn_arranged e ?_)
          simp [Tree.writtenOrder, List.range_succ]

instance : Silent text atElement := ⟨by
  refine pass fun _ => pass fun _ => either (pass fun t => ?_) last
  split
  all_goals exact last⟩

instance : Reads text element Tree.stretches := ⟨pass fun _ => last (h := (reads_elements _).2 _)⟩

end LocaleKeys.Script.Rule
