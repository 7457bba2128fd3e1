/-
What types write.

A type keeps what may hold a call, in the order in which it is written. Only a
signature lists its own parameters of types last, and its arrangement says so.
-/
import LocaleKeys.Proofs.Script.Writing
import LocaleKeys.Script.Grammar.Type

set_option autoImplicit false

namespace LocaleKeys.Script.Rule

open LocaleKeys.Text
open Writes

variable {text : List Char} {α β : Type} {es : List Stretch} {k : α → List Stretch} {l : β → List Stretch}
-- a rule that is told where a tree begins is told a place between characters
variable {lo : Nat} [Fact (IsBetween text lo)]

/-! ## Angles

A type may hold a call in a computed name or in the type of an expression, so
that its stretches count like any others. Angle brackets have to be cut out of
longer marks first: `>>` is two of them where a type ends. The cursor stands
within a mark then, which is why `Lexeme.Fits` keeps that marks begin with a
narrow character. -/

/-- A type that is made of parts has what they have. -/
theorem writes_typeFrom {parts : List Tree} (h : Drawn text (Tree.stretchesAll parts) es) :
    Writes text es (typeFrom lo parts) Tree.stretches :=
  located fun _ _ => pure (by simpa using h)

/-- That tokens are read as in a type does not change what is noted. -/
theorem writes_inType {r : Rule α} (hr : Writes text es r k) : Writes text es (inType r) k := hr.within _

instance (r : Rule α) [Reads text r k] : Reads text (inType r) k := ⟨writes_inType last⟩

instance : Silent text atReference := ⟨pass fun _ => last⟩

instance : Silent text atLess := inferInstanceAs (Silent text (isAnyMark _))

instance : Silent text atGreater := inferInstanceAs (Silent text (isAnyMark _))

/-- Where one of some marks is seen, the token is a mark. -/
theorem isAnyMark_cases (ms : List Mark) (env : Environment) (c : Cursor) :
    (∃ m, c.token = .mark m ∧ isAnyMark ms env c = .ok true c) ∨ isAnyMark ms env c = .ok false c := by
  obtain ⟨t, lo, begins, hi, here, rest, afterBreak, previous, arrowStart⟩ := c
  -- a token that is no mark is none of them
  cases t with
  | mark m =>
    have hread : isAnyMark ms env ⟨.mark m, lo, begins, hi, here, rest, afterBreak, previous, arrowStart⟩
        = .ok (ms.contains m) ⟨.mark m, lo, begins, hi, here, rest, afterBreak, previous, arrowStart⟩ := rfl
    rw [hread]
    cases ms.contains m
    · exact .inr rfl
    · exact .inl ⟨m, rfl, rfl⟩
  | _ => exact .inr rfl

/-- A mark begins with a narrow character, so the rest of it stands behind
that. -/
theorem sound_splitMark {c : Cursor} (hc : c.Sound text) {m : Mark} (hm : c.token = .mark m) (m' : Mark) :
    (c.reread ⟨.mark m', c.begins + 1, c.here.drop 1⟩).Sound text := by
  -- the first character of a mark takes one byte, so the second stands one
  -- place further on
  have hnarrow := (hc.fits.marked m hm).1
  have hfits : Lexeme.Fits text c.begins c.here ⟨.mark m', c.begins + 1, c.here.drop 1⟩ :=
    ⟨⟨hnarrow.stands hc.stands, Nat.le_add_right _ 1⟩, by simp [Token.isQuoted],
      fun _ _ => ⟨hnarrow, Nat.lt_succ_self c.begins⟩⟩
  exact (hc.reread hfits).sound rfl

/-- One of some marks is seen as its first character alone, before the rule
goes on. -/
theorem Writes.split {ms : List Mark} {m : Mark} {g : Unit → Rule β} (hg : Writes text es (g ()) l) :
    Writes text es (isAnyMark ms >>= fun b => if b = true then splitMark m >>= g else g ()) l := by
  intro env henv c n hc
  change Answers text n l (EStateM.bind (isAnyMark ms env)
    (fun b => (if b = true then splitMark m >>= g else g ()) env) c)
  unfold EStateM.bind
  rcases isAnyMark_cases ms env c with ⟨m', hm, hread⟩ | hread
  · rw [hread]
    exact hg env henv (c.reread ⟨.mark m, c.begins + 1, c.here.drop 1⟩) n
      ⟨sound_splitMark hc.sound hm m, hc.row⟩
  · rw [hread]
    exact hg env henv c n hc

instance : Silent text splitGreater := ⟨by
  have h : Writes text [] (Pure.pure ()) fun _ => [] := last
  exact Writes.split (m := .greater) (g := Pure.pure) h⟩

instance : Silent text expectLess := ⟨split last⟩

instance : Silent text expectGreater := ⟨pass fun _ => last⟩

/-- Parts between commas, up to a sign that closes them. -/
theorem writes_separatedBefore {atClose : Rule Bool} {item : Rule α} [Silent text atClose] [Reads text item k] :
    Writes text [] (separatedBefore atClose item) fun done => done.flatMap k := by
  refine (Reads.iterate (fun done : List α => done.reverse.flatMap k) rfl fun done => ?_).writes
  refine pass fun _ => either (pure (Drawn.refl _)) (step fun a => pass fun _ => ?_)
  have hnext : Writes text (done.reverse.flatMap k ++ k a) (Pure.pure (.inl (a :: done)))
      (Sum.elim (fun done : List α => done.reverse.flatMap k) fun done : List α => done.flatMap k) :=
    pure (by simp)
  exact either hnext (pass fun _ => supplied fun _ => hnext)

instance {atClose : Rule Bool} {item : Rule Tree} [Silent text atClose] [Reads text item Tree.stretches] :
    Reads text (separatedBefore atClose item) Tree.stretchesAll :=
  ⟨writes_separatedBefore.mono fun _ => by simp⟩

instance : Reads text openTypeArguments Tree.stretchesAll := ⟨writes_inType (pass fun _ => last)⟩

instance : Reads text typeArguments Tree.stretchesAll :=
  ⟨step fun _ => pass fun _ => pass fun _ => either (pass fun _ => pure (by simp)) (pure (by simp))⟩

instance : Reads text typeArguments? Tree.stretchesAll := ⟨pass fun _ => either last (pure (by simp))⟩

instance : Reads text typesBehindExpression Tree.stretchesAll := ⟨step fun _ => pass fun _ => pure (by simp)⟩

/-! ## Modifiers

Words that may be modifiers are passed over if what follows makes them one.
Nothing is noted of words, and where one turns out to be a name, the cursor is
put back. -/

instance : Silent text modifierFollows := ⟨by
  refine pass fun _ => either last (pass fun t => ?_)
  split
  all_goals exact last⟩

instance (words : List String) : Silent text (takeModifier words) := ⟨by
  refine pass fun _ => either (pass fun t => ?_) last
  split
  · exact stop
  · exact either (putBack last last) last
  · exact last⟩

instance : Silent text takeParameterModifier := ⟨by
  refine pass fun _ => either (pass fun t => pass fun t' => ?_) last
  split
  all_goals exact last⟩

/-! ## Annotations

The type behind a colon, and the parameters of types in angles. The parts that
may be missing contribute what they have. -/

instance : Reads text colonType Tree.stretches := ⟨writes_inType (pass fun _ => last)⟩

instance : Reads text colonType? Tree.stretchesAll :=
  ⟨pass fun _ => pass fun _ => either (step fun _ => pure (by simp)) (pure (by simp))⟩

/-- The type of a result may assert something of a parameter, whose name is
passed over. -/
instance (mark : Mark) : Reads text (resultType mark) Tree.stretches := ⟨by
  refine writes_inType (pass fun _ => needed (located fun lo _ => pass fun _ => ?_))
  refine decided fun asserts => skipped fun _ => pass fun _ => decided fun finds => either ?_ (either ?_ last)
  · exact pass fun _ => pass fun _ => step fun _ => writes_typeFrom (by simp)
  · exact step fun _ => writes_typeFrom (by simp)⟩

instance : Reads text typeParameter Tree.stretches := ⟨by
  refine located fun _ _ => pass fun _ => step fun _ => pass fun _ => ?_
  refine optional fun bound => pass fun _ => optional fun default => ?_
  exact writes_typeFrom (by simp)⟩

instance : Reads text typeParameters Tree.stretchesAll :=
  ⟨writes_inType (pass fun _ => needed (pass fun _ => step fun _ => pass fun _ => pure (by simp)))⟩

instance : Reads text typeParameters? Tree.stretchesAll :=
  ⟨pass fun _ => pass fun _ => either last (pure (by simp))⟩

/-! ## Parameters in signatures

A signature is the one type whose parts are listed in another order than they
are written: its own parameters of types come last. Its arrangement carries the
written order, by which the stretches are told. -/

instance : Reads text signatureParameters Tree.stretchesAll := by
  refine @Reads.separated _ _ _ ⟨?_⟩
  refine located fun _ _ => pass fun _ => pass fun rest => step fun target => pass fun _ => step fun types => ?_
  refine pass fun _ => refused (located fun _ _ => pure ?_)
  cases rest <;> simp

instance (mark : Mark) (resultNeeded : Bool) : Reads text (signature mark resultNeeded) Tree.stretches := ⟨by
  refine located fun _ _ => step fun types => pass fun _ => step fun parameters => pass fun _ => ?_
  have hend (lo : Nat) [Fact (IsBetween text lo)] (result : List Tree) : Writes text
      ([] ++ Tree.stretchesAll types ++ Tree.stretchesAll parameters ++ Tree.stretchesAll result)
      (extentFrom lo >>= fun e => Pure.pure (Tree.arranged e [2, 0, 1] [parameters, result, types]))
      Tree.stretches :=
    located fun e _ => pure (Tree.drawn_arranged e (by simp [Tree.writtenOrder, List.range_succ]))
  exact either (step fun r => known ((hend _ [r]).of_drawn (by simp))) (optional fun result => hend _ _)⟩

/-! ## Types of objects

Members are told apart by looking ahead, at an index signature or at an
accessor. A name in quotes is a literal and is noted as one; it leads no
arguments, since no parenthesis is noted in front of it. -/

theorem answers_text {n : Nat} {c : Cursor} {value : Literal} (h : At text n [] c) (htoken : c.token = .text value)
    (env : Environment) :
    Answers text n Tree.stretches ((advance >>= fun _ => Pure.pure (Tree.text ⟨c.lo, c.hi⟩ value)) env c) :=
  h.quoted (by rw [htoken]; rfl) (fun hspelled => by rw [htoken]; exact hspelled) env.context.inType

instance : Reads text propertyName Tree.stretches := ⟨by
  refine get fun env henv c n hc => ?_
  have : Fact (IsBetween text c.lo) := ⟨hc.sound.isBetween⟩
  have hname (name : String) : Writes text []
      (advance >>= fun _ => Pure.pure (Tree.name ⟨c.lo, c.hi⟩ name)) Tree.stretches :=
    pass fun _ => pure (by simp)
  have hnumber : Writes text []
      (advance >>= fun _ => Pure.pure (Tree.compound .literal ⟨c.lo, c.hi⟩ [])) Tree.stretches :=
    pass fun _ => pure (by simp)
  have hcomputed : Writes text [] (do
      advance
      let first ← enclosedAssignment
      let others ← if ← isTyped then manyWhile (takeMark .comma) enclosedAssignment else Pure.pure []
      expectMark .rightBracket
      return Tree.compound .computedKey (← extentFrom c.lo) (first :: others)) Tree.stretches :=
    pass fun _ => step fun _ => pass fun _ => optionalAll fun _ => pass fun _ => located fun _ _ => pure (by simp)
  generalize htoken : c.token = t
  split
  · exact hname _ env henv c n hc
  · exact hname _ env henv c n hc
  · exact answers_text hc htoken env
  · exact hnumber env henv c n hc
  · exact hnumber env henv c n hc
  · exact hcomputed env henv c n hc
  · exact (stop : Writes text _ _ _) env henv c n hc⟩

instance : Reads text privateName Tree.stretches :=
  ⟨located fun _ _ => pass fun _ => pass fun _ => refused (forget fun _ => located fun _ _ => pure (by simp))⟩

instance : Reads text signatureName Tree.stretches := ⟨by
  refine located fun _ _ => pass fun t => ?_
  split
  · exact pass fun _ => step fun _ => pass fun _ => located fun _ _ => pure (by simp)
  · exact last
  · exact last
  · exact last
  · exact last⟩

instance : Silent text expectMemberEnd := ⟨pass fun _ => either last last⟩

instance : Silent text atIndexSignature := ⟨pass fun _ => either (pass fun _ => pass fun _ => last) last⟩

instance : Reads text (indexSignature lo) Tree.stretches := ⟨by
  refine pass fun _ => forget fun _ => pass fun _ => supplied fun _ => step fun key => ?_
  exact pass fun _ => step fun value => pass fun _ => writes_typeFrom (by simp)⟩

instance : Reads text (accessorSignature lo) Tree.stretches := ⟨by
  refine pass fun getter => supplied fun _ => step fun key => pass fun _ => either ?_ ?_
  · exact pass fun _ => step fun result => pass fun _ => writes_typeFrom (by simp)
  · exact step fun parameters => refused (pass fun _ => writes_typeFrom (by simp))⟩

instance : Reads text typeMember Tree.stretches := ⟨by
  refine located fun lo _ => pass fun _ => ?_
  extract_lets rest
  have hsignature : Writes text [] (do
      let parts ← signature .colon false
      expectMemberEnd
      typeFrom lo [parts]) Tree.stretches :=
    step fun _ => pass fun _ => writes_typeFrom (by simp)
  have hrest : Writes text [] (rest ()) Tree.stretches := by
    refine pass fun _ => pass fun _ => either last ?_
    extract_lets named
    have hnamed : Writes text [] (named ()) Tree.stretches := by
      refine step fun key => pass fun _ => pass fun _ => either ?_ ?_
      · exact refused (step fun _ => pass fun _ => writes_typeFrom (by simp))
      · exact step fun _ => pass fun _ => writes_typeFrom (by simp)
    exact either hnamed (tried last (fun _ => pure (Drawn.refl _)) hnamed)
  refine either hsignature (pass fun _ => either (pass fun t => ?_) hrest)
  split
  · exact pass fun _ => hsignature
  · exact pass fun _ => hsignature
  · exact hrest⟩

instance : Reads text typeMembers Tree.stretchesAll :=
  ⟨writes_inType (pass fun _ => step fun _ => pass fun _ => pure (by simp))⟩

instance : Reads text mappedType Tree.stretches := ⟨by
  refine located fun lo _ => pass fun _ => pass fun _ => ?_
  extract_lets keyed rest
  have hkeyed (u : Unit) : Writes text [] (keyed u) Tree.stretches := by
    refine step fun keys => pass fun _ => optional fun names => pass fun _ => pass fun _ => ?_
    extract_lets valued
    have hvalued (u : Unit) : Writes text ([] ++ keys.stretches ++ Tree.stretchesAll names) (valued u) Tree.stretches :=
      step fun value => pass fun _ => pass fun _ => writes_typeFrom (by simp)
    exact either (pass fun _ => pass hvalued) (pass fun _ => hvalued ())
  have hrest (u : Unit) : Writes text [] (rest u) Tree.stretches :=
    pass fun _ => forget fun _ => pass fun _ => needed (hkeyed ())
  exact either (pass fun _ => pass hrest) (pass fun _ => hrest ())⟩

/-! ## Names of types

Qualified names have nothing to note. An imported type names a module in
quotes, in parentheses that are not those of a call. -/

instance (reserved : Bool) : Silent text (qualifiedName reserved) := ⟨by
  refine forget fun _ => last (h := silent_iterate fun _ => pass fun _ => either ?_ last)
  refine pass fun _ => pass fun _ => either ?_ last
  exact either (forget fun _ => last) (forget fun _ => last)⟩

instance : Reads text typeArgumentsOnLine? Tree.stretchesAll := ⟨pass fun _ => either last (pure (by simp))⟩

instance : Reads text importOptions Tree.stretches :=
  ⟨pass fun _ => pass fun _ => pass fun _ => step fun _ => pass fun _ => pass fun _ => pure (by simp)⟩

instance : Reads text importType Tree.stretches := ⟨by
  refine located fun lo _ => pass fun _ => pass fun _ => pass fun _ => pass fun _ => ?_
  extract_lets rest
  have hrest (options : List Tree) : Writes text (Tree.stretchesAll options) (rest options) Tree.stretches := by
    refine pass fun _ => pass fun _ => skipped fun _ => ?_
    exact step fun types => writes_typeFrom (by simp)
  have hnone : Writes text [] (Pure.pure [] >>= rest) Tree.stretches := known (hrest [])
  exact either (pass fun _ => either (step fun _ => known ((hrest _).of_drawn (by simp))) hnone) hnone⟩

instance : Reads text typeQuery Tree.stretches := ⟨by
  refine located fun _ _ => pass fun _ => pass fun _ => either ?_ ?_
  · exact step fun _ => writes_typeFrom (by simp)
  · exact pass fun _ => step fun _ => writes_typeFrom (by simp)⟩

/-! ## Plain types

One case for each way in which a type can begin. Words, literals and brackets
are told apart by the token, and each rule that is chosen is found as an
instance. -/

instance : Reads text tupleElement fun element => element.1.stretches := ⟨by
  refine located fun lo _ => pass fun isRest => forget fun named => either ?_ ?_
  · exact step fun _ => (writes_typeFrom (by simp)).bind fun _ => pure (Drawn.refl _)
  · exact step fun _ => pass fun _ => (writes_typeFrom (by simp)).bind fun _ => pure (Drawn.refl _)⟩

instance : Reads text (namedType lo) Tree.stretches :=
  ⟨pass fun _ => pass fun _ => step fun _ => writes_typeFrom (by simp)⟩

instance : Fails text plainType.noType := inferInstanceAs (Fails text (unexpected _))

instance : Reads text plainType Tree.stretches := ⟨by
  have hnone (lo : Nat) [Fact (IsBetween text lo)] : Writes text [] (typeFrom lo []) Tree.stretches :=
    writes_typeFrom (by simp)
  refine located fun lo _ => pass fun t => ?_
  split
  · exact pass fun _ => hnone lo
  · exact pass fun _ => hnone lo
  · exact pass fun _ => hnone lo
  · exact step fun _ => writes_typeFrom (by simp)
  · refine either (pass fun _ => hnone lo) (either last (either last (either ?_ (pass fun _ => either ?_ ?_))))
    · refine pass fun _ => pass fun _ => pass fun _ => either ?_ (hnone lo)
      exact pass fun _ => step fun _ => writes_typeFrom (by simp)
    · refine pass fun _ => pass fun _ => pass fun _ => either ?_ (hnone lo)
      exact step fun _ => writes_typeFrom (by simp)
    · exact pass fun _ => either (pass fun _ => hnone lo) (either last stop)
  · exact last
  · refine pass fun _ => pass fun t => ?_
    split
    · exact pass fun _ => hnone lo
    · exact pass fun _ => hnone lo
    · exact stop
  · exact pass fun _ => either last (step fun _ => writes_typeFrom (by simp))
  · refine pass fun _ => writes_separatedBefore.bind fun elements => pass fun _ => refused (writes_typeFrom ?_)
    rw [Tree.stretchesAll_eq_flatMap, List.flatMap_map]
    exact .refl _
  · exact pass fun _ => step fun _ => pass fun _ => writes_typeFrom (by simp)
  · exact stop⟩

/-! ## Types with operators

Operators in front of a type and behind it, and then unions, functions and
conditions. As with expressions, what stands on the left is read first and is
given to what goes on with it. -/

instance : Reads text arrayType Tree.stretches := ⟨by
  refine located fun lo _ => step fun first => writes_iterate Tree.stretches (fun inner => ?_) first
  refine pass fun _ => pass fun _ => either (pure (Drawn.refl _)) (pass fun _ => pass fun _ => either ?_ ?_)
  · exact (writes_typeFrom (by simp)).bind fun _ => pure (Drawn.refl _)
  · exact step fun _ => pass fun _ => (writes_typeFrom (by simp)).bind fun _ => pure (Drawn.refl _)⟩

instance : Reads text (inferType lo) Tree.stretches := ⟨by
  refine pass fun _ => forget fun _ => tried (k := Tree.stretches) ?_ ?_ ?_
  · exact pass fun _ => step fun _ => pass fun _ => pass fun _ => refused (pure (by simp))
  · exact fun bound => writes_typeFrom (by simp)
  · exact writes_typeFrom (by simp)⟩

instance : Reads text operatorType Tree.stretches := ⟨by
  refine located fun lo _ => pass (h := @silent_manyWhile _ _ _ _ ⟨pass fun t => ?_⟩ _) fun operators => ?_
  · split
    all_goals exact last
  · refine pass fun _ => ?_
    extract_lets rest
    have hrest (inner : Tree) : Writes text ([] ++ inner.stretches) (rest inner) Tree.stretches :=
      either (pure (Drawn.refl _)) (writes_typeFrom (by simp))
    exact either (step hrest) (step hrest)⟩

instance (operator : Mark) (item : Rule Tree) [Reads text item Tree.stretches] :
    Reads text (operatorList operator item) Tree.stretches :=
  ⟨located fun _ _ => pass fun _ => step fun _ => step fun _ => either (pure (by simp)) (writes_typeFrom (by simp))⟩

instance : Silent text atFunctionType := ⟨pass fun _ => either last (pass fun _ => either last last)⟩

instance : Reads text unconditionalType Tree.stretches := ⟨by
  refine located fun lo _ => pass fun _ => either ?_ ?_
  · exact step fun _ => writes_typeFrom (by simp)
  · refine pass fun _ => pass fun _ => pass fun _ => either ?_ last
    exact pass fun _ => pass fun _ => step fun _ => writes_typeFrom (by simp)⟩

instance : Reads text typeRule Tree.stretches := ⟨by
  refine Writes.within (located fun lo _ => step fun checked => pass fun _ => pass fun _ => either ?_ ?_) _
  · exact pure (by simp)
  · refine pass fun _ => step fun bound => pass fun _ => step fun first => pass fun _ => step fun second => ?_
    exact writes_typeFrom (by simp)⟩

end LocaleKeys.Script.Rule
