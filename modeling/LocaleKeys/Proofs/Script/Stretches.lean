/-
What is noted of a text while it is read: its literals, where the arguments of
calls are opened, and where trees begin.

The literals alone stand one behind the other (`Runs`), but two of them could
touch. Literals that are the first arguments of calls cannot, since the
parenthesis of the second call stands in between. So the parentheses are noted
too (`Row`), and the literals that stand right behind one are known to be apart
(`Row.pairwise_leaders`).

Of the places where trees begin nothing is asked but that they are between
characters, so they have no order. One that is known may be noted wherever it
is needed, and whatever is noted may be left out: what can be had from a row in
these two ways is drawn from it (`Drawn`).

A tree has its stretches in the order in which they are written
(`Tree.stretches`). If the parentheses and the beginnings are left out, they
are its literals (`Tree.literals_eq`). What is noted of a target that was read
as an expression first is drawn from what was noted of that
(`Tree.stretches_targets`).
-/
import LocaleKeys.Proofs.Outcomes
import LocaleKeys.Proofs.Script.Delimiters
import LocaleKeys.Proofs.Script.Literals
import LocaleKeys.Proofs.Script.Runs
import LocaleKeys.Script.Grammar.Target

set_option autoImplicit false

namespace LocaleKeys.Script

open LocaleKeys.Text

/-- Something that is noted of a text. -/
inductive Stretch where
  /-- A literal; `spelled` says that characters spell what it denotes. -/
  | literal (e : Extent) (spelled : Bool)
  /-- The parenthesis that opens the arguments of a call. -/
  | opening
  /-- The place where a tree begins. It may be noted anywhere, and more than
  once. -/
  | origin (p : Nat)

namespace Stretch

/-- The literal that is noted, if it is one. -/
def literal? : Stretch → Option Extent
  | literal e _ => some e
  | opening | origin _ => none

/-- The place that is noted as a beginning. -/
def begin? : Stretch → Option Nat
  | literal e _ => some e.lo
  | opening => none
  | origin p => some p

/-- From the place `n` on, there is the stretch, and it ends at the place `k`. -/
def From (text : List Char) (n : Nat) (s : Stretch) (k : Nat) : Prop :=
  match s with
  | literal e spelled => n ≤ e.lo ∧ e.lo < e.hi ∧ e.hi = k ∧ IsBetween text e.lo ∧ IsBetween text e.hi ∧
      (spelled = true → Delimited text e)
  | opening => n < k
  | origin p => n ≤ k ∧ IsBetween text p

theorem From.le {text : List Char} {n k : Nat} {s : Stretch} (h : s.From text n k) : n ≤ k := by
  cases s with
  | literal e spelled =>
    obtain ⟨hle, hlt, rfl, -⟩ := h
    exact Nat.le_of_lt (Nat.lt_of_le_of_lt hle hlt)
  | opening => exact Nat.le_of_lt h
  | origin p => exact h.1

theorem From.widen {text : List Char} {n n' k : Nat} {s : Stretch} (h : s.From text n k) (hn : n' ≤ n) :
    s.From text n' k := by
  cases s with
  | literal e spelled => exact ⟨Nat.le_trans hn h.1, h.2⟩
  | opening => exact Nat.lt_of_le_of_lt hn h
  | origin p => exact ⟨Nat.le_trans hn h.1, h.2⟩

end Stretch

/-- The stretches stand one behind the other, from the place `n` on and up to
the place `m`. -/
def Row (text : List Char) (n : Nat) (ss : List Stretch) (m : Nat) : Prop :=
  match ss with
  | [] => n ≤ m
  | s :: ss => ∃ k, s.From text n k ∧ Row text k ss m

/-- The literals that stand right behind the parenthesis of a call. Only those
that are spelled by characters count, since a key is looked up by nothing
else. -/
def leaders : List Stretch → List Extent
  | [] => []
  | .opening :: .literal e true :: ss => e :: leaders ss
  | _ :: ss => leaders ss

namespace Row

variable {text : List Char} {n m k : Nat} {ss ts : List Stretch}

theorem le (h : Row text n ss m) : n ≤ m := by
  induction ss generalizing n with
  | nil => exact h
  | cons s ss ih =>
    obtain ⟨k, hs, hss⟩ := h
    exact Nat.le_trans hs.le (ih hss)

/-- Reading may have begun earlier and may have come further. -/
theorem widen {n' m' : Nat} (h : Row text n ss m) (hn : n' ≤ n) (hm : m ≤ m') : Row text n' ss m' := by
  induction ss generalizing n n' with
  | nil => exact Nat.le_trans hn (Nat.le_trans h hm)
  | cons s ss ih =>
    obtain ⟨k, hs, hss⟩ := h
    exact ⟨k, hs.widen hn, ih hss (Nat.le_refl k)⟩

theorem append (h : Row text n ss m) (h' : Row text m ts k) : Row text n (ss ++ ts) k := by
  induction ss generalizing n with
  | nil => exact h'.widen h (Nat.le_refl _)
  | cons s ss ih =>
    obtain ⟨p, hs, hss⟩ := h
    exact ⟨p, hs, ih hss⟩

theorem of_append (h : Row text n (ss ++ ts) k) : ∃ m, Row text n ss m ∧ Row text m ts k := by
  induction ss generalizing n with
  | nil => exact ⟨n, Nat.le_refl n, h⟩
  | cons s ss ih =>
    obtain ⟨p, hs, hss⟩ := h
    obtain ⟨m, hss, hts⟩ := ih hss
    exact ⟨m, ⟨p, hs, hss⟩, hts⟩

theorem sublist (h : Row text n ss m) (hsub : ts.Sublist ss) : Row text n ts m := by
  induction hsub generalizing n with
  | slnil => exact h
  | cons s _ ih =>
    obtain ⟨k, hs, hss⟩ := h
    exact (ih hss).widen hs.le (Nat.le_refl _)
  | cons_cons s _ ih =>
    obtain ⟨k, hs, hss⟩ := h
    exact ⟨k, hs, ih hss⟩

/-- The literals of a row stand one behind the other. -/
theorem runs (h : Row text n ss m) : Runs text n (ss.filterMap Stretch.literal?) m := by
  induction ss generalizing n with
  | nil => exact h
  | cons s ss ih =>
    obtain ⟨k, hs, hss⟩ := h
    -- only literals stay in the list; what stands between them is room that
    -- `widen` gives up
    cases s with
    | literal e spelled =>
      obtain ⟨hle, hlt, rfl, hlo, hhi, -⟩ := hs
      exact ⟨hle, hlt, hlo, hhi, ih hss⟩
    | opening => exact (ih hss).widen (Nat.le_of_lt hs) (Nat.le_refl _)
    | origin p => exact (ih hss).widen hs.1 (Nat.le_refl _)

/-- Literals begin and end between characters, and if they are spelled, they
are delimited. -/
theorem literal (h : Row text n ss m) {e : Extent} {spelled : Bool} (he : .literal e spelled ∈ ss) :
    IsBetween text e.lo ∧ IsBetween text e.hi ∧ (spelled = true → Delimited text e) := by
  induction ss generalizing n with
  | nil => exact absurd he (List.not_mem_nil)
  | cons s ss ih =>
    obtain ⟨k, hs, hss⟩ := h
    rcases List.mem_cons.mp he with rfl | he
    · exact hs.2.2.2
    · exact ih hss he

/-- What is noted as a beginning is between characters. -/
theorem isBetween (h : Row text n ss m) {p : Nat} (hp : p ∈ ss.filterMap Stretch.begin?) : IsBetween text p := by
  obtain ⟨s, hs, hbegin⟩ := List.mem_filterMap.mp hp
  induction ss generalizing n with
  | nil => exact absurd hs (List.not_mem_nil)
  | cons s' ss ih =>
    obtain ⟨k, hfrom, hss⟩ := h
    -- the stretch is the first of the row, or it is found in the rest of it
    rcases List.mem_cons.mp hs with rfl | hs
    · cases s with
      | literal e spelled =>
        obtain rfl := Option.some.inj hbegin
        exact hfrom.2.2.2.1
      | opening => exact absurd hbegin (by simp [Stretch.begin?])
      | origin q =>
        obtain rfl := Option.some.inj hbegin
        exact hfrom.2
    · exact ih hss (List.mem_filterMap.mpr ⟨s, hs, hbegin⟩) hs

end Row

/-! ## Notes that follow from others

Two trees can be made from one text: what was read as an expression may turn
out to be a target, and a method's parts are not written in the order of its
fields. The row of the second tree is then not read anew but drawn from the row
of the first. `Drawn` quantifies over the ends of the row, so that it composes
by `append` like rows do; the simp lemmas take a goal apart along `++` and `::`
until only parts that are the same, left out or known remain. -/

/-- Where `ss` is noted, `ts` may be noted: what is left out of a row leaves a
row, and beginnings that are known may be put in. The order of the arguments is
that of `Sublist`: what is drawn comes first. -/
def Drawn (text : List Char) (ts ss : List Stretch) : Prop :=
  ∀ n m, Row text n ss m → Row text n ts m

namespace Drawn

variable {text : List Char} {ss ss' ts ts' us us' : List Stretch}

@[simp] theorem refl (ss : List Stretch) : Drawn text ss ss := fun _ _ h => h

theorem trans (h : Drawn text us ts) (h' : Drawn text ts ss) : Drawn text us ss :=
  fun n m hrow => h n m (h' n m hrow)

theorem of_sublist (h : ts.Sublist ss) : Drawn text ts ss := fun _ _ hrow => hrow.sublist h

@[simp] theorem nil (ss : List Stretch) : Drawn text [] ss := of_sublist (List.nil_sublist ss)

@[simp] theorem append_left (ss us : List Stretch) : Drawn text ss (ss ++ us) :=
  of_sublist (List.sublist_append_left ss us)

@[simp] theorem append_right (ss us : List Stretch) : Drawn text ss (us ++ ss) :=
  of_sublist (List.sublist_append_right us ss)

theorem append (h : Drawn text ts ss) (h' : Drawn text ts' ss') : Drawn text (ts ++ ts') (ss ++ ss') := by
  intro n m hrow
  obtain ⟨k, hss, hss'⟩ := hrow.of_append
  exact (h n k hss).append (h' k m hss')

@[simp] theorem behind (h : Drawn text ts ss) : Drawn text (us ++ ts) (us ++ ss) := (refl us).append h

@[simp] theorem front (h : Drawn text ts ss) : Drawn text (ts ++ us) (ss ++ us) := h.append (refl us)

@[simp] theorem behind_cons {s : Stretch} (h : Drawn text ts ss) : Drawn text (s :: ts) (s :: ss) :=
  @behind text ss ts [s] h

@[simp] theorem besides {s : Stretch} (h : Drawn text ts ss) : Drawn text ts (s :: ss) :=
  h.trans (of_sublist (List.sublist_cons_self s ss))

@[simp] theorem besides_append (h : Drawn text ts ss) : Drawn text ts (us ++ ss) := h.trans (append_right ss us)

theorem flatMap {α : Type} {f g : α → List Stretch} (h : ∀ a, Drawn text (f a) (g a)) (as : List α) :
    Drawn text (as.flatMap f) (as.flatMap g) := by
  induction as with
  | nil => exact refl _
  | cons a as ih =>
    rw [List.flatMap_cons, List.flatMap_cons]
    exact (h a).append ih

/-- A known beginning may be noted. -/
@[simp] theorem origin_cons_iff {p : Nat} [hp : Fact (IsBetween text p)] :
    Drawn text (.origin p :: ts) ss ↔ Drawn text ts ss := by
  -- the beginning takes up no room, so the row goes on from the place where it
  -- stood
  constructor
  · exact fun h => trans (of_sublist (List.sublist_cons_self _ _)) h
  · exact fun h n m hrow => ⟨n, ⟨Nat.le_refl n, hp.out⟩, h n m hrow⟩

@[simp] theorem append_origin_cons_iff {p : Nat} [hp : Fact (IsBetween text p)] :
    Drawn text (us ++ .origin p :: ts) ss ↔ Drawn text (us ++ ts) ss := by
  constructor
  · exact fun h => trans ((refl us).append (of_sublist (List.sublist_cons_self _ _))) h
  · exact fun h => trans (behind (origin_cons_iff.mpr (refl ts))) h

theorem known {p : Nat} (hp : p ∈ ss.filterMap Stretch.begin?) (h : Drawn text ts ss) :
    Drawn text (.origin p :: ts) ss :=
  fun n m hrow => ⟨n, ⟨Nat.le_refl n, hrow.isBetween hp⟩, h n m hrow⟩

/-- Beginnings alone may be noted a second time, or what is drawn from them. -/
theorem twice (horigins : ∀ s ∈ us, ∃ p, s = .origin p) (h : Drawn text us' us) :
    Drawn text (ss ++ us ++ (us' ++ ts)) (ss ++ us ++ ts) := by
  -- beginnings are between characters wherever they are noted, so they may be
  -- noted at any place
  have hstay {n m : Nat} (hrow : Row text n us m) (q : Nat) : Row text q us q := by
    clear h
    induction us generalizing n with
    | nil => exact Nat.le_refl q
    | cons s us ih =>
      obtain ⟨k, hs, hus⟩ := hrow
      obtain ⟨p, rfl⟩ := horigins s (List.mem_cons_self ..)
      exact ⟨q, ⟨Nat.le_refl q, hs.2⟩, ih (fun s hs => horigins s (List.mem_cons_of_mem _ hs)) hus⟩
  intro n m hrow
  obtain ⟨k, hfront, hts⟩ := hrow.of_append
  obtain ⟨j, -, hus⟩ := hfront.of_append
  exact hfront.append ((h k k (hstay hus k)).append hts)

end Drawn


/-! ## Leaders

What separates two calls in a row is not a place that literals leave free but
the parenthesis that is noted between them, which takes up at least one
character (`Stretch.From` has `n < k` for it). A beginning may stand between a
parenthesis and a literal, and then the literal leads nothing; so lemmas about
`leaders` follow its own cases and not those of the list. -/

theorem leaders_origin (p : Nat) (ss : List Stretch) : leaders (.origin p :: ss) = leaders ss := rfl

theorem mem_of_mem_leaders {ss : List Stretch} {e : Extent} (he : e ∈ leaders ss) : .literal e true ∈ ss := by
  induction ss using leaders.induct with
  | case1 => exact absurd he (List.not_mem_nil)
  | case2 e' ss ih =>
    rw [leaders, List.mem_cons] at he
    rcases he with rfl | he
    · simp
    · exact List.mem_cons_of_mem _ (List.mem_cons_of_mem _ (ih he))
  | case3 s ss hleads ih =>
    rw [leaders] at he
    · exact List.mem_cons_of_mem _ (ih he)
    · exact hleads

theorem leaders_cons_sublist (s : Stretch) (ss : List Stretch) : (leaders ss).Sublist (leaders (s :: ss)) := by
  rcases s with ⟨e, spelled⟩ | _ | p
  · exact List.Sublist.refl _
  · cases ss with
    | nil => exact List.Sublist.refl _
    | cons s ss =>
      rcases s with ⟨e, _ | _⟩ | _ | p
      · exact List.Sublist.refl _
      · exact List.sublist_cons_self e (leaders ss)
      · exact List.Sublist.refl _
      · exact List.Sublist.refl _
  · exact List.Sublist.refl _

/-- Between two rows a literal may come to stand right behind a parenthesis,
but none is parted from its own. -/
theorem leaders_append_sublist (ss ts : List Stretch) :
    (leaders ss ++ leaders ts).Sublist (leaders (ss ++ ts)) := by
  induction ss using leaders.induct with
  | case1 => exact List.Sublist.refl _
  -- a pair of a parenthesis and its literal stays together
  | case2 e ss ih =>
    rw [leaders, List.cons_append, List.cons_append, List.cons_append, leaders]
    exact ih.cons_cons e
  | case3 s ss hleads ih =>
    rw [leaders]
    · exact ih.trans (leaders_cons_sublist s (ss ++ ts))
    · exact hleads

/-- **Literals that begin the arguments of calls do not touch.** In front of
each of them stands the opening parenthesis of its call, which belongs to
neither of two neighbours. -/
theorem Row.pairwise_leaders {text : List Char} {n m : Nat} {ss : List Stretch} (h : Row text n ss m) :
    (∀ e ∈ leaders ss, n < e.lo) ∧ (leaders ss).Pairwise fun a b => a.hi < b.lo := by
  induction ss using leaders.induct generalizing n with
  | case1 => exact ⟨fun e he => absurd he (List.not_mem_nil), List.Pairwise.nil⟩
  | case2 e ss ih =>
    obtain ⟨k, hopening, l, ⟨hle, hlt, rfl, -⟩, hss⟩ := h
    obtain ⟨hbehind, hapart⟩ := ih hss
    have hn : n < e.lo := Nat.lt_of_lt_of_le hopening hle
    rw [leaders]
    refine ⟨fun e' he' => ?_, List.pairwise_cons.mpr ⟨hbehind, hapart⟩⟩
    rcases List.mem_cons.mp he' with rfl | he'
    · exact hn
    · exact Nat.lt_trans (Nat.lt_trans hn hlt) (hbehind e' he')
  | case3 s ss hleads ih =>
    obtain ⟨k, hs, hss⟩ := h
    obtain ⟨hbehind, hapart⟩ := ih hss
    rw [leaders]
    · exact ⟨fun e he => Nat.lt_of_le_of_lt hs.le (hbehind e he), hapart⟩
    · exact hleads

/-! ## The stretches of a tree

The order is that of the text, which is not always that of a constructor's
fields: an assertion in angle brackets has its types in front of the
expression, decorators stand in front of a method's key, and an arranged
compound carries the order in which its groups were written. These are the only
equations that do not list the parts from left to right. -/

namespace Tree

mutual

/-- What is noted of a tree, in the order in which it is written. A literal is
noted itself; where any other tree begins is noted in front of its parts. -/
def stretches : Tree → List Stretch
  | name e _ | callKeyword e => [.origin e.lo]
  | text e value => [.literal e value.isSome]
  | template e value substitutions =>
    if value.isSome && substitutions.isEmpty then [.literal e true] else .origin e.lo :: stretchesAll substitutions
  | call e callee arguments _ => .origin e.lo :: stretches callee ++ .opening :: stretchesAll arguments
  | spread e inner => .origin e.lo :: stretches inner
  | wrapped wrapper e before inner after =>
    if wrapper = .angleAssertion then .origin e.lo :: stretchesAll before ++ stretchesAll after ++ stretches inner
    else .origin e.lo :: stretchesAll before ++ stretches inner ++ stretchesAll after
  | function e _ decorators parameters _ body =>
    .origin e.lo :: stretchesAll decorators ++ stretchesAll parameters ++ stretchesAll body
  | scope e parts => .origin e.lo :: stretchesAll parts
  | handler e parameter body => .origin e.lo :: stretchesAll parameter ++ stretchesAll body
  | declarator e target value => .origin e.lo :: stretches target ++ stretchesAll value
  | object e members => .origin e.lo :: stretchesAll members
  | property e key value => .origin e.lo :: stretches key ++ stretches value
  | shorthand e _ fallback => .origin e.lo :: stretchesAll fallback
  | array e elements => .origin e.lo :: stretchesAll elements
  | assignment e _ target value => .origin e.lo :: stretches target ++ stretches value
  -- an operand that is missing begins nowhere
  | compound .unary e [compound .invalid _ []] => [.origin e.lo]
  -- the decorators of a method stand in front of its key
  | compound .method e [key, function e' _ decorators parameters _ body] =>
    .origin e.lo :: .origin e'.lo :: stretchesAll decorators ++ stretches key ++ stretchesAll parameters
      ++ stretchesAll body
  | compound (.arranged order) e parts =>
    .origin e.lo :: (writtenOrder order parts.length).flatMap fun i => (stretchesEach parts)[i]?.getD []
  | compound _ e parts => .origin e.lo :: stretchesAll parts

/-- What is noted of several trees, one after the other. -/
def stretchesAll : List Tree → List Stretch
  | [] => []
  | t :: ts => stretches t ++ stretchesAll ts

/-- What is noted of several trees, of each for itself. -/
def stretchesEach : List Tree → List (List Stretch)
  | [] => []
  | t :: ts => stretches t :: stretchesEach ts

end

attribute [simp] stretches stretchesAll stretchesEach

/-! ## Several trees

`stretchesAll` and `stretchesEach` exist because the recursion has to be over
trees and their lists at once. Outside of it they are the `flatMap` and the
`map` that they look like. -/

@[simp] theorem stretchesAll_append (ts us : List Tree) :
    stretchesAll (ts ++ us) = stretchesAll ts ++ stretchesAll us := by
  induction ts with
  | nil => rfl
  | cons t ts ih => rw [List.cons_append, stretchesAll, stretchesAll, ih, List.append_assoc]

theorem stretchesAll_eq_flatMap (ts : List Tree) : stretchesAll ts = ts.flatMap stretches := by
  induction ts with
  | nil => rfl
  | cons t ts ih => rw [stretchesAll, List.flatMap_cons, ih]

theorem stretchesEach_eq_map (ts : List Tree) : stretchesEach ts = ts.map stretches := by
  induction ts with
  | nil => rfl
  | cons t ts ih => rw [stretchesEach, List.map_cons, ih]

theorem stretchesAll_sublist {ts us : List Tree} (h : ts.Sublist us) :
    (stretchesAll ts).Sublist (stretchesAll us) := by
  induction h with
  | slnil => exact List.Sublist.refl _
  | cons u _ ih => exact ih.trans (List.sublist_append_right _ _)
  | cons_cons u _ ih => exact (List.Sublist.refl _).append ih

/-! ## Forms

Equations for the forms that have an equation of their own above, so that the
grammar's proofs need not open the definition. The grammar only builds
arrangements through `arranged`, hence the two lemmas that are about groups and
not about indices. -/

section

variable (e : Extent) (t : Tree) (ts : List Tree)

theorem stretches_compound {form : Form} (hunary : form ≠ .unary) (hmethod : form ≠ .method)
    (harranged : ∀ order, form ≠ .arranged order) :
    (compound form e ts).stretches = .origin e.lo :: stretchesAll ts := by
  rw [stretches]
  · exact fun _ h => absurd h hunary
  · exact fun _ _ _ _ _ _ _ h => absurd h hmethod
  · exact fun order h => harranged order h

/-- The operand of a unary operator, or nothing if it is missing. -/
def operandStretches : Tree → List Stretch
  | compound .invalid _ [] => []
  | t => t.stretches

theorem operandStretches_sublist : t.operandStretches.Sublist t.stretches := by
  rw [operandStretches.eq_def]
  split
  · exact List.nil_sublist _
  · exact List.Sublist.refl _

@[simp] theorem stretches_unary : (compound .unary e [t]).stretches = .origin e.lo :: t.operandStretches := by
  rw [operandStretches.eq_def]
  split
  · rw [stretches]
  · rename_i hpresent
    rw [stretches, stretchesAll, stretchesAll, List.append_nil]
    · rintro e' - heq
      exact hpresent e' (List.cons.inj heq).1
    all_goals simp

@[simp] theorem stretches_method (e' : Extent) (isArrow : Bool) (ds ps us bs : List Tree) :
    (compound .method e [t, function e' isArrow ds ps us bs]).stretches
      = .origin e.lo :: .origin e'.lo :: stretchesAll ds ++ t.stretches ++ stretchesAll ps ++ stretchesAll bs := by
  rw [stretches]

/-- The groups of an arrangement begin where all of it does. -/
theorem drawn_arranged {text : List Char} {ss : List Stretch} [hlo : Fact (IsBetween text e.lo)] {order : List Nat}
    {parts : List (List Tree)}
    (h : Drawn text ((writtenOrder order parts.length).flatMap fun i => (parts[i]?.map stretchesAll).getD []) ss) :
    Drawn text (arranged e order parts).stretches ss := by
  rw [arranged, stretches, stretchesEach_eq_map, List.map_map, List.length_map]
  refine .trans (Drawn.origin_cons_iff.mpr (.flatMap (fun i => ?_) _)) h
  rw [List.getElem?_map]
  -- a place that the arrangement names in vain contributes nothing
  cases parts[i]? with
  | none => exact .refl _
  | some ts =>
    rw [Option.map_some, Option.map_some, Option.getD_some, Option.getD_some, Function.comp_apply,
      stretches_compound e ts (by decide) (by decide) (by simp)]
    exact Drawn.origin_cons_iff.mpr (.refl _)

/-- So does what is made of nothing but an arrangement. -/
theorem drawn_compound_arranged {text : List Char} {ss : List Stretch} [hlo : Fact (IsBetween text e.lo)] {form : Form}
    (hunary : form ≠ .unary) (hmethod : form ≠ .method) (harranged : ∀ order, form ≠ .arranged order) {order : List Nat}
    {parts : List (List Tree)}
    (h : Drawn text ((writtenOrder order parts.length).flatMap fun i => (parts[i]?.map stretchesAll).getD []) ss) :
    Drawn text (compound form e [arranged e order parts]).stretches ss := by
  rw [stretches_compound e _ hunary hmethod harranged, stretchesAll, stretchesAll, List.append_nil]
  exact Drawn.origin_cons_iff.mpr (drawn_arranged e h)

@[simp] theorem stretches_invalid : (invalid e).stretches = [.origin e.lo] :=
  stretches_compound e [] (by decide) (by decide) (by simp)

end

/-- **Where a tree begins is noted of it.** A literal is its own beginning,
which is why `Stretch.begin?` counts it as one. -/
theorem extent_mem_stretches (t : Tree) : t.extent.lo ∈ t.stretches.filterMap Stretch.begin? := by
  have hfront (p : Nat) (ss : List Stretch) : p ∈ (Stretch.origin p :: ss).filterMap Stretch.begin? := by
    simp [Stretch.begin?]
  cases t with
  | text e value => simp [Stretch.begin?, extent]
  | template e value substitutions =>
    rw [stretches]
    split
    · simp [Stretch.begin?, extent]
    · exact hfront _ _
  | wrapped wrapper e before inner after =>
    rw [stretches]
    split
    · exact hfront _ _
    · exact hfront _ _
  | compound form e parts =>
    rw [stretches.eq_def]
    split
    all_goals simp_all [Stretch.begin?, extent]
  | _ => exact hfront _ _

/-! ## Literals

The list of literals was defined without rows, for the claims about literals
alone. That both lists agree is what lets one invariant of the parser serve
them as well as the claims about calls. -/

/-- **The literals of a tree** are what is noted of it, parentheses and
beginnings left out. The three statements are one for each of the functions
that are defined together. -/
theorem literals_eq :
    (∀ t : Tree, t.literals = t.stretches.filterMap Stretch.literal?) ∧
      (∀ ts : List Tree, literalsEach ts = (stretchesEach ts).map (·.filterMap Stretch.literal?)) ∧
      ∀ ts : List Tree, literalsAll ts = (stretchesAll ts).filterMap Stretch.literal? := by
  have horigin (p : Nat) (ss : List Stretch) :
      (Stretch.origin p :: ss).filterMap Stretch.literal? = ss.filterMap Stretch.literal? := List.filterMap_cons_none rfl
  -- by the recursion that notes stretches, which has cases of its own where
  -- things are written elsewhere
  refine stretches.mutual_induct _ _ _ ?name ?callKeyword ?text ?spelled ?template ?call ?spread ?angles ?wrapped
    ?function ?scope ?handler ?declarator ?object ?property ?shorthand ?array ?assignment ?missing ?method ?arranged
    ?compound ?noneEach ?each ?none ?all
  case arranged =>
    intro order e parts ih
    rw [literals, stretches, ih, horigin, List.filterMap_flatMap]
    refine List.flatMap_congr fun i _ => ?_
    rw [List.getElem?_map]
    cases (stretchesEach parts)[i]? <;> rfl
  case compound =>
    intro form e parts hmissing hmethod harranged ih
    rw [literals, stretches, ih, horigin] <;> assumption
  -- a template that only spells characters is a literal like any other, and
  -- its parts are not looked at
  case spelled =>
    intro e value substitutions hspelled
    rw [literals, stretches, if_pos hspelled, if_pos hspelled]
    rfl
  case template =>
    intro e value substitutions hspelled ih
    rw [literals, stretches, if_neg hspelled, if_neg hspelled, ih, horigin]
  case call =>
    intro e callee arguments types ihcallee iharguments
    rw [literals, stretches, ihcallee, iharguments, List.cons_append, horigin, List.filterMap_append]
    rfl
  case angles =>
    intro e before inner after ihbefore ihafter ihinner
    simp only [literals, stretches, if_true, List.cons_append, horigin, List.filterMap_append, ihbefore, ihafter,
      ihinner]
  case wrapped =>
    intro wrapper e before inner after hangles ihbefore ihinner ihafter
    simp only [literals, stretches, if_neg hangles, List.cons_append, horigin, List.filterMap_append, ihbefore,
      ihafter, ihinner]
  all_goals
    intros
    simp_all [Stretch.literal?]

/-! ## Targets

An arrow function's parameters and the left side of an assignment are read as
expressions before it is known what they are. `asTarget` turns them over
afterwards, gives up what cannot be a target and keeps the rest in its place;
nothing it does adds a note that was not there. -/

/-- What takes the place of a tree begins where the tree did. -/
theorem drawn_invalid (text : List Char) (t : Tree) : Drawn text (invalid t.extent).stretches t.stretches := by
  rw [stretches_invalid]
  exact .known t.extent_mem_stretches (.nil _)

/-- Expressions that are turned into targets keep what is noted of them in its
order, where they keep it. -/
theorem stretches_targets (text : List Char) (binding : Bool) :
    (∀ t t', asTarget binding t = .ok t' → Drawn text t'.stretches t.stretches) ∧
      (∀ ts ts', asTargetElements binding ts = .ok ts' → Drawn text (stretchesAll ts') (stretchesAll ts)) ∧
      ∀ ts ts', asTargetMembers binding ts = .ok ts' → Drawn text (stretchesAll ts') (stretchesAll ts) := by
  -- by the recursion of `asTarget` over trees, the elements of arrays and the
  -- members of objects
  refine asTarget.mutual_induct binding _ _ _ ?name ?assignment ?object ?array ?other
    ?noElements ?lastSpread ?spread ?hole ?element
    ?noMembers ?property ?shorthand ?refused ?rest ?noMember
  case name | noElements | noMembers =>
    intros
    simp_all only [asTarget, asTargetElements, asTargetMembers, Except.ok.injEq]
    subst_vars
    exact .refl _
  case assignment =>
    intro e target value t' h
    rw [asTarget, Except.ok.injEq] at h
    rw [← h, stretches, stretches]
    -- only the target may be given up; the fallback stays what it is
    refine .append (.behind_cons ?_) (.refl _)
    split
    · exact drawn_invalid text target
    · exact .refl _
  case object =>
    intro e members ih t' h
    rw [asTarget] at h
    obtain ⟨members', hmembers, heq⟩ := bind_eq_ok_iff.mp h
    rw [← Except.ok.inj heq, stretches, stretches]
    exact .behind_cons (ih _ hmembers)
  case array =>
    intro e elements ih t' h
    rw [asTarget] at h
    obtain ⟨elements', helements, heq⟩ := bind_eq_ok_iff.mp h
    rw [← Except.ok.inj heq, stretches, stretches]
    exact .behind_cons (ih _ helements)
  case other =>
    intro t hname hassignment hobject harray t' h
    rw [asTarget, Except.ok.injEq] at h
    · rw [← h]
      split
      · exact .refl _
      · exact drawn_invalid text t
    all_goals assumption
  -- a spread element may come last only, and becomes the rest
  case lastSpread =>
    intro e inner ih ts' h
    rw [asTargetElements] at h
    obtain ⟨inner', hinner, h⟩ := bind_eq_ok_iff.mp h
    rw [← Except.ok.inj h]
    simp only [stretchesAll, stretches, List.append_nil]
    exact .behind_cons (ih _ hinner)
  case spread =>
    intro e inner ts hne ih ts' h
    rw [asTargetElements] at h
    · rw [stretchesAll]
      exact (ih _ h).trans (.append_right _ _)
    · exact hne
  -- a hole stays a hole
  case hole =>
    intro t ts hlast hspread hhole ih ts' h
    rw [asTargetElements, if_pos hhole] at h
    · obtain ⟨_, ht, h⟩ := bind_eq_ok_iff.mp h
      obtain ⟨us, hus, heq⟩ := bind_eq_ok_iff.mp h
      rw [← Except.ok.inj heq, ← Except.ok.inj ht, stretchesAll, stretchesAll]
      exact .behind (ih _ hus)
    · exact hlast
    · exact hspread
  case element =>
    intro t ts hlast hspread hhole ih iht ts' h
    rw [asTargetElements, if_neg hhole] at h
    · obtain ⟨t', ht', h⟩ := bind_eq_ok_iff.mp h
      obtain ⟨us, hus, heq⟩ := bind_eq_ok_iff.mp h
      rw [← Except.ok.inj heq, stretchesAll, stretchesAll]
      exact (iht _ ht').append (ih _ hus)
    · exact hlast
    · exact hspread
  case property =>
    intro e key value ts ihvalue ih ts' h
    rw [asTargetMembers] at h
    obtain ⟨value', hvalue, h⟩ := bind_eq_ok_iff.mp h
    obtain ⟨us, hus, heq⟩ := bind_eq_ok_iff.mp h
    rw [← Except.ok.inj heq]
    simp only [stretchesAll, stretches]
    exact .append (.append (.refl (.origin e.lo :: stretches key)) (ihvalue _ hvalue)) (ih _ hus)
  case shorthand =>
    intro e n fallback ts ih ts' h
    rw [asTargetMembers] at h
    obtain ⟨us, hus, heq⟩ := bind_eq_ok_iff.mp h
    rw [← Except.ok.inj heq]
    simp only [stretchesAll, stretches]
    exact .behind (ih _ hus)
  case refused =>
    intro e inner ts hrefused ih ts' h
    rw [asTargetMembers, if_pos hrefused] at h
    obtain ⟨_, hinner, h⟩ := bind_eq_ok_iff.mp h
    obtain ⟨us, hus, heq⟩ := bind_eq_ok_iff.mp h
    rw [← Except.ok.inj heq, ← Except.ok.inj hinner]
    -- of the refused member two beginnings are kept, its own and that of what
    -- it spreads
    simp only [stretchesAll, stretches, stretches_invalid]
    exact .known (by simp [Stretch.begin?]) (.known (by simp [Stretch.begin?]) ((ih _ hus).trans (.append_right _ _)))
  case rest =>
    intro e inner ts hkept ih ihinner ts' h
    rw [asTargetMembers, if_neg hkept] at h
    obtain ⟨inner', hinner, h⟩ := bind_eq_ok_iff.mp h
    obtain ⟨us, hus, heq⟩ := bind_eq_ok_iff.mp h
    rw [← Except.ok.inj heq]
    simp only [stretchesAll, stretches]
    exact (Drawn.behind_cons (ihinner _ hinner)).append (ih _ hus)
  case noMember =>
    intro t ts hproperty hshorthand hspread ts' h
    rw [asTargetMembers] at h
    · exact absurd h (by simp)
    all_goals assumption

end Tree

end LocaleKeys.Script
