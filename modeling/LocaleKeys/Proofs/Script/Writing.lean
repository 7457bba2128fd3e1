/-
What rules write.

A rule reads a part of the text, and what is noted of its answer stands in that
part, in the order of the answer. So a rule is described by what it does with
stretches (`Rule.Writes`): given a row of them up to the cursor, those of the
answer are a row up to where the cursor is then, and where the rule fails, the
cursor has at least not gone back. What one rule answers is given to the next
(`Rule.Writes.bind`), and an answer has to be drawn from what it was given: it
may drop some of that, but not rearrange it (`Rule.Writes.pure`).

Most rules are given nothing (`Rule.Reads`); what they write is found by
instances. So is the assumption that a tree begins between characters: it is
made where the place is looked at (`Rule.Writes.located`) or where another tree
begins there (`Rule.Writes.begun`), and it is used wherever the tree is made.
-/
import LocaleKeys.Proofs.Script.Cursors
import LocaleKeys.Proofs.Script.Stretches

set_option autoImplicit false

namespace LocaleKeys.Script

open LocaleKeys.Text

variable {text : List Char}

/-- The cursor is sound, and the stretches stand in a row from the place `n` up
to the end of the token in front of it. -/
structure At (text : List Char) (n : Nat) (es : List Stretch) (c : Cursor) : Prop where
  sound : c.Sound text
  row : Row text n es c.previous

/-- What is drawn from a row is a row up to the same place. -/
theorem At.drawn {n : Nat} {es fs : List Stretch} {c : Cursor} (h : At text n es c) (hdrawn : Drawn text fs es) :
    At text n fs c := ⟨h.sound, hdrawn n _ h.row⟩

/-- A token that is quoted is a literal of its own. -/
theorem At.quoted {es : List Stretch} {n : Nat} {c : Cursor} (h : At text n es c) (hquoted : c.token.isQuoted = true)
    {spelled : Bool} (hspelled : spelled = true → c.token.isSpelled = true) (inType : Bool) :
    At text n (es ++ [.literal ⟨c.lo, c.hi⟩ spelled]) (c.advance inType) := by
  refine ⟨h.sound.advance inType, h.row.append ⟨c.hi, ⟨h.sound.previous_le, ?_, rfl, ?_, ?_, ?_⟩, Nat.le_refl _⟩⟩
  · exact Nat.lt_of_le_of_lt h.sound.lo_le (h.sound.fits.quoted hquoted)
  · exact h.sound.isBetween
  · exact h.sound.rest.isBetween
  · exact fun hs => h.sound.delimited (hspelled hs)

/-- A token in front of which the cursor passes may be noted, if it is not
empty. -/
theorem At.passed {es : List Stretch} {n : Nat} {c : Cursor} (h : At text n es c) (hlt : c.begins < c.hi)
    (inType : Bool) : At text n (es ++ [.opening]) (c.advance inType) := by
  refine ⟨h.sound.advance inType, h.row.append ⟨c.hi, ?_, Nat.le_refl _⟩⟩
  exact Nat.lt_of_le_of_lt (Nat.le_trans h.sound.previous_le h.sound.lo_le) hlt

/-- What came out is an answer with these stretches, or a failure at a cursor
that has not gone back. -/
def Answers {α : Type} (text : List Char) (n : Nat) (k : α → List Stretch) :
    EStateM.Result Failure Cursor α → Prop
  | .ok a c => At text n (k a) c
  | .error _ c => At text n [] c

/-- What is noted of that with which a phrase is asked to go on. -/
def Phrase.given : Phrase → List Stretch
  | .operators left _ => left.stretches
  | .assigned lo left => .origin lo :: left.stretches
  | _ => []

/-- The environment has the size of the text, and whatever phrase is asked for,
what is noted of it is what it is read from. -/
def Environment.Sound (text : List Char) (env : Environment) : Prop :=
  env.size = byteCount text ∧ ∀ (p : Phrase) (context : Context) (c : Cursor) (n : Nat), At text n p.given c →
    Answers text n Tree.stretches (env.read p context c)

namespace Rule

variable {α β : Type} {es fs : List Stretch} {k : α → List Stretch} {l : β → List Stretch}

/-- Given the stretches `es`, the rule answers with the stretches `k`. The
place `n` where the row begins is arbitrary, and so is the environment, as long
as what it reads for nested phrases is sound: that is the induction hypothesis
of `sound_readPhrase`. -/
def Writes (text : List Char) (es : List Stretch) (r : Rule α) (k : α → List Stretch) : Prop :=
  ∀ (env : Environment), env.Sound text → ∀ (c : Cursor) (n : Nat), At text n es c →
    Answers text n k (r env c)

/-- The rule answers with the stretches `k` and needs to be given none. `k` is
found from the rule by instances, so that the proofs about the grammar name
neither the rules that a rule is made of nor what these write. -/
class Reads (text : List Char) (r : Rule α) (k : outParam (α → List Stretch)) : Prop where
  writes : Writes text [] r k

/-- The rule answers with something of which nothing is noted. -/
abbrev Silent (text : List Char) (r : Rule α) : Prop := Reads text r fun _ => []

/-- Nothing comes of the rule but a failure. -/
class Fails (text : List Char) (r : Rule α) : Prop where
  fails : ∀ (env : Environment), env.Sound text → ∀ (c : Cursor), c.Sound text →
    ∃ failure c', r env c = .error failure c' ∧ c'.Sound text ∧ c.previous ≤ c'.previous

/-- What holds of all that can come of the next rule holds of what comes of
both. -/
theorem result_bind {env : Environment} {c : Cursor} {n : Nat} {r : Rule α} {f : α → Rule β}
    {Q : EStateM.Result Failure Cursor β → Prop} (hr : Answers text n k (r env c))
    (herror : ∀ failure c', At text n [] c' → Q (.error failure c'))
    (hok : ∀ a c', At text n (k a) c' → Q (f a env c')) : Q ((r >>= f) env c) := by
  change Q (EStateM.bind (r env) (fun a => f a env) c)
  unfold EStateM.bind
  cases hread : r env c with
  | ok a c' =>
    rw [hread] at hr
    exact hok a c' hr
  | error e c' =>
    rw [hread] at hr
    exact herror e c' hr

/-- A rule of which the answer is known. -/
theorem result_of_ok {env : Environment} {c c' : Cursor} {r : Rule α} {f : α → Rule β} {a : α}
    {Q : EStateM.Result Failure Cursor β → Prop} (hr : r env c = .ok a c') (h : Q (f a env c')) :
    Q ((r >>= f) env c) := by
  change Q (EStateM.bind (r env) (fun a => f a env) c)
  unfold EStateM.bind
  rw [hr]
  exact h

/-- What a rule answers is given to the next. -/
theorem answers_bind {env : Environment} {c : Cursor} {n : Nat} {r : Rule α} {f : α → Rule β}
    (hr : Answers text n k (r env c)) (hf : ∀ a c', At text n (k a) c' → Answers text n l (f a env c')) :
    Answers text n l ((r >>= f) env c) :=
  result_bind hr (fun _ _ hc => hc) hf

theorem answers_get {env : Environment} {c : Cursor} {n : Nat} {f : Cursor → Rule β}
    (h : Answers text n l (f c env c)) : Answers text n l ((MonadState.get >>= f) env c) := h

theorem answers_set {env : Environment} {c c' : Cursor} {n : Nat} {f : PUnit → Rule β}
    (h : Answers text n l (f ⟨⟩ env c')) : Answers text n l ((set c' >>= f) env c) := h

theorem answers_look {env : Environment} {c : Cursor} {n : Nat} {r : Rule α} {f : α → Rule β} {a : α}
    (hr : r env c = .ok a c) (h : Answers text n l (f a env c)) : Answers text n l ((r >>= f) env c) :=
  result_of_ok hr h

namespace Writes

/-- **One rule behind another.** The second is given what the first answers.
With this the rules of the grammar are gone through step by step, in the order
in which they read. -/
theorem bind {r : Rule α} {f : α → Rule β} (hr : Writes text es r k) (hf : ∀ a, Writes text (k a) (f a) l) :
    Writes text es (r >>= f) l :=
  fun env henv c n hc => answers_bind (hr env henv c n hc) fun a c' hc' => hf a env henv c' n hc'

/-- An answer that is made without reading has to be drawn from what was given.
This is where a proof about a rule comes down to lists of stretches. -/
theorem pure {a : α} (h : Drawn text (k a) es) : Writes text es (Pure.pure a) k :=
  fun _ _ _ _ hc => hc.drawn h

/-- What a rule writes, where it is read. -/
theorem answers {r : Rule α} (hr : Writes text es r k) {env : Environment} (henv : env.Sound text) {c : Cursor}
    {n : Nat} (hc : At text n es c) : Answers text n k (r env c) := hr env henv c n hc

/-- A rule may be given more than it goes on with. -/
theorem of_drawn {r : Rule α} (hr : Writes text fs r k) (h : Drawn text fs es) : Writes text es r k :=
  fun env henv c n hc => hr env henv c n (hc.drawn h)

/-- What a rule is given besides stands in front of its answer. -/
theorem frame {r : Rule α} (hr : Writes text fs r k) (es : List Stretch) :
    Writes text (es ++ fs) r fun a => es ++ k a := by
  intro env henv c n hc
  obtain ⟨m, hes, hfs⟩ := hc.row.of_append
  have hstep := hr env henv c m ⟨hc.sound, hfs⟩
  cases hread : r env c with
  | ok a c' =>
    rw [hread] at hstep
    exact ⟨hstep.sound, hes.append hstep.row⟩
  | error e c' =>
    rw [hread] at hstep
    exact ⟨hstep.sound, Nat.le_trans hes.le hstep.row⟩

/-- From what a rule writes, less may be kept. -/
theorem mono {k' : α → List Stretch} {r : Rule α} (hr : Writes text es r k) (h : ∀ a, Drawn text (k' a) (k a)) :
    Writes text es r k' := by
  intro env henv c n hc
  have hstep := hr env henv c n hc
  cases hread : r env c with
  | ok a c' =>
    rw [hread] at hstep
    exact hstep.drawn (h a)
  | error e c' =>
    rw [hread] at hstep
    exact hstep

theorem either {p : Prop} [Decidable p] {r s : Rule α} (hr : Writes text es r k) (hs : Writes text es s k) :
    Writes text es (if p then r else s) k := by
  split
  · exact hr
  · exact hs

/-- A rule needs to be given nothing, and what it is given stands in front of
its answer. -/
theorem besides {r : Rule α} [h : Reads text r k] : Writes text es r fun a => es ++ k a := by
  have hr := h.writes.frame es
  rw [List.append_nil] at hr
  exact hr

/-- A rule that is given nothing is read, and its stretches are given to the
next. -/
theorem step {r : Rule α} [h : Reads text r k] {f : α → Rule β} (hf : ∀ a, Writes text (es ++ k a) (f a) l) :
    Writes text es (r >>= f) l :=
  besides.bind hf

theorem pass {r : Rule α} [h : Silent text r] {f : α → Rule β} (hf : ∀ a, Writes text es (f a) l) :
    Writes text es (r >>= f) l :=
  step fun a => by
    rw [List.append_nil]
    exact hf a

theorem keep {r : Rule α} [Silent text r] : Writes text es r fun _ => es := by
  have hr : Writes text es r fun _ => es ++ [] := besides
  simp only [List.append_nil] at hr
  exact hr

theorem forget {r : Rule α} [h : Reads text r k] {f : α → Rule β} (hf : ∀ a, Writes text es (f a) l) :
    Writes text es (r >>= f) l :=
  step fun a => (hf a).of_drawn (.append_left _ _)

/-- The last of the rules may be given anything, since it needs none of it. -/
theorem last {r : Rule α} [h : Reads text r k] : Writes text es r k :=
  h.writes.of_drawn (.nil es)

/-- A rule that fails writes whatever is wanted. -/
theorem stop {r : Rule α} [h : Fails text r] : Writes text es r k := by
  intro env henv c n hc
  obtain ⟨failure, c', hread, hsound, hle⟩ := h.fails env henv c hc.sound
  rw [hread]
  exact ⟨hsound, Nat.le_trans hc.row.le hle⟩

theorem known {a : α} {f : α → Rule β} (h : Writes text es (f a) l) :
    Writes text es (Pure.pure a >>= f) l := h

/-- Where `p` is asked for, nothing goes on without it. -/
theorem needed {p : Prop} [Decidable p] {r s : Rule α} [Fails text s] (hr : Writes text es r k) :
    Writes text es (if p then r else s) k :=
  either hr stop

/-- Where `p` is refused, nothing goes on with it. -/
theorem refused {p : Prop} [Decidable p] {r s : Rule α} [Fails text r] (hs : Writes text es s k) :
    Writes text es (if p then r else s) k :=
  either stop hs

/-- Where something silent may be left out, the rule goes on as if nothing had
been there. -/
theorem skipped {p : Prop} [Decidable p] {r : Rule Unit} [Silent text r] {f : Unit → Rule β}
    (hf : ∀ a, Writes text es (f a) l) : Writes text es (if p then r >>= f else f ()) l :=
  either (pass hf) (hf ())

/-- The same where it may be left out because something else stands here. -/
theorem supplied {p : Prop} [Decidable p] {r : Rule Unit} [Silent text r] {f : Unit → Rule β}
    (hf : ∀ a, Writes text es (f a) l) : Writes text es (if p then f () else r >>= f) l :=
  either (hf ()) (pass hf)

/-- What a silent rule finds out, or what is known without it, decides how the
rule goes on. -/
theorem decided {σ : Type} {p : Prop} [Decidable p] {r : Rule α} [Silent text r] {g : α → σ} {s : σ} {f : σ → Rule β}
    (hf : ∀ s, Writes text es (f s) l) :
    Writes text es (if p then r >>= fun a => Pure.pure (g a) >>= f else Pure.pure s >>= f) l :=
  either (pass fun a => hf (g a)) (hf s)

/-- Where a part may be left out, what follows goes on with its stretches if
there are some. -/
theorem optional {p : Prop} [Decidable p] {r : Rule Tree} [Reads text r Tree.stretches]
    {f : List Tree → Rule β} (hf : ∀ ts, Writes text (es ++ Tree.stretchesAll ts) (f ts) l) :
    Writes text es (if p then r >>= fun t => Pure.pure [t] >>= f else Pure.pure [] >>= f) l := by
  apply either
  · refine step fun t => known ?_
    have ht := hf [t]
    rw [Tree.stretchesAll, Tree.stretchesAll, List.append_nil] at ht
    exact ht
  · apply known
    have hnone := hf []
    rw [Tree.stretchesAll, List.append_nil] at hnone
    exact hnone

/-- The same where the part is made of several trees. -/
theorem optionalAll {p : Prop} [Decidable p] {r : Rule (List Tree)} [Reads text r Tree.stretchesAll]
    {f : List Tree → Rule β} (hf : ∀ ts, Writes text (es ++ Tree.stretchesAll ts) (f ts) l) :
    Writes text es (if p then r >>= f else Pure.pure [] >>= f) l :=
  either (step hf) ((hf []).of_drawn (by simp))

/-- What is known about the cursor may be used behind `get`. -/
theorem get {f : Cursor → Rule β} (hf : ∀ (env : Environment), env.Sound text → ∀ (c : Cursor) (n : Nat),
    At text n es c → Answers text n l (f c env c)) : Writes text es (MonadState.get >>= f) l :=
  hf

/-- What was passed over only to see what follows it may be gone back to. -/
theorem putBack {r : Rule α} {s : Rule Bool} [Silent text r] [Silent text s] {g : Rule β}
    {h : Unit → Rule β} (hg : Writes text es g l) (hh : Writes text es (h ()) l) :
    Writes text es (MonadState.get >>= fun c => r >>= fun _ => s >>= fun b =>
      if b = true then g else set c >>= h) l := by
  refine get fun env henv c n hc => answers_bind (keep env henv c n hc) fun _ c' hc' =>
    ?_
  refine answers_bind (keep env henv c' n hc') fun b c'' hc'' => ?_
  cases b
  · exact hh env henv c n hc
  · exact hg env henv c'' n hc''

/-- A rule that was tried in vain gives nothing to the one that is read
instead. -/
theorem tryCatch {r : Rule α} {handle : Failure → Rule α} (hr : Writes text [] r k)
    (hhandle : ∀ failure, Writes text [] (handle failure) k) :
    Writes text [] (MonadExcept.tryCatch r handle) k := by
  intro env henv c n hc
  have hstep := hr env henv c n hc
  change Answers text n k (EStateM.tryCatch (r env) (fun failure => handle failure env) c)
  unfold EStateM.tryCatch
  cases hread : r env c with
  | ok a c' =>
    rw [hread] at hstep
    exact hstep
  | error failure c' =>
    rw [hread] at hstep
    exact hhandle failure env henv c' n hstep

end Writes

/-! ## Rules that look

A rule that looks neither moves the cursor nor answers with anything that could
be noted. There are many of these, and a proof about a larger rule should not
have to mention them; they are instances of `Silent`, by composition. A few
look at a place, and what begins there begins between characters
(`Locates`). -/

section Looking

open Writes

instance {r : Rule α} {f : α → Rule β} [Reads text r k] [∀ a, Silent text (f a)] : Silent text (r >>= f) :=
  ⟨forget fun _ => last⟩

instance {p : Prop} [Decidable p] {r s : Rule α} [Silent text r] [Silent text s] :
    Silent text (if p then r else s) := ⟨either last last⟩

instance : Silent text (MonadState.get : Rule Cursor) := ⟨fun _ _ _ _ hc => hc⟩

instance : Silent text (MonadReader.read : Rule Environment) := ⟨fun _ _ _ _ hc => hc⟩

instance (a : α) : Silent text (Pure.pure a : Rule α) := ⟨pure (.nil _)⟩

instance : Silent text token := ⟨pass fun _ => last⟩

instance : Silent text here := ⟨pass fun _ => last⟩

instance : Silent text context := ⟨pass fun _ => last⟩

instance : Silent text nextCursor := ⟨pass fun _ => pass fun _ => last⟩

instance : Silent text next := ⟨pass fun _ => last⟩

instance : Silent text nextOnLine := ⟨pass fun _ => last⟩

instance : Silent text afterBreak := ⟨pass fun _ => last⟩

instance (m : Mark) : Silent text (isMark m) := ⟨pass fun _ => last⟩

instance (ms : List Mark) : Silent text (isAnyMark ms) := ⟨by
  refine pass fun t => ?_
  cases t <;> exact last⟩

instance (w : String) : Silent text (isWord w) := ⟨pass fun _ => last⟩

instance : Silent text isSomeWord := ⟨pass fun _ => last⟩

instance : Silent text isTemplate := ⟨by
  refine pass fun t => ?_
  cases t <;> exact last⟩

instance : Silent text atEnd := ⟨by
  refine pass fun t => ?_
  cases t <;> exact last⟩

instance : Silent text isTyped := ⟨pass fun _ => last⟩

instance : Silent text hasElements := ⟨pass fun _ => last⟩

instance (lo : Nat) : Silent text (extentFrom lo) := ⟨pass fun _ => last⟩

instance : Silent text tokenExtent := ⟨pass fun _ => last⟩

/-- The rule looks at a place between characters. -/
class Locates (text : List Char) (r : Rule α) (place : outParam (α → Nat)) : Prop where
  located : ∀ (env : Environment) (c : Cursor), c.Sound text → ∃ a, r env c = .ok a c ∧ IsBetween text (place a)

instance : Locates text (MonadState.get : Rule Cursor) Cursor.lo := ⟨fun _ c hc => ⟨c, rfl, hc.isBetween⟩⟩

instance : Locates text here fun lo => lo := ⟨fun _ c hc => ⟨c.lo, rfl, hc.isBetween⟩⟩

instance : Locates text tokenExtent Extent.lo := ⟨fun _ c hc => ⟨⟨c.lo, c.hi⟩, rfl, hc.isBetween⟩⟩

instance (lo : Nat) [hlo : Fact (IsBetween text lo)] : Locates text (extentFrom lo) Extent.lo :=
  ⟨fun _ c _ => ⟨⟨lo, c.previous⟩, rfl, hlo.out⟩⟩

/-- What begins at a place that was looked at begins between characters. -/
theorem Writes.located {r : Rule α} {place : α → Nat} [h : Locates text r place] {f : α → Rule β}
    (hf : ∀ a, Fact (IsBetween text (place a)) → Writes text es (f a) l) : Writes text es (r >>= f) l := by
  intro env henv c n hc
  obtain ⟨a, hread, hplace⟩ := h.located env c hc.sound
  exact answers_look hread (hf a ⟨hplace⟩ env henv c n hc)

/-- So does what begins at a place that is noted. -/
theorem Writes.noted {r : Rule α} {p : Nat} (hp : Drawn text [.origin p] es)
    (hr : Fact (IsBetween text p) → Writes text es r k) : Writes text es r k :=
  fun env henv c n hc => hr ⟨(hp n _ hc.row).isBetween (by simp [Stretch.begin?])⟩ env henv c n hc

/-- So does what begins where a tree does that is given. -/
theorem Writes.begun {r : Rule α} {t : Tree} (ht : Drawn text t.stretches es)
    (hr : Fact (IsBetween text t.extent.lo) → Writes text es r k) : Writes text es r k :=
  noted (.trans (.known t.extent_mem_stretches (.nil _)) ht) hr

end Looking

/-! ## Rules that move

A token that is passed over without being kept is silent, too. Only the end of
the previous token has moved on, and a row may be followed by any gap. -/

section Moving

open Writes

/-- A rule that always succeeds and moves on is silent. -/
theorem silent_of_moves {r : Rule α} (h : ∀ (env : Environment) (c : Cursor), c.Sound text →
    ∃ a c', r env c = .ok a c' ∧ c'.Sound text ∧ c.previous ≤ c'.previous) : Silent text r := by
  refine ⟨fun env _ c n hc => ?_⟩
  obtain ⟨a, c', hread, hsound, hle⟩ := h env c hc.sound
  rw [hread]
  exact ⟨hsound, Nat.le_trans hc.row.le hle⟩

instance : Silent text advance :=
  silent_of_moves fun env c hc =>
    ⟨(), c.advance env.context.inType, rfl, hc.advance _, hc.previous_le_hi⟩

instance (m : Mark) : Silent text (takeMark m) := ⟨pass fun _ => either (pass fun _ => last) last⟩

instance (w : String) : Silent text (takeWord w) := ⟨pass fun _ => either (pass fun _ => last) last⟩

end Moving

theorem Token.exists_of_isMark {t : Token} {m : Mark} (h : t.isMark m = true) : t = .mark m := by
  cases t with
  | mark m' => exact congrArg Token.mark (eq_of_beq h)
  | _ => exact absurd h (by simp [Token.isMark])

/-! ## Rules that fail

Failures are answers, too: a rule that is tried may go on behind one, and then
the cursor has to be sound. What is noted is given up with the failure. In
`if wanted then r else fail` only the first branch writes anything, which is
what `Fails` is for. -/

section Failing

open Writes

instance : Silent text passBroken := ⟨by
  refine pass fun t => ?_
  cases t <;> exact last⟩

instance (failure : Failure) : Fails text (MonadExcept.throw failure : Rule α) :=
  ⟨fun _ _ c hc => ⟨failure, c, rfl, hc, Nat.le_refl _⟩⟩

/-- Nothing goes on behind a failure. -/
instance {r : Rule α} {f : α → Rule β} [h : Fails text r] : Fails text (r >>= f) := by
  refine ⟨fun env henv c hc => ?_⟩
  obtain ⟨failure, c', hread, hsound, hle⟩ := h.fails env henv c hc
  refine ⟨failure, c', ?_, hsound, hle⟩
  change EStateM.bind (r env) (fun a => f a env) c = _
  unfold EStateM.bind
  rw [hread]

/-- A rule fails if what comes later does. -/
instance {r : Rule α} {f : α → Rule β} [hr : Reads text r k] [hf : ∀ a, Fails text (f a)] :
    Fails text (r >>= f) := by
  refine ⟨fun env henv c hc => ?_⟩
  have hstep := hr.writes env henv c c.previous ⟨hc, Nat.le_refl _⟩
  change ∃ failure c', EStateM.bind (r env) (fun a => f a env) c = .error failure c' ∧ _
  unfold EStateM.bind
  cases hread : r env c with
  | ok a c' =>
    rw [hread] at hstep
    obtain ⟨failure, c'', hfail, hsound, hle⟩ := (hf a).fails env henv c' hstep.sound
    exact ⟨failure, c'', hfail, hsound, Nat.le_trans hstep.row.le hle⟩
  | error failure c' =>
    rw [hread] at hstep
    exact ⟨failure, c', rfl, hstep.sound, hstep.row⟩

instance (cause : Cause) (place : Nat) : Fails text (fail cause place : Rule α) :=
  inferInstanceAs (Fails text (passBroken >>= fun _ => MonadExcept.throw _))

instance (cause : Cause) : Fails text (failHere cause : Rule α) :=
  inferInstanceAs (Fails text (here >>= fun place => fail cause place))

instance (wanted : String) : Fails text (unexpected wanted : Rule α) :=
  inferInstanceAs (Fails text (token >>= fun t => failHere (.unexpected t.describe wanted)))

instance : Silent text refuseBroken := ⟨by
  refine pass fun t => ?_
  cases t with
  | broken failure => exact pass fun _ => stop
  | _ => exact last⟩

instance (m : Mark) : Silent text (expectMark m) := ⟨pass fun _ => either last (pass fun _ => stop)⟩

/-- The parenthesis in front of arguments may be noted. -/
theorem writes_opening (m : Mark) : Writes text [] (expectMark m) fun _ => [.opening] := by
  intro env henv c n hc
  -- a mark that is there is passed, and is not empty; if it is not there, the
  -- rule fails
  by_cases hm : c.token.isMark m = true
  · have hread : takeMark m env c = .ok true (c.advance env.context.inType) := by
      change (if c.token.isMark m = true then _ else _ : Rule Bool) env c = _
      rw [if_pos hm]
      rfl
    -- the mark is not empty, which is what makes room between two literals
    refine result_of_ok hread ?_
    exact hc.passed (hc.sound.fits.marked m (Token.exists_of_isMark hm)).2 env.context.inType
  · have hread : takeMark m env c = .ok false c := by
      change (if c.token.isMark m = true then _ else _ : Rule Bool) env c = _
      rw [if_neg hm]
      rfl
    refine result_of_ok hread ?_
    exact (stop : Writes text [] (token >>= fun t => failHere (.expected m.spelling t.describe)) _) env henv c n hc

instance (w : String) : Silent text (expectWord w) := ⟨pass fun _ => either last (pass fun _ => stop)⟩

end Failing

/-! ## Rules that are tried

When a rule that was tried fails, the cursor is put back, so that nothing was
read and what had been given is still there. Hence a rule that is tried writes
what it writes, or what it was given. -/

section Trying

open Writes

/-- Asking for the cursor answers the cursor. -/
theorem get_eq (c : Cursor) : (EStateM.get : EStateM Failure Cursor Cursor) c = .ok c c := rfl

/-- What is tried with success counts. -/
theorem attempt_of_ok {r : Rule α} {env : Environment} {c c' : Cursor} {a : α} (h : r env c = .ok a c') :
    attempt r env c = .ok (some a) c' := by
  unfold attempt
  simp only [Bind.bind, ReaderT.bind, EStateM.bind, MonadState.get, getThe, MonadStateOf.get, liftM, monadLift,
    MonadLift.monadLift, get_eq, MonadExcept.tryCatch, tryCatchThe, MonadExceptOf.tryCatch, EStateM.tryCatch]
  rw [h]
  rfl

/-- What is tried in vain leaves the cursor where it was. -/
theorem attempt_of_error {r : Rule α} {env : Environment} {c c' : Cursor} {failure : Failure}
    (h : r env c = .error failure c') : attempt r env c = .ok none c := by
  unfold attempt
  simp only [Bind.bind, ReaderT.bind, EStateM.bind, MonadState.get, getThe, MonadStateOf.get, liftM, monadLift,
    MonadLift.monadLift, get_eq, MonadExcept.tryCatch, tryCatchThe, MonadExceptOf.tryCatch, EStateM.tryCatch]
  rw [h]
  rfl

/-- What was given to a rule that is tried in vain is still there. -/
theorem writes_attempt {r : Rule α} (hr : Writes text es r k) : Writes text es (attempt r) fun a => a.elim es k := by
  intro env henv c n hc
  have hstep := hr env henv c n hc
  cases hread : r env c with
  | ok a c' =>
    rw [attempt_of_ok hread]
    rw [hread] at hstep
    exact hstep
  | error failure c' =>
    rw [attempt_of_error hread]
    exact hc

/-- A rule that is tried may be given something. -/
theorem Writes.tried {r : Rule α} {f : Option α → Rule β} (hr : Writes text es r k)
    (hsome : ∀ a, Writes text (k a) (f (some a)) l) (hnone : Writes text es (f none) l) :
    Writes text es (attempt r >>= f) l :=
  (writes_attempt hr).bind fun a => a.casesOn hnone hsome

instance (r : Rule α) [h : Reads text r k] : Reads text (attempt r) fun a => a.elim [] k :=
  ⟨writes_attempt h.writes⟩

/-- Where a part may be left out, it may also be tried in vain. -/
theorem Writes.optionalTried {p : Prop} [Decidable p] {r : Rule α} [Reads text r k] {f : Option α → Rule β}
    (hf : ∀ a : Option α, Writes text (es ++ a.elim [] k) (f a) l) :
    Writes text es (if p then attempt r >>= f else Pure.pure none >>= f) l := by
  apply either
  · exact step hf
  · apply known
    have hnone := hf none
    rw [Option.elim_none, List.append_nil] at hnone
    exact hnone

/-- Looking ahead moves nothing. -/
theorem lookAhead_eq (r : Rule Bool) (env : Environment) (c : Cursor) : ∃ b, lookAhead r env c = .ok b c := by
  unfold lookAhead
  simp only [Bind.bind, ReaderT.bind, EStateM.bind, MonadState.get, getThe, MonadStateOf.get, liftM, monadLift,
    MonadLift.monadLift, get_eq]
  cases hread : r env c with
  | ok b c' =>
    rw [attempt_of_ok hread]
    exact ⟨b, rfl⟩
  | error failure c' =>
    rw [attempt_of_error hread]
    exact ⟨false, rfl⟩

instance (r : Rule Bool) : Silent text (lookAhead r) :=
  silent_of_moves fun env c hc => by
    obtain ⟨b, hb⟩ := lookAhead_eq r env c
    exact ⟨b, c, hb, hc, Nat.le_refl _⟩

end Trying

/-! ## Combining

Lists and loops, and requests for other phrases. Requests are answered by the
environment, which is sound by assumption. A loop keeps an accumulator in
reverse order; its invariant is what the accumulator has noted, read from the
other end. The fuel of a loop is never what ends it: each round moves on
(`iterate_of_goes`), and where a round may stay, what runs out writes as little
as a failure. -/

section Combining

open Writes

/-- What is asked for is written by whatever is read for it. -/
theorem writes_phrase (p : Phrase) : Writes text p.given (phrase p) Tree.stretches :=
  fun env henv c n hc => henv.2 p env.context c n hc

/-- Most phrases are given nothing to go on with. -/
theorem Reads.of_phrase {p : Phrase} (h : p.given = []) : Reads text (phrase p) Tree.stretches :=
  ⟨h ▸ writes_phrase p⟩

instance : Reads text (phrase .assignment) Tree.stretches := .of_phrase rfl
instance : Reads text (phrase .unary) Tree.stretches := .of_phrase rfl
instance : Reads text (phrase .leftSide) Tree.stretches := .of_phrase rfl
instance : Reads text (phrase .callee) Tree.stretches := .of_phrase rfl
instance : Reads text (phrase .binary) Tree.stretches := .of_phrase rfl
instance : Reads text (phrase .decorator) Tree.stretches := .of_phrase rfl
instance : Reads text (phrase .parent) Tree.stretches := .of_phrase rfl
instance : Reads text (phrase .element) Tree.stretches := .of_phrase rfl
instance : Reads text (phrase .object) Tree.stretches := .of_phrase rfl
instance : Reads text (phrase .type) Tree.stretches := .of_phrase rfl
instance : Reads text (phrase .unconditionalType) Tree.stretches := .of_phrase rfl
instance : Reads text (phrase .target) Tree.stretches := .of_phrase rfl
instance (declarations : Bool) : Reads text (phrase (.statement declarations)) Tree.stretches := .of_phrase rfl
instance : Reads text (phrase .moduleItem) Tree.stretches := .of_phrase rfl

/-- The context does not matter. -/
theorem Writes.within {r : Rule α} (hr : Writes text es r k) (change : Context → Context) :
    Writes text es (Rule.within change r) k :=
  fun env henv c n hc => hr { env with context := change env.context } henv c n hc

instance (change : Context → Context) (r : Rule α) [h : Reads text r k] : Reads text (within change r) k :=
  ⟨h.writes.within change⟩

/-- A loop that runs out of rounds fails, which writes nothing. -/
theorem writes_iterateUpTo {σ : Type} {ks : σ → List Stretch} {step : σ → Rule (σ ⊕ α)}
    (hstep : ∀ s, Writes text (ks s) (step s) (Sum.elim ks k)) (n : Nat) (s : σ) :
    Writes text (ks s) (iterateUpTo n step s) k := by
  induction n generalizing s with
  | zero =>
    unfold iterateUpTo
    exact stop
  | succ n ih =>
    unfold iterateUpTo
    refine (hstep s).bind fun next => ?_
    cases next with
    | inl s' => exact ih s'
    | inr a => exact pure (Drawn.refl _)

/-- **A loop** goes on with what its steps have so far. So a step has to be
looked at only once, with any state of the loop in front of it. -/
theorem writes_iterate {σ : Type} (ks : σ → List Stretch) {step : σ → Rule (σ ⊕ α)}
    (hstep : ∀ s, Writes text (ks s) (step s) (Sum.elim ks k)) (s : σ) :
    Writes text (ks s) (iterate step s) k :=
  pass fun _ => pass fun _ => writes_iterateUpTo hstep _ s

/-- A loop that begins with nothing. -/
theorem Reads.iterate {σ : Type} (ks : σ → List Stretch) {step : σ → Rule (σ ⊕ α)} {s : σ} (hs : ks s = [])
    (hstep : ∀ s, Writes text (ks s) (step s) (Sum.elim ks k)) : Reads text (Rule.iterate step s) k :=
  ⟨hs ▸ writes_iterate ks hstep s⟩

/-- What several trees write is what each of them writes. -/
@[simp] theorem flatMap_stretches (ts : List Tree) : ts.flatMap Tree.stretches = Tree.stretchesAll ts :=
  (Tree.stretchesAll_eq_flatMap ts).symm

/-- What a loop has collected so far, the last tree first. -/
def collected (done : List Tree) : List Stretch := Tree.stretchesAll done.reverse

@[simp] theorem collected_cons (t : Tree) (done : List Tree) : collected (t :: done) = collected done ++ t.stretches := by
  simp [collected]

/-- A loop that collects trees. -/
theorem Reads.collect {step : List Tree → Rule (List Tree ⊕ List Tree)}
    (hstep : ∀ done, Writes text (collected done) (step done) (Sum.elim collected Tree.stretchesAll)) :
    Reads text (Rule.iterate step []) Tree.stretchesAll :=
  .iterate collected rfl hstep

theorem silent_iterate {σ : Type} {step : σ → Rule (σ ⊕ α)} {s : σ}
    (h : ∀ s, Writes text [] (step s) fun _ => []) : Silent text (Rule.iterate step s) :=
  Reads.iterate (fun _ => []) rfl fun s => (h s).mono fun a => by cases a <;> exact Drawn.refl _

/-- A step of a loop either goes on with something of which `P` holds, and has
then come behind the place `m`, or it ends the loop with something of which `Q`
holds. -/
def Goes {σ : Type} (P : σ → Cursor → Prop) (Q : EStateM.Result Failure Cursor α → Prop) (m : Nat) :
    EStateM.Result Failure Cursor (σ ⊕ α) → Prop
  | .ok (.inl s) c => P s c ∧ m < c.lo
  | .ok (.inr a) c => Q (.ok a c)
  | .error failure c => Q (.error failure c)

/-- **A loop that moves on** does not run out of steps: there are as many as
the text has places. -/
theorem iterate_of_goes {σ : Type} {step : σ → Rule (σ ⊕ α)} {env : Environment} {P : σ → Cursor → Prop}
    {Q : EStateM.Result Failure Cursor α → Prop} (hbound : ∀ s c, P s c → c.lo ≤ env.size)
    (hstep : ∀ s c, P s c → Goes P Q c.lo (step s env c)) {s : σ} {c : Cursor} (h : P s c) :
    Q (Rule.iterate step s env c) := by
  -- each round leaves fewer bytes ahead, so the rounds do not run out
  have hsteps (n : Nat) : ∀ s c, P s c → env.size + 2 ≤ c.lo + n → Q (iterateUpTo n step s env c) := by
    induction n with
    | zero =>
      intro s c h hn
      have := hbound s c h
      omega
    -- one round is read, and the others by the induction
    | succ n ih =>
      intro s c h hn
      have hone := hstep s c h
      unfold iterateUpTo
      change Q (EStateM.bind (step s env) _ c)
      unfold EStateM.bind
      cases hread : step s env c with
      | error failure c' =>
        rw [hread] at hone
        exact hone
      | ok next c' =>
        rw [hread] at hone
        cases next with
        | inl s' => exact ih s' c' hone.1 (by have := hone.2; omega)
        | inr a => exact hone
  exact hsteps _ s c h (by omega)

/-- A rule that is read as often as something is seen writes its answers one
after the other. -/
theorem writes_manyWhile {more : Rule Bool} {item : Rule α} [Silent text more] [Reads text item k] :
    Writes text [] (manyWhile more item) fun done => done.flatMap k := by
  refine (Reads.iterate (fun done : List α => done.reverse.flatMap k) rfl fun done => ?_).writes
  refine pass fun _ => either ?_ ?_
  · refine step fun a => pure ?_
    simp only [Sum.elim_inl, List.reverse_cons, List.flatMap_append, List.flatMap_singleton]
    exact Drawn.refl _
  · exact pure (Drawn.refl _)

instance Reads.manyWhile {more : Rule Bool} {item : Rule Tree} [Silent text more] [Reads text item Tree.stretches] :
    Reads text (Rule.manyWhile more item) Tree.stretchesAll :=
  ⟨writes_manyWhile.mono fun ts => by simp⟩

instance silent_manyWhile {more : Rule Bool} {item : Rule α} [Silent text more] [Silent text item] :
    Silent text (Rule.manyWhile more item) :=
  ⟨writes_manyWhile.mono fun _ => .nil _⟩

/-- A list whose items are separated by commas writes what its items write. -/
theorem writes_separated {close : Mark} {item : Rule α} [Reads text item k] :
    Writes text [] (separated close item) fun done => done.flatMap k := by
  refine (Reads.iterate (fun done : List α => done.reverse.flatMap k) rfl fun done => ?_).writes
  refine pass fun _ => either (pure (Drawn.refl _)) ?_
  refine step fun a => pass fun _ => ?_
  have hnext : Writes text (done.reverse.flatMap k ++ k a) (Pure.pure (.inl (a :: done)))
      (Sum.elim (fun done : List α => done.reverse.flatMap k) fun done : List α => done.flatMap k) := by
    refine pure ?_
    simp only [Sum.elim_inl, List.reverse_cons, List.flatMap_append, List.flatMap_singleton]
    exact Drawn.refl _
  exact either hnext (pass fun _ => hnext)

instance Reads.separated {close : Mark} {item : Rule Tree} [Reads text item Tree.stretches] :
    Reads text (Rule.separated close item) Tree.stretchesAll :=
  ⟨writes_separated.mono fun ts => by simp⟩

instance {close : Mark} {item : Rule α} [Silent text item] : Silent text (separated close item) :=
  ⟨writes_separated.mono fun _ => .nil _⟩

instance {r : Rule α} {s : Rule β} [Silent text r] [Reads text s l] : Reads text (r *> s) l :=
  ⟨show Writes text [] (r >>= fun _ => s) l from pass fun _ => last⟩

end Combining

/-! ## Ends of statements, and expressions

What several parts of the grammar have in common. Templates are the one place
where the cursor is not sound in between: a piece behind a substitution begins
with the brace that closes this, which is no quote, so there only
`Cursor.Steady` holds (`AtPiece`). It is sound again as soon as the piece has
been passed. -/

section Common

open Writes

instance : Silent text mayEnd := ⟨by
  refine pass fun t => ?_
  split
  all_goals exact last⟩

instance : Silent text takeEnd := ⟨pass fun _ => either last last⟩

instance : Silent text expectEnd := ⟨pass fun _ => either last (pass fun _ => stop)⟩

instance : Reads text expression Tree.stretches := ⟨by
  refine located fun lo _ => step fun first => pass fun _ => either ?_ ?_
  · refine step fun others => located fun _ _ => pure ?_
    simp
  · exact pure (Drawn.refl _)⟩

instance (r : Rule α) [Reads text r k] : Reads text (enclosed r) k := ⟨last.within _⟩

instance : Reads text enclosedExpression Tree.stretches :=
  inferInstanceAs (Reads text (enclosed expression) Tree.stretches)

instance : Reads text enclosedAssignment Tree.stretches :=
  inferInstanceAs (Reads text (enclosed (phrase .assignment)) Tree.stretches)

instance : Reads text bindingName Tree.stretches := ⟨by
  refine located fun c _ => ?_
  split
  · exact pass fun _ => pure (by simp)
  · refine pass fun _ => pass fun _ => either ?_ ?_
    · exact pass fun _ => either (pure (by simp)) (pass fun _ => either stop stop)
    · exact either stop (pure (by simp))
  · exact stop⟩

instance : Reads text memberName Tree.stretches := ⟨by
  refine located fun c _ => ?_
  split
  · exact pass fun _ => pure (by simp)
  · exact stop⟩

/-- The piece of a template behind a substitution begins where the brace stands
that closes it. -/
theorem fits_templatePiece {c : Cursor} (hc : c.Sound text) {m : Mark} (hm : c.token = .mark m)
    {piece : Reading TemplatePiece}
    (h : templatePiece 0 (c.begins + 1) (.ok []) (c.here.drop 1) = some piece) :
    Lexeme.Fits text c.begins c.here
      ⟨.template piece.value.value piece.value.closed, piece.stop, piece.rest⟩ := by
  obtain ⟨hstands, hle⟩ :=
    inStep_templatePiece 0 (.ok []) ((hc.fits.marked m hm).1.stands hc.stands) piece h
  exact ⟨⟨hstands, Nat.le_of_succ_le hle⟩, fun _ => hle, by simp⟩

/-- The cursor stands where a template is read on: on a piece of it, which need
not begin with a quote. -/
structure AtPiece (text : List Char) (n : Nat) (done : List Tree) (c : Cursor) : Prop where
  steady : c.Steady text
  row : Row text n (collected done) c.previous
  sound : (∀ value closed, c.token ≠ .template value closed) → c.Sound text

/-- Reading a piece comes to the next one, which is behind the place `m`, or to
the end of the template. -/
abbrev Pieces (text : List Char) (n m : Nat) : EStateM.Result Failure Cursor (List Tree ⊕ List Tree) → Prop :=
  Goes (AtPiece text n) (Answers text n Tree.stretchesAll) m

/-- A failure ends the loop over pieces. -/
theorem pieces_of_fails {n m : Nat} {es : List Stretch} {r : Rule (List Tree ⊕ List Tree)} [hr : Fails text r]
    {env : Environment} (henv : env.Sound text) {c : Cursor} (hc : At text n es c) : Pieces text n m (r env c) := by
  obtain ⟨failure, c', hread, hsound, hle⟩ := hr.fails env henv c hc.sound
  rw [hread]
  exact ⟨hsound, Nat.le_trans hc.row.le hle⟩

/-- Behind a substitution, a template is read on further on. -/
theorem pieces_reread {n m : Nat} {done : List Tree} {inner : Tree} {env : Environment} (henv : env.Sound text)
    {c : Cursor} (hc : At text n (collected done ++ inner.stretches) c) (hm : m < c.previous) :
    Pieces text n m ((do
      unless c.token.isMark .rightBrace do unexpected "\x60\x7d\x60"
      match templatePiece 0 (c.begins + 1) (.ok []) (c.here.drop 1) with
      | some piece =>
        set (c.reread ⟨.template piece.value.value piece.value.closed, piece.stop, piece.rest⟩)
        return .inl (inner :: done)
      | none => fail .unterminatedTemplate c.lo : Rule (List Tree ⊕ List Tree)) env c) := by
  by_cases hbrace : c.token.isMark .rightBrace = true
  · simp only [hbrace, if_true]
    cases hread : templatePiece 0 (c.begins + 1) (.ok []) (c.here.drop 1) with
    | some piece =>
      have hsteady := hc.sound.reread (fits_templatePiece hc.sound (Token.exists_of_isMark hbrace) hread)
      refine ⟨⟨hsteady, ?_, fun hpiece => absurd rfl (hpiece _ _)⟩, Nat.lt_of_lt_of_le hm hc.sound.previous_le⟩
      rw [collected_cons]
      exact hc.row
    | none => exact pieces_of_fails (r := fail _ _) henv hc
  · simp only [hbrace, Bool.false_eq_true, if_false]
    exact pieces_of_fails (r := unexpected _ >>= _) henv hc

instance (lenient : Bool) (hole : Rule Tree) [hhole : Reads text hole Tree.stretches] :
    Reads text (templateHoles lenient hole) Tree.stretchesAll := by
  refine ⟨fun env henv c n hc => ?_⟩
  refine iterate_of_goes (P := AtPiece text n) ?_ ?_ ⟨hc.sound.toSteady, hc.row, fun _ => hc.sound⟩
  · intro done c h
    rw [henv.1]
    exact h.steady.isBetween.le
  intro done c h
  obtain ⟨t, lo, begins, hi, here, rest, afterBreak, previous, arrowStart⟩ := c
  cases t with
  | template value closed =>
    have hlt : lo < hi := Nat.lt_of_le_of_lt h.steady.lo_le (h.steady.fits.quoted rfl)
    have hrow : Row text n (collected done) hi := h.row.widen (Nat.le_refl n) h.steady.previous_le_hi
    have hsound := h.steady.advance env.context.inType
    -- whether the piece denotes something decides only whether it is refused
    have hgoes : Pieces text n lo ((do
        advance
        if closed then return .inr done.reverse
        let inner ← hole
        let c ← get
        unless c.token.isMark .rightBrace do unexpected "\x60\x7d\x60"
        match templatePiece 0 (c.begins + 1) (.ok []) (c.here.drop 1) with
        | some piece =>
          set (c.reread ⟨.template piece.value.value piece.value.closed, piece.stop, piece.rest⟩)
          return .inl (inner :: done)
        | none => fail .unterminatedTemplate c.lo : Rule (List Tree ⊕ List Tree)) env
        ⟨.template value closed, lo, begins, hi, here, rest, afterBreak, previous, arrowStart⟩) := by
      refine result_of_ok rfl ?_
      cases closed with
      | true => exact ⟨hsound, hrow⟩
      | false =>
        refine result_bind (hhole.writes env henv _ hi ⟨hsound, Nat.le_refl hi⟩) ?_ ?_
        · exact fun failure c' hc' => ⟨hc'.sound, Nat.le_trans hrow.le hc'.row⟩
        · intro inner c' hc'
          exact pieces_reread henv ⟨hc'.sound, hrow.append hc'.row⟩ (Nat.lt_of_lt_of_le hlt hc'.row.le)
    obtain failure | value := value
    · cases lenient with
      | true => exact hgoes
      | false => exact ⟨h.steady.sound rfl, h.row.le⟩
    · exact hgoes
  | _ => exact ⟨h.sound (by simp), h.row⟩

end Common

end Rule

end LocaleKeys.Script
