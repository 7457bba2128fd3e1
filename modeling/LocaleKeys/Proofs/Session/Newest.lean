/-
Which of several calls takes effect.

A call that is overtaken by a newer one is meant to publish its files and to
leave it at that. It finds out by comparing locales: it installs its watcher if
the locale that it has selected is the current one. Between the two lie the
moves that newer calls have made, so that the comparison asks where these moves
lead (`Overlap.InStep`). If they lead back to the same locale, as they do
whenever their number is a multiple of the number of locales, the call does not
notice that it was overtaken. With a single locale no call ever does.
-/
import LocaleKeys.Proofs.Session.Following
import Mathlib.Data.Nat.ModEq
import Mathlib.Logic.Function.Iterate

set_option autoImplicit false

namespace LocaleKeys

namespace Store

/-! ## Going round

A move looks the current locale up by name. Iterating a function on names is
therefore what moves do, and it comes back after as many steps as there are
locales, and not before, if none is listed twice. -/

/-- The locale behind `locale`. -/
def following (supported : List String) (locale : String) : String :=
  (nextLocale? supported locale).getD locale

/-- Wherever a locale is listed, the same one stands behind it, where the first
stands behind the last. -/
def GoesRound (supported : List String) : Prop :=
  ∀ (i j : Nat) (locale : String), supported[i]? = some locale → supported[j]? = some locale →
    supported[(i + 1) % supported.length]? = supported[(j + 1) % supported.length]?

/-- A list in which no locale is repeated. -/
theorem goesRound_of_nodup {supported : List String} (h : supported.Nodup) : GoesRound supported := by
  intro i j locale hi hj
  obtain ⟨hlt, -⟩ := List.getElem?_eq_some_iff.mp hi
  rw [(List.getElem?_inj hlt h).mp (hi.trans hj.symm)]

/-- The first place of a locale in the list decides which one comes next. -/
theorem exists_nextLocale?_eq {supported : List String} {locale : String} (h : locale ∈ supported) :
    ∃ i, supported[i]? = some locale ∧
      nextLocale? supported locale = supported[(i + 1) % supported.length]? := by
  cases hplace : supported.findIdx? (· == locale) with
  | none => exact absurd (List.findIdx?_eq_none_iff.mp hplace locale h) (by simp)
  | some i =>
    obtain ⟨hi, heq, -⟩ := List.findIdx?_eq_some_iff_getElem.mp hplace
    refine ⟨i, List.getElem?_eq_some_iff.mpr ⟨hi, eq_of_beq heq⟩, ?_⟩
    rw [nextLocale?, hplace]

/-- Behind every locale of the list there is a next one. -/
theorem nextLocale?_eq_following {supported : List String} {locale : String} (h : locale ∈ supported) :
    nextLocale? supported locale = some (following supported locale) := by
  obtain ⟨i, hi, hnext⟩ := exists_nextLocale?_eq h
  obtain ⟨hlt, -⟩ := List.getElem?_eq_some_iff.mp hi
  rw [following, hnext, List.getElem?_eq_getElem (Nat.mod_lt _ (Nat.zero_lt_of_lt hlt)), Option.getD_some]

/-- Behind the locale at one place stands the one at the next place, and behind
the last the first. -/
theorem getElem?_following {supported : List String} (hround : GoesRound supported) {i : Nat}
    {locale : String} (h : supported[i]? = some locale) :
    supported[(i + 1) % supported.length]? = some (following supported locale) := by
  obtain ⟨j, hj, hnext⟩ := exists_nextLocale?_eq (List.mem_of_getElem? h)
  rw [hround i j locale h hj, ← hnext, nextLocale?_eq_following (List.mem_of_getElem? h)]

/-- The locale that so many moves lead to. -/
theorem getElem?_iterate_following {supported : List String} (hround : GoesRound supported) {i : Nat}
    {locale : String} (h : supported[i]? = some locale) (k : Nat) :
    supported[(i + k) % supported.length]? = some ((following supported)^[k] locale) := by
  obtain ⟨hi, -⟩ := List.getElem?_eq_some_iff.mp h
  induction k with
  | zero => rwa [Nat.add_zero, Nat.mod_eq_of_lt hi]
  | succ k ih =>
    rw [Function.iterate_succ_apply', ← getElem?_following hround ih, Nat.mod_add_mod, Nat.add_assoc]

/-- **Moves lead back to the same locale** exactly if they go round completely.
Each move adds one to the place in the list, so this is a question of
remainders. -/
theorem iterate_following_eq_self_iff {supported : List String} (hnodup : supported.Nodup)
    {locale : String} (hlocale : locale ∈ supported) (k : Nat) :
    (following supported)^[k] locale = locale ↔ supported.length ∣ k := by
  obtain ⟨i, hi⟩ := List.getElem?_of_mem hlocale
  obtain ⟨hlt, -⟩ := List.getElem?_eq_some_iff.mp hi
  have hback : (following supported)^[k] locale = locale ↔ i = (i + k) % supported.length := by
    have hk := getElem?_iterate_following (goesRound_of_nodup hnodup) hi k
    constructor
    · intro heq
      rw [heq] at hk
      exact (List.getElem?_inj hlt hnodup).mp (hi.trans hk.symm)
    · intro heq
      rw [← heq, hi] at hk
      exact (Option.some.inj hk).symm
  have hmod : i ≡ i + k [MOD supported.length] ↔ i = (i + k) % supported.length := by
    rw [Nat.ModEq, Nat.mod_eq_of_lt hlt]
  rw [hback, ← hmod, Nat.modEq_iff_dvd' (Nat.le_add_right i k), Nat.add_sub_cancel_left]

/-- Moves do not leave the list. -/
theorem following_mem {supported : List String} {locale : String} (h : locale ∈ supported) :
    following supported locale ∈ supported := by
  rw [following]
  cases hnext : nextLocale? supported locale with
  | none => exact h
  | some next =>
    rw [nextLocale?] at hnext
    split at hnext
    · exact List.mem_of_getElem? hnext
    · exact List.mem_of_mem_head? hnext

end Store

namespace Overlap

/-! ## Where calls stand

A call remembers the number of moves that had been made when it selected its
locale. The program does not keep this number. It serves here to say which
calls are the newest, so that what the program does can be compared with what
it is meant to do. -/

/-- The moves since a call has selected its locale lead from this locale to the
current one. -/
structure InStep (supported : List String) (o : Overlap) : Prop where
  settings : o.session.settings.supportedLocales = supported
  member : o.session.locale ∈ supported
  called : ∀ c ∈ o.calls, c.moves ≤ o.moves ∧ c.activation.locale ∈ supported ∧
    (Store.following supported)^[o.moves - c.moves] c.activation.locale = o.session.locale

section

variable {supported : List String} {o : Overlap}

/-- A step that does not move on and adds no call. -/
theorem InStep.of_calls (h : o.InStep supported) {o' : Overlap}
    (hsettings : o'.session.settings = o.session.settings)
    (hlocale : o'.session.locale = o.session.locale) (hmoves : o'.moves = o.moves)
    (hcalls : ∀ c ∈ o'.calls, ∃ c' ∈ o.calls, c'.activation = c.activation ∧ c'.moves = c.moves) :
    o'.InStep supported := by
  refine ⟨by rw [hsettings]; exact h.settings, by rw [hlocale]; exact h.member, fun c hc => ?_⟩
  obtain ⟨c', hc', hactivation, hmoves'⟩ := hcalls c hc
  rw [hmoves, hlocale, ← hactivation, ← hmoves']
  exact h.called c' hc'

/-- A call that selects the current locale is in step. -/
theorem InStep.selecting (h : o.InStep supported) (d : Disk) :
    (o.selecting d o.session.locale).InStep supported := by
  refine ⟨h.settings, h.member, fun c hc => ?_⟩
  rcases List.mem_append.mp hc with hc | hc
  · exact h.called c hc
  · -- the call that has just begun: no move lies between
    rw [Option.mem_toList] at hc
    obtain ⟨a, ha, rfl⟩ := Option.map_eq_some_iff.mp hc
    have hlocale : a.locale = o.session.locale := (Session.select_eq_ok ha).1
    refine ⟨Nat.le_refl _, hlocale ▸ h.member, ?_⟩
    rw [show (o.selecting d o.session.locale).moves = o.moves from rfl, Nat.sub_self]
    exact hlocale

/-- Where the session moves on, all calls fall back by one move. -/
theorem InStep.moved (h : o.InStep supported) {next : String}
    (hnext : Store.nextLocale? o.session.settings.supportedLocales o.session.locale = some next) :
    (o.moved next).InStep supported := by
  have hfollowing : Store.following supported o.session.locale = next := by
    rw [Store.following, ← h.settings, hnext, Option.getD_some]
  refine ⟨h.settings, ?_, fun c hc => ?_⟩
  · have hmember := Store.following_mem h.member
    rwa [hfollowing] at hmember
  · obtain ⟨hle, hmember, hmoves⟩ := h.called c hc
    refine ⟨Nat.le_succ_of_le hle, hmember, ?_⟩
    rw [show (o.moved next).moves = o.moves + 1 from rfl, Nat.succ_sub hle,
      Function.iterate_succ_apply', hmoves, hfollowing]
    rfl

/-- **Every step keeps the calls in step.** A move makes the count greater by
one and goes on by one locale, for all calls alike. -/
theorem InStep.does (h : o.InStep supported) {step : Happening} {o' : Overlap}
    (hdoes : o.Does step o') : o'.InStep supported := by
  have hself : ∀ c ∈ o.calls, ∃ c' ∈ o.calls, c'.activation = c.activation ∧ c'.moves = c.moves :=
    fun c hc => ⟨c, hc, rfl, rfl⟩
  have hothers : ∀ i, ∀ c ∈ o.calls.eraseIdx i,
      ∃ c' ∈ o.calls, c'.activation = c.activation ∧ c'.moves = c.moves :=
    fun i c hc => hself c (List.mem_of_mem_eraseIdx hc)
  cases hdoes with
  | idle => exact h
  | start d henabled => exact h.selecting d
  | switch d next hnext henabled => exact (h.moved hnext).selecting d
  | move d next hnext hdisabled => exact h.moved hnext
  | commit i outcome c hcall hnew =>
    refine h.of_calls rfl rfl rfl fun c' hc' => ?_
    rcases List.mem_or_eq_of_mem_set hc' with hc' | rfl
    · exact hself c' hc'
    · exact ⟨c, List.mem_of_getElem? hcall, rfl, rfl⟩
  | install i now c hcall hcommitted hcurrent => exact h.of_calls rfl rfl rfl (hothers i)
  | discard i now c hcall hcommitted hother => exact h.of_calls rfl rfl rfl (hothers i)
  | kept u w hwatcher =>
    obtain ⟨hsettings, -, hlocale⟩ := o.session.take_frame w.locale (w.yielded? u)
    exact h.of_calls hsettings hlocale rfl hself
  | stray i u w hretired =>
    obtain ⟨hsettings, -, hlocale⟩ := o.session.take_frame w.locale (w.yielded? u)
    exact h.of_calls hsettings hlocale rfl hself
  | shutDown => exact h.of_calls rfl rfl rfl hself

end

theorem inStep_run {supported : List String} {o : Overlap} (h : o.InStep supported)
    (steps : List Happening) : (o.run steps).InStep supported := by
  induction steps using List.reverseRecOn with
  | nil => exact h
  | append_singleton steps step ih =>
    rw [run_append, run_singleton]
    exact ih.does (does_perform _ step)

/-- The calls of a new session are in step. -/
theorem inStep_create {settings : Settings} {root : Path} {loader : Loader} {source : WatchSource}
    {s : Session} (h : Session.create settings root loader source = .ok s) :
    InStep settings.supportedLocales { session := s } := by
  obtain ⟨first, locales, hlocales, rfl⟩ := Session.create_eq_ok h
  refine ⟨rfl, ?_, fun c hc => absurd hc (by simp)⟩
  rw [hlocales]
  exact List.mem_cons_self

/-! ## The end of a call

The source says of a load that finishes after a newer switch that it installs
no watcher. What is compared are the names of locales, and moves that lead back
to the same name are not noticed. The theorem says for any moves which of the
two happens. -/

/-- At its end a call compares its locale with the current one. -/
theorem session_install (o : Overlap) {i : Nat} {c : Call} (hcall : o.calls[i]? = some c)
    (hcommitted : c.committed = true) (now : Nat) :
    (o.perform (.install i now)).session = o.session.install now c.activation := by
  rw [perform, hcall]
  dsimp only
  rw [if_pos hcommitted]

/-- **Whether a call takes effect at its end.** It installs no watcher and
announces nothing exactly if the moves that were made since it selected its
locale do not lead back to this locale. If they do, it puts its own watcher in
the place of the one that is there and announces a change. Where no locale is
listed twice, the moves lead back exactly if their number is a multiple of the
number of locales. -/
theorem call_inert_iff_moves {settings : Settings} {root : Path} {loader : Loader}
    {source : WatchSource} {s : Session} (hcreate : Session.create settings root loader source = .ok s)
    (steps : List Happening) {i : Nat} {c : Call}
    (hcall : (run { session := s } steps).calls[i]? = some c) (hcommitted : c.committed = true)
    (now : Nat) :
    let o := run { session := s } steps
    let locale := c.activation.locale
    let back := (Store.following settings.supportedLocales)^[o.moves - c.moves] locale
    ((o.perform (.install i now)).session = o.session ↔ back ≠ locale) ∧
      (back = locale → (o.perform (.install i now)).session =
        { o.session with
          watcher := some (.install o.session.source now o.session.settings.pollIntervalMs.toNat
            locale c.activation.files)
          announced := o.session.announced + 1 }) ∧
      (settings.supportedLocales.Nodup →
        (back = locale ↔ settings.supportedLocales.length ∣ o.moves - c.moves)) := by
  intro o locale back
  obtain ⟨-, hmember, hmoves⟩ :=
    (inStep_run (inStep_create hcreate) steps).called c (List.mem_of_getElem? hcall)
  rw [session_install o hcall hcommitted, Session.install]
  rw [show o.session.locale = back from hmoves.symm]
  refine ⟨?_, fun hback => ?_, fun hnodup => ?_⟩
  · constructor
    · intro hsame hback
      -- the announcement is counted
      rw [if_pos (beq_iff_eq.mpr hback)] at hsame
      exact absurd (congrArg Session.announced hsame) (Nat.succ_ne_self _)
    · intro hback
      rw [if_neg (by simpa using hback)]
  · rw [if_pos (beq_iff_eq.mpr hback)]
    rfl
  · exact Store.iterate_following_eq_self_iff hnodup hmember _

/-- Two locales and two calls that both begin before either is loaded: the
first call is overtaken, one move does not lead back, and so it is inert. -/
theorem call_inert_of_two_locales :
    let settings : Settings :=
      { supportedLocales := ["en", "zh"], localePaths := [localePlaceholder ++ ".json"] }
    let s : Session := ⟨settings, ⟨"."⟩, jsonLoader, .polling, .fresh "en", none, 0⟩
    let o := run { session := s } [.switch {}, .switch {}, .commit 0 fun _ => .ok ∅]
    ∃ c, Session.create settings ⟨"."⟩ jsonLoader .polling = .ok s ∧ o.calls[0]? = some c ∧
      c.committed = true ∧ c.moves < o.moves ∧
      (o.perform (.install 0 0)).session = o.session := by
  intro settings s o
  have hcreate : Session.create settings ⟨"."⟩ jsonLoader .polling = .ok s := rfl
  have hcall : o.calls[0]? = some ⟨⟨"zh", []⟩, 1, true⟩ := by decide +kernel
  refine ⟨_, hcreate, hcall, rfl, by decide +kernel, ?_⟩
  refine (call_inert_iff_moves hcreate _ hcall rfl 0).1.mpr ?_
  decide +kernel

/-- **An overtaken call may take effect.** With a single locale, the older of
two calls that both begin before either is loaded installs its watcher and
announces a change. -/
theorem overtaken_call_installs :
    ¬ ∀ (settings : Settings) (root : Path) (loader : Loader) (source : WatchSource) (s : Session),
      Session.create settings root loader source = .ok s → settings.enabled = true →
      ∀ (steps : List Happening) (i : Nat) (c : Call) (now : Nat),
        (run { session := s } steps).calls[i]? = some c → c.committed = true →
        c.moves < (run { session := s } steps).moves →
        ((run { session := s } steps).perform (.install i now)).session
          = (run { session := s } steps).session := by
  intro hall
  let settings : Settings :=
    { supportedLocales := ["en"], localePaths := [localePlaceholder ++ ".json"] }
  let s : Session := ⟨settings, ⟨"."⟩, jsonLoader, .polling, .fresh "en", none, 0⟩
  have hcall : (run { session := s } [.switch {}, .switch {}, .commit 0 fun _ => .ok ∅]).calls[0]?
      = some ⟨⟨"en", []⟩, 1, true⟩ := by decide +kernel
  have hsame := hall settings ⟨"."⟩ jsonLoader .polling s rfl rfl _ 0 _ 0 hcall rfl
    (by decide +kernel)
  have hannounced := congrArg Session.announced hsame
  exact absurd hannounced (by decide +kernel)

end Overlap

end LocaleKeys
