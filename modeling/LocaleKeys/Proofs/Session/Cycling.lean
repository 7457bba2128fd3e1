/-
Going round the locales.

A session keeps no count of its moves. It looks for the name of the current
locale in the list and goes to the entry behind the first place where it finds
it. So the moves are those of a function on names, the same in every session
and at all times (`Moment.answers_eq_iterate`), and they go through the list in
its order exactly if wherever a name is listed the same one stands behind it
(`Store.GoesRound`). A list without repetitions is of this kind. In one with
repetitions the moves may stay at an entry for ever, and never come to what
stands behind it.

To put another locale first turns the list round. Where the moves go through
the list in its order, that is the only thing that it changes.
-/
import LocaleKeys.Command.Project
import LocaleKeys.Proofs.Session.Newest
import LocaleKeys.Proofs.Session.Publishing
import LocaleKeys.Proofs.Session.Timeline
import Mathlib.Data.List.Iterate
import Mathlib.Data.List.Rotate

set_option autoImplicit false

namespace LocaleKeys

namespace Store

/-! ## Lists that are gone round

The moves follow names, and the list has places. The two can be compared
because the first place of a name decides, so that a function on names stands
for the whole list (`Store.following`). Going through the list place by place
with it is possible exactly if the places of a name agree on what comes
behind. -/

variable {locales : List String}

/-- The moves from the first locale go through the list in its order, and back
to its start. -/
theorem iterate_following_eq_rotate_iff {first : String} (hfirst : locales.head? = some first) :
    List.iterate (following locales) (following locales first) locales.length = locales.rotate 1 ↔
      GoesRound locales := by
  have hzero : locales[0]? = some first := List.head?_eq_getElem? ▸ hfirst
  constructor
  · intro h
    have hbehind : ∀ i < locales.length,
        locales[(i + 1) % locales.length]? = some ((following locales)^[i + 1] first) := by
      intro i hi
      rw [← List.getElem?_rotate hi, ← h, List.getElem?_iterate _ _ _ _ hi, Function.iterate_succ_apply]
    -- the entry at a place is where as many moves lead, and so decides what
    -- comes behind it
    have hat : ∀ i < locales.length, locales[i]? = some ((following locales)^[i] first) := by
      intro i hi
      cases i with
      | zero => exact hzero
      | succ i => rw [← hbehind i (by omega), Nat.mod_eq_of_lt hi]
    intro i j locale hi hj
    obtain ⟨hi', -⟩ := List.getElem?_eq_some_iff.mp hi
    obtain ⟨hj', -⟩ := List.getElem?_eq_some_iff.mp hj
    have hi := Option.some.inj ((hat i hi').symm.trans hi)
    have hj := Option.some.inj ((hat j hj').symm.trans hj)
    rw [hbehind i hi', hbehind j hj', Function.iterate_succ_apply', Function.iterate_succ_apply', hi, hj]
  -- conversely, as many moves as one likes lead to as many places further on
  · intro hround
    refine List.ext_getElem? fun i => ?_
    by_cases hi : i < locales.length
    · rw [List.getElem?_rotate hi, List.getElem?_iterate _ _ _ _ hi, ← Function.iterate_succ_apply,
        ← getElem?_iterate_following hround hzero (i + 1), Nat.zero_add]
    · rw [List.getElem?_eq_none (by rw [List.length_iterate]; omega),
        List.getElem?_eq_none (by rw [List.length_rotate]; omega)]

/-- What comes behind an entry of a list that was turned round. -/
theorem getElem?_rotate_mod (k i : Nat) :
    (locales.rotate k)[i % (locales.rotate k).length]? = locales[(i + k) % locales.length]? := by
  rw [List.length_rotate]
  rcases Nat.eq_zero_or_pos locales.length with hempty | hpositive
  · obtain rfl := List.eq_nil_of_length_eq_zero hempty
    rfl
  · rw [List.getElem?_rotate (Nat.mod_lt i hpositive), Nat.mod_add_mod]

/-- **Turning a list round** changes neither that it is gone round nor what
comes behind its locales. Places are counted around the list, so that all of
them move by the same number. -/
theorem GoesRound.rotate (h : GoesRound locales) (k : Nat) :
    GoesRound (locales.rotate k) ∧
      ∀ locale ∈ locales, nextLocale? (locales.rotate k) locale = nextLocale? locales locale := by
  have hbehind : ∀ i locale, (locales.rotate k)[i]? = some locale →
      (locales.rotate k)[(i + 1) % (locales.rotate k).length]? = some (following locales locale) := by
    intro i locale hi
    obtain ⟨hlt, -⟩ := List.getElem?_eq_some_iff.mp hi
    have hplace : locales[(i + k) % locales.length]? = some locale := by
      rw [← getElem?_rotate_mod, Nat.mod_eq_of_lt hlt]
      exact hi
    rw [getElem?_rotate_mod, ← getElem?_following h hplace, Nat.mod_add_mod, Nat.add_right_comm]
  refine ⟨fun i j locale hi hj => (hbehind i locale hi).trans (hbehind j locale hj).symm, ?_⟩
  intro locale hlocale
  obtain ⟨i, hi, hnext⟩ := exists_nextLocale?_eq hlocale
  obtain ⟨j, hj, hnext'⟩ := exists_nextLocale?_eq (List.mem_rotate.mpr hlocale : locale ∈ locales.rotate k)
  rw [hnext, hnext', hbehind j locale hj, getElem?_following h hi]

end Store

/-! ## Putting a locale first

A list that is turned round has the same entries in the same circle. Where a
name stands first in it may be another one of its places, though, and this is
where lists with repetitions behave differently. -/

/-- The locales from one of them on are the list turned round. -/
theorem rotatedTo_eq_rotate (locale : String) (locales : List String) :
    rotatedTo locale locales = locales.rotate (locales.findIdx (· == locale)) := by
  have hplace : locales.findIdx (fun other => !(other != locale)) = locales.findIdx (· == locale) := by
    simp only [bne, Bool.not_not]
  rw [rotatedTo, List.rotate_eq_drop_append_take List.findIdx_le_length,
    List.dropWhile_eq_drop_findIdx_not, List.takeWhile_eq_take_findIdx_not, hplace]

/-- The locale that was asked for comes first. -/
theorem head?_rotatedTo {locale : String} {locales : List String} (h : locale ∈ locales) :
    (rotatedTo locale locales).head? = some locale := by
  have hlt : locales.findIdx (· == locale) < locales.length :=
    List.findIdx_lt_length_of_exists ⟨locale, h, beq_self_eq_true locale⟩
  rw [rotatedTo_eq_rotate, List.head?_rotate hlt, List.getElem?_eq_getElem hlt]
  exact congrArg some (eq_of_beq (List.findIdx_getElem (w := hlt)))

namespace Session

/-- **A move leads to the next locale**, whether it succeeds or not, and what
it answers is this locale. Selecting comes first, and what may fail comes
behind it. -/
theorem switch_leads {s : Session} {next : String}
    (hnext : Store.nextLocale? s.settings.supportedLocales s.locale = some next) (d : Disk) (now : Nat) :
    (s.switch d now).1.settings = s.settings ∧ (s.switch d now).1.locale = next ∧
      ∀ answer, (s.switch d now).2 = .ok answer → answer = next := by
  let moved : Session := { s with store := s.store.setLocale next }
  have hcycle : s.cycle = .ok (moved, next) := by
    rw [locale] at hnext
    rw [cycle, Store.cycle, hnext]
    rfl
  rw [switch, selectNext, hcycle]
  dsimp only
  by_cases henabled : s.settings.enabled = true
  · rw [if_pos henabled, select]
    dsimp only
    cases moved.localeFiles d next with
    | error fault => exact ⟨rfl, rfl, fun answer h => by cases h⟩
    | ok files =>
      obtain ⟨hsettings, -, hlocale⟩ := { moved with watcher := none }.finish_frame d now ⟨next, files⟩
      exact ⟨hsettings, hlocale, fun answer h => (Except.ok.inj h).symm⟩
  · rw [if_neg henabled]
    exact ⟨rfl, rfl, fun answer h => (Except.ok.inj h).symm⟩

end Session

/-! ## Moves over time

Moves are made while other things are done in between, and these do not matter:
no file, no reload and no loaded document decides which locale comes next. So
the answers of a run are those of its moves alone. -/

/-- The deed is one move. -/
def Deed.isSwitch : Deed → Bool
  | .switch => true
  | _ => false

namespace Moment

/-- What the moves answer that are among the deeds. -/
def answers (m : Moment) : List Deed → List (Except ConfigFault String)
  | [] => []
  | .switch :: deeds => (m.session.switch m.disk m.now).2 :: answers (m.perform .switch) deeds
  | deed :: deeds => answers (m.perform deed) deeds

theorem answers_cons_of_ne (m : Moment) {deed : Deed} (h : deed ≠ .switch) (deeds : List Deed) :
    m.answers (deed :: deeds) = (m.perform deed).answers deeds := by
  cases deed <;> first | exact absurd rfl h | rfl

theorem countP_cons_of_ne {deed : Deed} (h : deed ≠ .switch) (deeds : List Deed) :
    (deed :: deeds).countP Deed.isSwitch = deeds.countP Deed.isSwitch := by
  cases deed <;> first | exact absurd rfl h | rfl

/-- A deed that is no move leads nowhere. -/
theorem perform_leads_nowhere (m : Moment) {deed : Deed} (h : deed ≠ .switch) (h' : deed ≠ .switchTwice) :
    (m.perform deed).session.settings = m.session.settings ∧
      (m.perform deed).session.locale = m.session.locale := by
  cases deed with
  | start => exact ⟨(m.session.start_frame m.disk m.now).1, (m.session.start_frame m.disk m.now).2.2⟩
  | switch => exact absurd rfl h
  | switchTwice => exact absurd rfl h'
  | shutDown => exact ⟨rfl, rfl⟩
  | write p data => exact ⟨rfl, rfl⟩
  | remove p => exact ⟨rfl, rfl⟩
  | advance ms =>
    obtain ⟨hsettings, hlocale, -⟩ := m.session.store_run m.disk m.now (m.now + ms)
    exact ⟨hsettings, hlocale⟩
  | analyse doc => exact ⟨rfl, rfl⟩

/-- **The moves are those of a function on names.** Whatever is done between
them, and whatever is on the disk, each of them answers with the locale that
follows the one before. -/
theorem answers_eq_iterate {m : Moment} {locales : List String}
    (hsettings : m.session.settings.supportedLocales = locales) (hlocale : m.session.locale ∈ locales)
    {deeds : List Deed} (hsingle : .switchTwice ∉ deeds)
    (hok : ∀ answer ∈ m.answers deeds, ∃ locale, answer = .ok locale) :
    let next := Store.following locales
    m.answers deeds
        = (List.iterate next (next m.session.locale) (deeds.countP Deed.isSwitch)).map .ok ∧
      (m.run deeds).session.locale = next^[deeds.countP Deed.isSwitch] m.session.locale := by
  induction deeds generalizing m with
  | nil => exact ⟨rfl, rfl⟩
  | cons deed deeds ih =>
    have hhead : deed ≠ .switchTwice := fun heq => hsingle (heq ▸ List.mem_cons_self)
    have htail : Deed.switchTwice ∉ deeds := fun hmem => hsingle (List.mem_cons_of_mem deed hmem)
    intro next
    by_cases hdeed : deed = .switch
    · subst hdeed
      have hnext : Store.nextLocale? m.session.settings.supportedLocales m.session.locale
          = some (next m.session.locale) := by
        rw [hsettings]
        exact Store.nextLocale?_eq_following hlocale
      obtain ⟨hsettings', hlocale', hanswer⟩ := Session.switch_leads hnext m.disk m.now
      obtain ⟨answer, hfirst⟩ := hok _ List.mem_cons_self
      obtain rfl := hanswer answer hfirst
      -- what comes behind the move begins where it has led
      obtain ⟨hanswers, hrun⟩ := ih (m := m.perform .switch) (by rw [← hsettings, perform, hsettings'])
        (by rw [perform, hlocale']; exact Store.following_mem hlocale) htail
        fun answer hanswer => hok answer (List.mem_cons_of_mem _ hanswer)
      rw [show (m.perform .switch).session.locale = next m.session.locale from hlocale'] at hanswers hrun
      rw [answers, hfirst, hanswers, List.countP_cons_of_pos rfl]
      exact ⟨rfl, hrun⟩
    · obtain ⟨hsettings', hlocale'⟩ := m.perform_leads_nowhere hdeed hhead
      rw [answers_cons_of_ne m hdeed] at hok ⊢
      rw [countP_cons_of_ne hdeed, ← hlocale']
      exact ih (by rw [hsettings', hsettings]) (by rwa [hlocale']) htail hok

end Moment

/-- No deed changes the settings. -/
theorem Moment.settings_perform (m : Moment) (deed : Deed) :
    (m.perform deed).session.settings = m.session.settings := by
  obtain ⟨-, hswitch, htwice⟩ := Session.calls_keep (P := fun s => s.settings = m.session.settings)
    (s := m.session) (d := m.disk) m.now (fun s hs => hs)
    (fun s s' next hs hcycle => by
      obtain ⟨-, rfl⟩ := Session.cycle_eq_ok hcycle
      split <;> exact hs)
    (fun s a hs _ => (s.finish_frame m.disk m.now a).1.trans hs) rfl
  by_cases h : deed = .switch
  · rw [h]
    exact hswitch
  · by_cases h' : deed = .switchTwice
    · rw [h']
      exact htwice
    · exact (m.perform_leads_nowhere h h').1

/-- A run leaves the settings as they are. -/
theorem Moment.settings_run (m : Moment) (deeds : List Deed) :
    (m.run deeds).session.settings = m.session.settings := by
  induction deeds using List.reverseRecOn with
  | nil => rfl
  | append_singleton deeds deed ih => rw [run_append, run_singleton, settings_perform, ih]

/-- **Going round the locales.** Begin at any time when the first locale of a
session is current, and let as many moves follow as there are locales, with
anything else between them. If all of them succeed, they answer with the second
locale, the third and so on, and with the first at the end, if and only if
behind every entry of the same name the same locale stands. Then the first
locale is current again. Every locale can be put first; and where the list is
gone round, this one still is, and no locale has another one behind it. -/
theorem moves_go_round_iff {settings : Settings} {root : Path} {loader : Loader} {source : WatchSource}
    {s : Session} (hcreate : Session.create settings root loader source = .ok s) :
    let locales := settings.supportedLocales
    (∀ (d : Disk) (now : Nat) (before deeds : List Deed),
      let m := Moment.run ⟨s, d, now⟩ before
      locales.head? = some m.session.locale → .switchTwice ∉ deeds →
      deeds.countP Deed.isSwitch = locales.length →
      (∀ answer ∈ m.answers deeds, ∃ locale, answer = .ok locale) →
        (m.answers deeds = (locales.rotate 1).map .ok ↔ Store.GoesRound locales) ∧
          (Store.GoesRound locales → (m.run deeds).session.locale = m.session.locale)) ∧
      ∀ locale ∈ locales, ∃ selected, settings.selectLocale locale = .ok selected ∧
        selected.supportedLocales.head? = some locale ∧
        (Store.GoesRound locales → Store.GoesRound selected.supportedLocales ∧
          ∀ other ∈ locales, Store.nextLocale? selected.supportedLocales other
            = Store.nextLocale? locales other) := by
  intro locales
  constructor
  · intro d now before deeds m hfirst hsingle hcount hok
    have hsettings : m.session.settings.supportedLocales = locales := by
      obtain ⟨first, others, -, rfl⟩ := Session.create_eq_ok hcreate
      exact congrArg Settings.supportedLocales (Moment.settings_run _ before)
    obtain ⟨hanswers, hrun⟩ :=
      Moment.answers_eq_iterate hsettings (List.mem_of_mem_head? hfirst) hsingle hok
    rw [hcount] at hanswers hrun
    refine ⟨?_, fun hround => ?_⟩
    · rw [hanswers, List.map_inj_right fun _ _ => Except.ok.inj]
      exact Store.iterate_following_eq_rotate_iff hfirst
    · have hback := Store.getElem?_iterate_following hround (List.head?_eq_getElem? ▸ hfirst)
        locales.length
      rw [Nat.zero_add, Nat.mod_self, ← List.head?_eq_getElem?, ← hrun, hfirst] at hback
      exact (Option.some.inj hback).symm
  · intro locale hlocale
    refine ⟨{ settings with supportedLocales := rotatedTo locale locales }, ?_, head?_rotatedTo hlocale, ?_⟩
    · rw [Settings.selectLocale, if_pos (List.contains_iff_mem.mpr hlocale)]
    · intro hround
      dsimp only
      rw [rotatedTo_eq_rotate]
      exact hround.rotate _

/-- Three locales. They are gone round while files are written and watched, and
the second can be put first. -/
theorem moves_go_round_of_three_locales :
    let settings : Settings :=
      { supportedLocales := ["en", "zh", "fr"], localePaths := [localePlaceholder ++ ".json"] }
    let s : Session := ⟨settings, ⟨"."⟩, jsonLoader, .polling, .fresh "en", none, 0⟩
    let m : Moment := Moment.run ⟨s, {}, 0⟩ [.start, .write ⟨"zh.json"⟩ (.ofText "\x7b\x7d" 1)]
    m.answers [.switch, .advance 5, .switch, .remove ⟨"zh.json"⟩, .start, .switch]
        = [.ok "zh", .ok "fr", .ok "en"] ∧
      ∃ selected, settings.selectLocale "zh" = .ok selected ∧
        Store.nextLocale? selected.supportedLocales "en" = some "zh" := by
  intro settings s m
  have hcreate : Session.create settings ⟨"."⟩ jsonLoader .polling = .ok s := rfl
  have hround : Store.GoesRound settings.supportedLocales := Store.goesRound_of_nodup (by decide)
  obtain ⟨hmoves, hselect⟩ := moves_go_round_iff hcreate
  refine ⟨?_, ?_⟩
  · exact (hmoves {} 0 _ _ (by decide +kernel) (by simp) rfl
      (forall_ok_of_all (by decide +kernel))).1.mpr hround
  · obtain ⟨selected, hselected, -, hkept⟩ := hselect "zh" (by simp [settings])
    refine ⟨selected, hselected, ?_⟩
    rw [(hkept hround).2 "en" (by simp [settings])]
    decide +kernel

/-- **A locale behind a repeated one is never reached.** With the first of
three locales listed twice, three moves all stay there. And if a list with
repetitions is turned round, another locale comes behind one of its entries. -/
theorem repeated_locale_stays :
    (¬ ∀ (settings : Settings) (root : Path) (loader : Loader) (source : WatchSource) (s : Session),
      Session.create settings root loader source = .ok s →
      ∀ (d : Disk) (now : Nat),
        let m : Moment := ⟨s, d, now⟩
        let answers := m.answers (List.replicate settings.supportedLocales.length .switch)
        (∀ answer ∈ answers, ∃ locale, answer = .ok locale) →
          answers = (settings.supportedLocales.rotate 1).map .ok) ∧
    ¬ ∀ (settings selected : Settings), settings.check = .ok () →
      ∀ locale ∈ settings.supportedLocales, settings.selectLocale locale = .ok selected →
        ∀ other ∈ settings.supportedLocales,
          Store.nextLocale? selected.supportedLocales other
            = Store.nextLocale? settings.supportedLocales other := by
  refine ⟨fun hall => ?_, fun hall => ?_⟩
  -- three moves in a list of three, two of which are the same locale
  · let settings : Settings :=
      { supportedLocales := ["en", "en", "zh"], localePaths := [localePlaceholder ++ ".json"] }
    let s : Session := ⟨settings, ⟨"."⟩, jsonLoader, .polling, .fresh "en", none, 0⟩
    have hcreate : Session.create settings ⟨"."⟩ jsonLoader .polling = .ok s := rfl
    let m : Moment := ⟨s, {}, 0⟩
    have hok : ∀ answer ∈ m.answers (List.replicate 3 .switch), ∃ locale, answer = .ok locale :=
      forall_ok_of_all (by decide +kernel)
    obtain ⟨hanswers, -⟩ := Moment.answers_eq_iterate (m := m)
      (show m.session.settings.supportedLocales = settings.supportedLocales from rfl)
      List.mem_cons_self (by simp) hok
    have hround := hall settings ⟨"."⟩ jsonLoader .polling s hcreate {} 0 hok
    have hsame := (List.map_inj_right fun _ _ => Except.ok.inj).mp (hanswers.symm.trans hround)
    exact absurd hsame (by decide +kernel)
  -- turned round, the list has the other place of the locale in front
  · let settings : Settings :=
      { supportedLocales := ["a", "b", "a", "c"], localePaths := [localePlaceholder ++ ".json"] }
    have hsame := hall settings { settings with supportedLocales := ["b", "a", "c", "a"] } rfl "b"
      (by simp [settings]) (by decide +kernel) "a" (by simp [settings])
    exact absurd hsame (by decide +kernel)

end LocaleKeys
