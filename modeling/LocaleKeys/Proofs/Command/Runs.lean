/-
What commands change, and what they go on with.

Before a command reports it opens a project, starts it and finds the sources.
All of that prints nothing and changes no file; at most something is complained
of (`Run.Yields`). So what is reported can be told from the files as they were
at the beginning.

A command is a sequence of steps in a monad with surroundings and faults. One
step is taken at a time: `Run.run_bind_of_ok` goes on behind a step that is
known, and `Run.run_bind_eq_ok` takes apart a command that has come to its end.
-/
import LocaleKeys.Command.Check
import LocaleKeys.Command.Watch

set_option autoImplicit false

namespace LocaleKeys

namespace Run

section

variable {α β : Type}

/-! ## One thing after the other

`Yields` is a weakest-precondition style predicate with the frame built in. It
composes along `bind`, and each basic step has its own lemma, so that a command
is gone through from the top without looking at how surroundings are
threaded. -/

/-- A step, and then the rest with what came out of it. -/
theorem run_bind (x : Run α) (f : α → Run β) (σ : Surroundings) :
    (x >>= f).run σ = match x.run σ with
      | (.ok a, σ') => (f a).run σ'
      | (.error fault, σ') => (.error fault, σ') := by
  show (ExceptT.bind x f).run σ = _
  simp only [ExceptT.bind, ExceptT.run, ExceptT.mk, ExceptT.bindCont, bind, StateT.bind]
  rcases x σ with ⟨a | a, σ'⟩ <;> rfl

/-- Behind a step that is known, the rest is run. -/
theorem run_bind_of_ok {x : Run α} {f : α → Run β} {a : α} {σ σ' : Surroundings}
    (h : x.run σ = (.ok a, σ')) : (x >>= f).run σ = (f a).run σ' := by
  rw [run_bind, h]

/-- What comes to its end has come to the end of its first part. -/
theorem run_bind_eq_ok {x : Run α} {f : α → Run β} {b : β} {σ : Surroundings}
    (h : ((x >>= f).run σ).1 = .ok b) :
    ∃ a σ', x.run σ = (.ok a, σ') ∧ ((f a).run σ').1 = .ok b := by
  rw [run_bind] at h
  rcases hx : x.run σ with ⟨fault | a, σ'⟩
  · rw [hx] at h
    exact absurd h (by simp)
  · rw [hx] at h
    exact ⟨a, σ', rfl, h⟩

/-- Nothing is changed but what is complained of, and what comes out has the
property. -/
def Yields (x : Run α) (P : α → Prop) : Prop :=
  ∀ σ, (∃ err, (x.run σ).2 = { σ with err := err }) ∧ ∀ a, (x.run σ).1 = .ok a → P a

/-- Steps that change nothing can be taken one after the other. -/
theorem Yields.bind {x : Run α} {f : α → Run β} {P : α → Prop} {Q : β → Prop} (hx : x.Yields P)
    (hf : ∀ a, P a → (f a).Yields Q) : (x >>= f).Yields Q := by
  intro σ
  obtain ⟨⟨err, herr⟩, hP⟩ := hx σ
  rw [run_bind]
  rcases hrun : x.run σ with ⟨fault | a, σ'⟩
  · rw [hrun] at herr
    exact ⟨⟨err, herr⟩, fun b hb => absurd hb (by simp)⟩
  · rw [hrun] at herr hP
    obtain rfl : σ' = { σ with err := err } := herr
    obtain ⟨⟨err', herr'⟩, hQ⟩ := hf a (hP a rfl) { σ with err := err }
    exact ⟨⟨err', herr'⟩, hQ⟩

theorem yields_pure {P : α → Prop} {a : α} (h : P a) : (pure a : Run α).Yields P :=
  fun σ => ⟨⟨σ.err, rfl⟩, fun _ hb => Except.ok.inj hb ▸ h⟩

theorem yields_throw {P : α → Prop} (fault : CommandFault) : (throw fault : Run α).Yields P := by
  refine fun σ => ⟨⟨σ.err, rfl⟩, fun a ha => ?_⟩
  exact absurd (show (Except.error fault : Except CommandFault α) = .ok a from ha) (by simp)

theorem yields_ofConfig (x : Except ConfigFault α) : (ofConfig x).Yields fun a => x = .ok a := by
  cases x with
  | ok a => exact yields_pure rfl
  | error fault => exact yields_throw _

theorem yields_disk : disk.Yields fun _ => True := fun σ => ⟨⟨σ.err, rfl⟩, fun _ _ => trivial⟩

theorem yields_complain (text : String) : (complain text).Yields fun _ => True :=
  fun _ => ⟨⟨_, rfl⟩, fun _ _ => trivial⟩

end

/-- Complaints about faults, one after the other. -/
theorem run_complaints (text : LoadFault → String) (faults : List LoadFault) (σ : Surroundings) :
    ∃ err, (forIn faults PUnit.unit fun fault _ => do
      complain (text fault)
      pure (ForInStep.yield PUnit.unit) : Run PUnit).run σ = (.ok ⟨⟩, { σ with err := err }) := by
  induction faults generalizing σ with
  | nil => exact ⟨σ.err, rfl⟩
  | cons fault faults ih =>
    rw [List.forIn_cons]
    obtain ⟨err, herr⟩ := ih { σ with err := σ.err ++ text fault }
    exact ⟨err, herr⟩

end Run

namespace Project

/-! ## Opening and starting

The steps of a command up to its report. Opening may complain that there is no
configuration, starting complains about each file that could not be loaded, and
looking for sources about what was skipped. All three leave disk and output as
they are. -/

/-- **A project that is opened** has a new session. All that comes before is
reading and checking, and it ends with the creation of the session. -/
theorem yields_opened (options : CommonOptions) :
    (opened options).Yields fun p =>
      Session.create p.config.settings p.root jsonLoader .polling = .ok p.session := by
  rw [opened]
  refine Run.yields_disk.bind fun d _ => (Run.yields_ofConfig _).bind fun loaded _ => ?_
  have hcreated : ∀ settings : Settings, Run.Yields (do
      let session ← Run.ofConfig
        (Session.create settings (loaded.root (options.root.getD ⟨"."⟩)) jsonLoader .polling)
      return ⟨{ loaded.config with settings }, loaded.root (options.root.getD ⟨"."⟩), session,
        options.verbose⟩) fun p : Project =>
      Session.create p.config.settings p.root jsonLoader .polling = .ok p.session :=
    fun settings => (Run.yields_ofConfig _).bind fun session hsession => Run.yields_pure hsession
  have hselected : ∀ locale : String,
      (opened.liftExcept (loaded.config.settings.selectLocale locale)).Yields fun _ => True := by
    intro locale
    cases loaded.config.settings.selectLocale locale with
    | ok settings => exact Run.yields_pure trivial
    | error fault => exact Run.yields_throw fault
  dsimp only
  split
  · refine (Run.yields_complain _).bind fun _ _ => ?_
    split
    · exact (hselected _).bind fun settings _ => hcreated settings
    · exact hcreated _
  · split
    · exact (hselected _).bind fun settings _ => hcreated settings
    · exact hcreated _

variable {p : Project} {σ : Surroundings}

/-- A project that was opened has a new session, and nothing was printed. -/
theorem run_opened {options : CommonOptions} {σ' : Surroundings}
    (h : (opened options).run σ = (.ok p, σ')) :
    (∃ err, σ' = { σ with err := err }) ∧
      Session.create p.config.settings p.root jsonLoader .polling = .ok p.session := by
  obtain ⟨herr, hsession⟩ := yields_opened options σ
  rw [h] at herr hsession
  exact ⟨herr, hsession p rfl⟩

/-- Starting a project is starting its session. -/
theorem run_started {s : Session} {load : LoadReport}
    (h : p.session.start σ.disk 0 = (s, .ok load)) :
    ∃ err, p.started.run σ = (.ok ({ p with session := s }, load), { σ with err := err }) := by
  obtain ⟨err, herr⟩ :=
    Run.run_complaints (fun fault => "warning: " ++ fault.message ++ "\n") load.faults σ
  refine ⟨err, ?_⟩
  rw [started, Run.run_bind_of_ok (show Run.disk.run σ = (.ok σ.disk, σ) from rfl), h]
  dsimp only
  rw [Run.run_bind_of_ok (show (Run.ofConfig (.ok load)).run σ = (.ok load, σ) from rfl),
    Run.run_bind_of_ok herr]
  rfl

/-- A project that has started has a session that could be started. -/
theorem started_eq_ok {p' : Project} {load : LoadReport}
    (h : (p.started.run σ).1 = .ok (p', load)) :
    ∃ s, p.session.start σ.disk 0 = (s, .ok load) ∧ p' = { p with session := s } := by
  rcases hstart : p.session.start σ.disk 0 with ⟨s, fault | load'⟩
  · rw [started, Run.run_bind_of_ok (show Run.disk.run σ = (.ok σ.disk, σ) from rfl), hstart] at h
    exact absurd (show (Except.error (CommandFault.config fault) : Except CommandFault _)
      = .ok (p', load) from h) (by simp)
  · obtain ⟨err, herr⟩ := run_started hstart
    rw [herr] at h
    obtain ⟨rfl, rfl⟩ := Prod.mk.inj (Except.ok.inj h)
    exact ⟨s, rfl, rfl⟩

/-- The sources are those of a scan of the disk. -/
theorem run_sources (p : Project) (paths : List Path) (σ : Surroundings) :
    ∃ err, (p.sources paths).run σ = (.ok (p.scan σ.disk paths).files, { σ with err := err }) := by
  rw [sources, Run.run_bind_of_ok (show Run.disk.run σ = (.ok σ.disk, σ) from rfl)]
  dsimp only
  split
  · exact ⟨_, rfl⟩
  · exact ⟨σ.err, rfl⟩

end Project

/-! ## Reporting

Two commands go on from here. A check prints one report at its end; watching
keeps the sources it has found and reports on them again and again. -/

/-- **What a check prints**: the report on the sources, in the session as it is
behind its start. -/
theorem out_checkSources {paths : List Path} {showResolved : Bool} {options : CommonOptions}
    {σ : Surroundings} {p : Project} (hopened : ((Project.opened options).run σ).1 = .ok p)
    {s : Session} {load : LoadReport} (hstart : p.session.start σ.disk 0 = (s, .ok load)) :
    ((checkSources paths showResolved options).run σ).2.out = σ.out ++
      Report.text ({ p with session := s }.outcomes σ.disk (p.scan σ.disk paths).files) s.locale
        showResolved := by
  rcases hrun : (Project.opened options).run σ with ⟨r, σ'⟩
  rw [hrun] at hopened
  obtain rfl : r = .ok p := hopened
  obtain ⟨⟨err, rfl⟩, -⟩ := Project.run_opened hrun
  have hstart' : p.session.start ({ σ with err := err } : Surroundings).disk 0 = (s, .ok load) :=
    hstart
  obtain ⟨err', hstarted⟩ := Project.run_started hstart'
  obtain ⟨err'', hsources⟩ :=
    Project.run_sources { p with session := s } paths { σ with err := err' }
  rw [checkSources, Run.run_bind_of_ok hrun, Run.run_bind_of_ok hstarted]
  dsimp only
  rw [Run.run_bind_of_ok hsources]
  rfl

namespace Watching

/-- **What is watched**: the project behind its start, with the sources that
were found then. -/
theorem begun_eq_ok {paths : List Path} {options : CommonOptions} {σ : Surroundings}
    {w : Watching} (h : ((begun paths options).run σ).1 = .ok w) :
    ∃ p s load, ((Project.opened options).run σ).1 = .ok p ∧
      p.session.start σ.disk 0 = (s, .ok load) ∧
      Session.create p.config.settings p.root jsonLoader .polling = .ok p.session ∧
      w = ⟨{ p with session := s }, (p.scan σ.disk paths).files, s.locale⟩ := by
  -- step by step: opening, starting, and finding the sources
  obtain ⟨p, σ₁, hopened, h⟩ := Run.run_bind_eq_ok h
  obtain ⟨⟨err, rfl⟩, hcreate⟩ := Project.run_opened hopened
  obtain ⟨⟨p', load⟩, σ₂, hstarted, h⟩ := Run.run_bind_eq_ok h
  obtain ⟨s, hstart, rfl⟩ := Project.started_eq_ok (congrArg Prod.fst hstarted)
  obtain ⟨err', hstarted'⟩ := Project.run_started hstart
  obtain rfl : _ = σ₂ := (Prod.mk.inj (hstarted'.symm.trans hstarted)).2
  obtain ⟨sources, σ₃, hsources, h⟩ := Run.run_bind_eq_ok h
  obtain ⟨err'', hsources'⟩ := Project.run_sources { p with session := s } paths
    ({ σ with err := err' })
  obtain ⟨hfiles, -⟩ := Prod.mk.inj (hsources'.symm.trans hsources)
  obtain rfl := Except.ok.inj hfiles
  -- what is printed from here on does not change what is watched
  obtain ⟨_, σ₄, -, h⟩ := Run.run_bind_eq_ok h
  obtain ⟨_, σ₅, -, h⟩ := Run.run_bind_eq_ok h
  obtain ⟨_, σ₆, -, h⟩ := Run.run_bind_eq_ok h
  obtain ⟨_, σ₇, -, h⟩ := Run.run_bind_eq_ok h
  refine ⟨p, s, load, ?_, hstart, hcreate, (Except.ok.inj h).symm⟩
  rw [hopened]

end Watching

end LocaleKeys
