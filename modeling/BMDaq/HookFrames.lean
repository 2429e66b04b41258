import BMDaq.StateMachine

/-! # What the hooks leave alone

A hook changes the machine by a few elementary effects: it logs a call, asks for a change to
one of the two failure states, loads the configuration, rewrites devices or staff. A frame
that admits these effects is respected by every hook made of them, so each hook is walked
through once here, whatever frame a later proof needs. The section ends with what one turn
of the machine can be.
-/

namespace BMDaq

open Block

/-- What a call is about. -/
inductive Topic where
  | general
  | session
  | readout
  | marker
  deriving Repr, DecidableEq

def Call.topic : Call → Topic
  | .ufe_init _ | .ufe_get_bm_device_list | .led_on | .led_off => .session
  | .ufe_free_device_list | .ufe_exit | .standbyEntering => .session
  | .start _ | .stop _ => .readout
  | .enters _ => .marker
  | _ => .general

/-- What an exit makes of the machine. -/
def Exit.ended (m : Machine) : Exit → Machine
  | .returned => m
  | .threw _ | .escaped => { m with life := .terminated }
  | .undefined => { m with life := .undefined }

/-- The frame allows calls about the given topics, besides the general ones, and all
    exceptions. -/
structure Logs (F : Frame Exit Machine) (topics : Topic → Prop) : Prop where
  exits : ∀ x, x ≠ .undefined → x ≠ .returned → F.Exits x
  log : ∀ m c, c.topic = .general ∨ topics c.topic → F.Rel m { m with log := m.log ++ [c] }

/-- It also allows the other effects that nearly every hook has. -/
structure Admits (F : Frame Exit Machine) (topics : Topic → Prop) : Prop
    extends Logs F topics where
  returns : F.Exits .returned
  request : ∀ m s, s = .Failure_s ∨ s = .FatalError_s → F.Rel m { m with next_ := some s }
  load : ∀ m doc, F.Rel m { m with ctx := { m.ctx with bm_config_doc_ := doc } }
  devices : ∀ m devs, devs.length = m.ctx.devs_.length →
    F.Rel m { m with ctx := { m.ctx with devs_ := devs } }

/-- The frame does not look at the staff. -/
def AdmitsStaff (F : Frame Exit Machine) : Prop := ∀ m staff, F.Rel m { m with staff := staff }

/-- The frame does not look at the devices, not even at their number. -/
def AdmitsResize (F : Frame Exit Machine) : Prop :=
  ∀ m devs, F.Rel m { m with ctx := { m.ctx with devs_ := devs } }

section Statements

variable {F : Frame Exit Machine} {topics : Topic → Prop} {env : Answers} {α : Type}

theorem eachDevice_within {body : Nat → Hook Unit} (every : ∀ i, Within F (body i)) :
    Within F (eachDevice body) := by
  apply Within.bind (Within.read _)
  intro n
  exact Within.each fun i _ => every i

theorem call_meets {c : Call} {P Q : Machine → Prop} {R : Exit → Machine → Prop}
    (quiet : env.throws c = none → ∀ m, P m → Q { m with log := m.log ++ [c] })
    (loud : ∀ e, env.throws c = some e → ∀ m, P m → R (.threw e) { m with log := m.log ++ [c] }) :
    Meets P (call env c) (fun _ => Q) R := by
  intro m holds
  unfold call
  rw [bind_run]
  cases answer : env.throws c with
  | none => exact quiet answer m holds
  | some e => exact loud e answer m holds

theorem UFEError?_eq_some {x : Exit} {e : UFEError} : x.UFEError? = some e ↔ x = .threw e := by
  cases x <;> simp [Exit.UFEError?]

theorem bySeverity_meets {onFatal : Hook Unit} {e : UFEError} {P : Machine → Prop}
    {Q : Unit → Machine → Prop} {R : Exit → Machine → Prop}
    (serious : e.severity = .SERIOUS → ∀ m, P m → R .returned { m with next_ := some .Failure_s })
    (fatal : e.severity = .FATAL → Meets P (do onFatal; returnTo .FatalError_s) Q R)
    (other : e.severity = .other → ∀ m, P m → Q () m) :
    Meets P (bySeverity onFatal e) Q R := by
  apply Meets.ite
  · intro severity m holds
    exact serious severity m holds
  · intro notSerious
    apply Meets.whenever fatal
    intro notFatal
    cases severity : e.severity with
    | SERIOUS => exact absurd severity notSerious
    | FATAL => exact absurd severity notFatal
    | other => exact other severity

/-- The loop rule for the devices. The invariant may mention the devices still to come. -/
theorem eachDevice_meets {body : Nat → Hook Unit} {n : Nat} {P : Machine → Prop}
    {I : List Nat → Machine → Prop} {R : Exit → Machine → Prop}
    (start : ∀ m, P m → m.ctx.devs_.length = n ∧ I (List.range n) m)
    (keep : ∀ i rest, i :: rest <:+ List.range n →
      Meets (I (i :: rest)) (body i) (fun _ => I rest) R) :
    Meets P (eachDevice body) (fun _ => I []) R := by
  apply Meets.bind (Q := fun k m => k = n ∧ I (List.range n) m)
  · exact Meets.read start
  intro k
  apply Meets.given
  intro same
  subst same
  exact Meets.each keep

section Calls

variable (logs : Logs F topics)
include logs

theorem checked_within (v : Option α) : Within F (checked v) := by
  cases v with
  | none => exact Within.leave (logs.exits _ (by simp) (by simp))
  | some a => exact Within.pure a

theorem verbose_within : Within F verbose := by
  apply Within.bind (Within.read _)
  intro doc
  apply Within.bind (checked_within logs _)
  intro level
  exact Within.pure _

theorem note_within {c : Call} (about : c.topic = .general ∨ topics c.topic) :
    Within F (note c) := Within.update fun m => logs.log m c about

theorem call_within {c : Call} (about : c.topic = .general ∨ topics c.topic) :
    Within F (call env c) := by
  apply Within.bind (note_within logs about)
  intro _
  cases env.throws c with
  | none => exact Within.pure ()
  | some e => exact Within.leave (logs.exits _ (by simp) (by simp))

theorem closeDevices_within : Within F (closeDevices env) :=
  eachDevice_within fun _ => Within.whenever fun _ => call_within logs (.inl rfl)

theorem closeSession_within (session : topics .session) : Within F (closeSession env) := by
  apply Within.bind
  · exact note_within logs (.inr session)
  intro _
  apply Within.bind
  · exact note_within logs (.inr session)
  intro _
  exact call_within logs (.inl rfl)

theorem recorder_within (undefined : F.Exits .undefined) {c : Call}
    (about : c.topic = .general ∨ topics c.topic) : Within F (recorder env c) := by
  apply Within.bind (Within.read _)
  intro valid
  apply Within.bind (Within.whenever fun _ => Within.leave undefined)
  intro _
  exact call_within logs about

variable (staff : AdmitsStaff F)
include staff

theorem addWorker_within (kind : WorkerKind) (device : Option Nat) :
    Within F (addWorker env kind device) := by
  apply Within.bind (call_within logs (.inl rfl))
  intro _
  apply Within.bind (Within.read _)
  intro id
  apply Within.bind (Within.update fun m => staff m _)
  intro _
  exact Within.pure id

theorem addNode_within (fifo : Fifo) : Within F (addNode env fifo) := by
  apply Within.bind (call_within logs (.inl rfl))
  intro _
  exact Within.update fun m => staff m _

theorem dismissAll_within : Within F (dismissAll env) := by
  apply Within.bind (call_within logs (.inl rfl))
  intro _
  apply Within.bind (Within.update fun m => staff m _)
  intro _
  apply Within.bind (call_within logs (.inl rfl))
  intro _
  exact Within.update fun m => staff m _

end Calls

variable (admits : Admits F topics)
include admits

theorem returnTo_within {s : fsm_state_t} (failing : s = .Failure_s ∨ s = .FatalError_s) :
    Within F (returnTo s) := by
  apply Within.bind (Within.update fun m => admits.request m s failing)
  intro _
  exact Within.leave admits.returns

theorem bySeverity_within {onFatal : Hook Unit} (fatal : Within F onFatal) (e : UFEError) :
    Within F (bySeverity onFatal e) := by
  apply Within.ite
  · intro _
    exact returnTo_within admits (.inl rfl)
  · intro _
    apply Within.whenever
    intro _
    exact Within.bind fatal fun _ => returnTo_within admits (.inr rfl)

theorem loadBMConfig_within : Within F (loadBMConfig env) := by
  apply Within.bind (Within.update fun m => admits.load m _)
  intro _
  exact call_within admits.toLogs (.inl rfl)

theorem initDevice_within (i entry : Nat) : Within F (initDevice env i entry) := by
  apply Within.bind (call_within admits.toLogs (.inl rfl))
  intro _
  exact Within.update fun m => admits.devices m _ (List.length_modify ..)

theorem describeDevice_within (i : Nat) : Within F (describeDevice i) := by
  apply Within.bind (Within.read _)
  intro ctx
  apply Within.bind (checked_within admits.toLogs _)
  intro found
  apply Within.bind (Within.update fun m => admits.devices m _ List.length_set)
  intro _
  exact Within.whenever fun _ => returnTo_within admits (.inr rfl)

/-! ## The hooks of Idle -/

theorem BMDIdle.startUp_within (session : topics .session) (resize : AdmitsResize F) :
    Within F (BMDIdle.startUp env) := by
  have fatal {p : Hook Unit} (quiet : Within F p) (e : UFEError) : Within F (bySeverity p e) :=
    bySeverity_within admits quiet e
  have stops {c : Prop} [Decidable c] : Within F (whenever c (returnTo .FatalError_s)) :=
    Within.whenever fun _ => returnTo_within admits (.inr rfl)
  apply Within.bind
  · apply Within.attempt (loadBMConfig_within admits)
    exact fatal (note_within admits.toLogs (.inr session))
  intro _
  apply Within.bind
  · exact note_within admits.toLogs (.inr session)
  intro _
  apply Within.bind stops
  intro _
  apply Within.bind
  · exact note_within admits.toLogs (.inr session)
  intro _
  apply Within.bind stops
  intro _
  apply Within.bind (Within.read _)
  intro doc
  apply Within.bind (checked_within admits.toLogs _)
  intro devices
  apply Within.bind stops
  intro _
  apply Within.bind
  · apply Within.attempt _ (fatal (Within.pure ()))
    apply Within.bind (Within.update fun m => resize m _)
    intro _
    apply eachDevice_within
    intro xDev
    exact Within.bind (initDevice_within admits xDev 0) fun _ => describeDevice_within admits xDev
  intro _
  apply Within.bind
  · exact note_within admits.toLogs (.inr session)
  intro _
  exact stops

theorem BMDIdle.whenEnteringStateDo_within (session : topics .session) (resize : AdmitsResize F)
    (old_state : fsm_state_t) : Within F (BMDIdle.whenEnteringStateDo env old_state) :=
  Within.whenever fun _ => BMDIdle.startUp_within admits session resize

theorem BMDIdle.whenSameStateDo_within (session : topics .session) :
    Within F (BMDIdle.whenSameStateDo env) := by
  apply Within.attempt
  · apply Within.bind (loadBMConfig_within admits)
    intro _
    exact eachDevice_within (describeDevice_within admits)
  · exact bySeverity_within admits (note_within admits.toLogs (.inr session))

theorem BMDIdle.whenLeavingStateDo_within (session : topics .session) (new_state : fsm_state_t) :
    Within F (BMDIdle.whenLeavingStateDo env new_state) := by
  apply Within.whenever
  intro _
  apply Within.bind (closeDevices_within admits.toLogs)
  intro _
  apply Within.bind
  · exact note_within admits.toLogs (.inr session)
  intro _
  apply Within.bind (Within.whenever fun _ => returnTo_within admits (.inr rfl))
  intro _
  exact closeSession_within admits.toLogs session

/-! ## The hooks of Standby -/

theorem BMDStandby.configureBoard_within (i : Nat) (board : Json.Value) (entry : Nat) :
    Within F (BMDStandby.configureBoard env i board entry) := by
  apply Within.bind (Within.whenever fun _ => initDevice_within admits i entry)
  intro _
  apply Within.bind (checked_within admits.toLogs _)
  intro board_id
  apply Within.bind (checked_within admits.toLogs _)
  intro file
  cases file with
  | some file =>
      apply Within.bind (call_within admits.toLogs (.inl rfl))
      intro _
      exact call_within admits.toLogs (.inl rfl)
  | none =>
      apply Within.bind (checked_within admits.toLogs _)
      intro file
      cases file with
      | some file => exact call_within admits.toLogs (.inl rfl)
      | none => exact returnTo_within admits (.inl rfl)

theorem BMDStandby.configureDevice_within (i : Nat) :
    Within F (BMDStandby.configureDevice env i) := by
  apply Within.bind (Within.read _)
  intro dev
  apply Within.bind (checked_within admits.toLogs _)
  intro boards
  exact Within.each fun entry _ => BMDStandby.configureBoard_within admits i entry.1 entry.2

theorem BMDStandby.instruct_within (undefined : F.Exits .undefined) :
    Within F (BMDStandby.instruct env) := by
  apply Within.bind (Within.read _)
  intro doc
  apply Within.bind (checked_within admits.toLogs _)
  intro path
  apply Within.bind (recorder_within admits.toLogs undefined (.inl rfl))
  intro _
  apply Within.bind (checked_within admits.toLogs _)
  intro run
  apply Within.bind (recorder_within admits.toLogs undefined (.inl rfl))
  intro _
  apply Within.bind (checked_within admits.toLogs _)
  intro limit
  exact recorder_within admits.toLogs undefined (.inl rfl)

theorem BMDStandby.provide_within (undefined : F.Exits .undefined) (xDc : Nat) :
    Within F (BMDStandby.provide env xDc) := by
  apply Within.bind (Within.read _)
  intro fifo
  apply Within.bind (Within.whenever fun _ => Within.leave undefined)
  intro _
  exact call_within admits.toLogs (.inl rfl)

theorem BMDStandby.hire_within (staff : AdmitsStaff F) (undefined : F.Exits .undefined) :
    Within F (BMDStandby.hire env) := by
  have rewires (id : Nat) (f : Worker → Worker) : Within F (rewire id f) :=
    Within.update fun m => staff m _
  apply Within.bind (addWorker_within admits.toLogs staff _ _)
  intro scanner
  apply Within.bind (addWorker_within admits.toLogs staff _ _)
  intro recorder_ptr
  apply Within.bind (Within.update fun m => staff m _)
  intro _
  apply Within.bind (BMDStandby.instruct_within admits undefined)
  intro _
  apply Within.bind (Within.update fun m => staff m _)
  intro _
  apply Within.bind (Within.each fun fifo _ => call_within admits.toLogs (.inl rfl))
  intro _
  apply Within.bind (Within.each fun fifo _ => addNode_within admits.toLogs staff fifo)
  intro _
  apply Within.bind
  · apply eachDevice_within
    intro i
    exact Within.bind (addWorker_within admits.toLogs staff _ _) fun id => rewires id _
  intro _
  apply Within.bind (rewires _ _)
  intro _
  apply Within.bind (verbose_within admits.toLogs)
  intro stats
  exact call_within admits.toLogs (.inl rfl)

/-- The part of the entering hook that does not depend on the old state. -/
theorem BMDStandby.prepare_within (session : topics .session) (undefined : F.Exits .undefined) :
    Within F (do
      each (List.range BMDStandby.maxSize) (BMDStandby.provide env)
      recorder env .getDataSize
      call env .standbyEntering) := by
  apply Within.bind (Within.each fun xDc _ => BMDStandby.provide_within admits undefined xDc)
  intro _
  apply Within.bind (recorder_within admits.toLogs undefined (.inl rfl))
  intro _
  exact call_within admits.toLogs (.inr session)

theorem BMDStandby.whenEnteringStateDo_within (session : topics .session)
    (staff : AdmitsStaff F) (undefined : F.Exits .undefined) (old_state : fsm_state_t) :
    Within F (BMDStandby.whenEnteringStateDo env old_state) := by
  apply Within.attempt
  · apply Within.bind
    · apply Within.whenever
      intro _
      apply Within.bind (eachDevice_within (BMDStandby.configureDevice_within admits))
      intro _
      exact BMDStandby.hire_within admits staff undefined
    intro _
    exact BMDStandby.prepare_within admits session undefined
  · exact bySeverity_within admits (Within.pure ())

theorem BMDStandby.whenLeavingStateDo_within (staff : AdmitsStaff F) (new_state : fsm_state_t) :
    Within F (BMDStandby.whenLeavingStateDo env new_state) :=
  Within.whenever fun _ => dismissAll_within admits.toLogs staff

/-! ## The hooks of Active and FatalError -/

/-- One readout call for each device, the first exception handled by its severity. -/
theorem readoutLoop_within (readout : topics .readout) {c : Nat → Call}
    (about : ∀ i, (c i).topic = .readout) :
    Within F (attempt (eachDevice fun i => call env (c i)) Exit.UFEError? (bySeverity (pure ()))) := by
  apply Within.attempt
  · exact eachDevice_within fun i => call_within admits.toLogs (.inr (about i ▸ readout))
  · exact bySeverity_within admits (Within.pure ())

theorem BMDActive.whenEnteringStateDo_within (readout : topics .readout) :
    Within F (BMDActive.whenEnteringStateDo env) := by
  apply Within.bind (readoutLoop_within admits readout fun _ => rfl)
  intro _
  exact call_within admits.toLogs (.inl rfl)

theorem BMDActive.whenLeavingStateDo_within (readout : topics .readout) :
    Within F (BMDActive.whenLeavingStateDo env) := by
  apply Within.bind (call_within admits.toLogs (.inl rfl))
  intro _
  apply Within.bind (readoutLoop_within admits readout fun _ => rfl)
  intro _
  apply Within.bind (verbose_within admits.toLogs)
  intro stats
  apply Within.whenever
  intro _
  apply Within.bind (Within.read _)
  intro workers
  exact Within.each fun w _ => call_within admits.toLogs (.inl rfl)

theorem BMDFatalError.whenEnteringStateDo_within (session : topics .session) :
    Within F (BMDFatalError.whenEnteringStateDo env) := by
  apply Within.bind (closeDevices_within admits.toLogs)
  intro _
  apply Within.bind
  · exact note_within admits.toLogs (.inr session)
  intro _
  exact closeSession_within admits.toLogs session

end Statements

/-! ## Every hook -/

section Hooks

variable {F : Frame Exit Machine} {topics : Topic → Prop} {env : Answers} {s : fsm_state_t}
  (admits : Admits F topics)
include admits

theorem whenEnteringStateDo_within (old_state : fsm_state_t)
    (session : s = .Idle_s ∨ s = .Standby_s ∨ s = .FatalError_s → topics .session)
    (readout : s = .Active_s → topics .readout)
    (staff : s = .Standby_s → AdmitsStaff F ∧ F.Exits .undefined)
    (resize : s = .Idle_s → AdmitsResize F) :
    Within F (whenEnteringStateDo env s old_state) := by
  cases s with
  | Idle_s =>
      exact BMDIdle.whenEnteringStateDo_within admits (session (.inl rfl)) (resize rfl) old_state
  | Standby_s =>
      have session := session (.inr (.inl rfl))
      have staff := staff rfl
      exact BMDStandby.whenEnteringStateDo_within admits session staff.1 staff.2 old_state
  | Active_s => exact BMDActive.whenEnteringStateDo_within admits (readout rfl)
  | FatalError_s =>
      exact BMDFatalError.whenEnteringStateDo_within admits (session (.inr (.inr rfl)))
  | Undefined_s => exact Within.pure ()
  | Failure_s => exact Within.pure ()

theorem whenLeavingStateDo_within (new_state : fsm_state_t)
    (session : s = .Idle_s → topics .session) (readout : s = .Active_s → topics .readout)
    (staff : s = .Standby_s ∨ s = .Failure_s → AdmitsStaff F) :
    Within F (whenLeavingStateDo env s new_state) := by
  cases s with
  | Idle_s => exact BMDIdle.whenLeavingStateDo_within admits (session rfl) new_state
  | Standby_s => exact BMDStandby.whenLeavingStateDo_within admits (staff (.inl rfl)) new_state
  | Active_s => exact BMDActive.whenLeavingStateDo_within admits (readout rfl)
  | Failure_s => exact dismissAll_within admits.toLogs (staff (.inr rfl))
  | Undefined_s => exact Within.pure ()
  | FatalError_s => exact Within.pure ()

theorem whenSameStateDo_within (session : s = .Idle_s → topics .session)
    (undefined : s = .Standby_s → F.Exits .undefined) : Within F (whenSameStateDo env s) := by
  cases s with
  | Idle_s => exact BMDIdle.whenSameStateDo_within admits (session rfl)
  | Standby_s => exact recorder_within admits.toLogs (undefined rfl) (.inl rfl)
  | Undefined_s => exact Within.pure ()
  | Active_s => exact Within.pure ()
  | Failure_s => exact Within.pure ()
  | FatalError_s => exact Within.pure ()

end Hooks

/-! ## Turns -/

/-- A hook keeps the state it belongs to, asks for no change but to a failure state, and only
    adds to the log. -/
structure Machine.Steady (m m' : Machine) : Prop where
  state_ : m'.state_ = m.state_
  life : m'.life = m.life
  next_ : m'.next_ = m.next_ ∨ m'.next_ = some .Failure_s ∨ m'.next_ = some .FatalError_s
  log : m.log <+: m'.log

def steady : Frame Exit Machine where
  Rel := Machine.Steady
  refl m := ⟨rfl, rfl, .inl rfl, List.prefix_rfl⟩
  trans {m m' m''} first second := by
    refine ⟨second.state_.trans first.state_, second.life.trans first.life, ?_,
      first.log.trans second.log⟩
    cases second.next_ with
    | inl same => simpa only [same] using first.next_
    | inr failing => exact .inr failing
  Exits _ := True

theorem steady_admits : Admits steady fun _ => True where
  exits _ _ _ := trivial
  returns := trivial
  log m c _ := ⟨rfl, rfl, .inl rfl, List.prefix_append m.log [c]⟩
  request m s failing := by
    refine ⟨rfl, rfl, .inr ?_, List.prefix_rfl⟩
    cases failing with
    | inl failure => exact .inl (congrArg some failure)
    | inr fatal => exact .inr (congrArg some fatal)
  load m doc := ⟨rfl, rfl, .inl rfl, List.prefix_rfl⟩
  devices m devs _ := ⟨rfl, rfl, .inl rfl, List.prefix_rfl⟩

theorem steady_staff : AdmitsStaff steady := fun _ _ => ⟨rfl, rfl, .inl rfl, List.prefix_rfl⟩

theorem steady_resize : AdmitsResize steady := fun _ _ => ⟨rfl, rfl, .inl rfl, List.prefix_rfl⟩

namespace Machine

variable {m : Machine} {hook : Hook Unit}

section Execute

variable (m hook)

theorem execute_state_ : (m.execute hook).state_ = (hook m).state.state_ := by
  unfold execute
  split <;> simp [*]

theorem execute_next_ : (m.execute hook).next_ = (hook m).state.next_ := by
  unfold execute
  split <;> simp [*]

theorem execute_log : (m.execute hook).log = (hook m).state.log := by
  unfold execute
  split <;> simp [*]

theorem execute_ctx : (m.execute hook).ctx = (hook m).state.ctx := by
  unfold execute
  split <;> simp [*]

theorem execute_staff : (m.execute hook).staff = (hook m).state.staff := by
  unfold execute
  split <;> simp [*]

end Execute

/-- The rule for a hook: what holds at its end, or of the machine an exit makes, holds
    after it. -/
theorem execute_ended {P T : Machine → Prop}
    (met : Meets P hook (fun _ => T) (fun x m => T (x.ended m))) (holds : P m) :
    T (m.execute hook) := by
  have ends := met m holds
  unfold execute
  cases run : hook m with
  | on a m' =>
      rw [run] at ends
      exact ends
  | out x m' =>
      rw [run] at ends
      cases x <;> exact ends

/-- What holds however the hook is left holds after it, dead or alive. -/
theorem execute_keeps {P Q : Machine → Prop}
    (met : Meets P hook (fun _ => Q) (fun _ => Q)) (holds : P m)
    (blind : ∀ m life, Q m → Q { m with life := life }) : Q (m.execute hook) := by
  apply execute_ended _ holds
  apply met.conseq (fun _ h => h) (fun _ _ h => h)
  intro x m' h
  cases x with
  | returned => exact h
  | threw e => exact blind m' _ h
  | escaped => exact blind m' _ h
  | undefined => exact blind m' _ h

/-- After a hook that the program survives, the condition of its end or of its `return`
    holds. -/
theorem execute_meets {P Q : Machine → Prop} {R : Exit → Machine → Prop}
    (met : Meets P hook (fun _ => Q) R) (holds : P m)
    (alive : (m.execute hook).life = .running) :
    Q (m.execute hook) ∨ R .returned (m.execute hook) := by
  refine execute_ended (T := fun m' => m'.life = .running → Q m' ∨ R .returned m') ?_ holds alive
  apply met.conseq (fun _ h => h) (fun _ _ h _ => .inl h)
  intro x m' h alive
  cases x with
  | returned => exact .inr h
  | threw e => cases alive
  | escaped => cases alive
  | undefined => cases alive

/-- Undefined behaviour comes from a hook that is left that way. -/
theorem execute_defined {P Q : Machine → Prop} {R : Exit → Machine → Prop}
    (met : Meets P hook (fun _ => Q) R) (holds : P m)
    (alive : (hook m).state.life = .running) (defined : ∀ m', ¬R .undefined m') :
    (m.execute hook).life ≠ .undefined := by
  have ends := met m holds
  intro bad
  unfold execute at bad
  cases run : hook m with
  | on a m' =>
      rw [run] at alive bad
      rw [Flow.state_on] at alive
      rw [alive] at bad
      cases bad
  | out x m' =>
      rw [run] at ends alive bad
      rw [Flow.state_out] at alive
      cases x with
      | returned =>
          rw [alive] at bad
          cases bad
      | threw e => cases bad
      | escaped => cases bad
      | undefined => exact defined m' ends

theorem target_eq {command : Option fsm_state_t} {s : fsm_state_t}
    (toward : m.target command = some s) :
    m.next_ = some s ∨
      (m.next_ = none ∧ command = some s ∧ (s = m.state_ ∨ allowed m.state_ s = true)) := by
  unfold target at toward
  cases pending : m.next_ with
  | some s' =>
      cases command with
      | none =>
          simp only [pending, Option.some.injEq] at toward
          exact .inl (congrArg some toward)
      | some c => simp [pending] at toward
  | none =>
      cases command with
      | none => simp [pending] at toward
      | some c =>
          simp only [pending, Option.ite_none_right_eq_some, Option.some.injEq] at toward
          obtain ⟨permitted, rfl⟩ := toward
          exact .inr ⟨rfl, rfl, permitted⟩

/-- What a turn can be. -/
inductive Turned (m : Machine) (t : Turn) : Machine → Prop where
  | ignored : Turned m t m
  | repeated (alive : m.life = .running) (toward : m.target t.command = some m.state_) :
      Turned m t ({ m with next_ := none }.execute (BMDaq.whenSameStateDo t.entering m.state_))
  | died {s : fsm_state_t} (alive : m.life = .running) (toward : m.target t.command = some s)
      (other : s ≠ m.state_) (dead : (m.leave s t).life ≠ .running) : Turned m t (m.leave s t)
  | changed {s : fsm_state_t} (alive : m.life = .running) (toward : m.target t.command = some s)
      (other : s ≠ m.state_) (survived : (m.leave s t).life = .running) :
      Turned m t
        (((m.leave s t).moveTo s).execute (BMDaq.whenEnteringStateDo t.entering s m.state_))

theorem turned (m : Machine) (t : Turn) : Turned m t (m.turn t) := by
  unfold turn
  split
  · next s alive toward =>
      by_cases same : s = m.state_
      · subst same
        rw [if_pos rfl]
        exact .repeated alive toward
      · rw [if_neg same]
        by_cases survived : (m.leave s t).life = .running
        · rw [if_pos survived]
          exact .changed alive toward same survived
        · rw [if_neg survived]
          exact .died alive toward same survived
  · exact .ignored

theorem entering_steady (env : Answers) (s old_state : fsm_state_t) (m : Machine) :
    Steady m (BMDaq.whenEnteringStateDo env s old_state m).state :=
  (whenEnteringStateDo_within steady_admits old_state (fun _ => trivial) (fun _ => trivial)
    (fun _ => ⟨steady_staff, trivial⟩) fun _ => steady_resize).rel m

theorem same_steady (env : Answers) (s : fsm_state_t) (m : Machine) :
    Steady m (BMDaq.whenSameStateDo env s m).state :=
  (whenSameStateDo_within steady_admits (fun _ => trivial) fun _ => trivial).rel m

theorem leaving_steady (env : Answers) (s new_state : fsm_state_t) (m : Machine) :
    Steady m (BMDaq.whenLeavingStateDo env s new_state m).state :=
  (whenLeavingStateDo_within steady_admits new_state (fun _ => trivial) (fun _ => trivial)
    fun _ => steady_staff).rel m

theorem repeated_state_ (env : Answers) (s : fsm_state_t) (m : Machine) :
    (m.execute (BMDaq.whenSameStateDo env s)).state_ = m.state_ := by
  rw [execute_state_]
  exact (same_steady env s m).state_

theorem entered_state_ (env : Answers) (s old_state : fsm_state_t) (m : Machine) :
    ((m.moveTo s).execute (BMDaq.whenEnteringStateDo env s old_state)).state_ = s := by
  rw [execute_state_]
  exact (entering_steady env s old_state (m.moveTo s)).state_

theorem leave_state_ (s : fsm_state_t) (t : Turn) : (m.leave s t).state_ = m.state_ := by
  unfold leave
  rw [execute_state_]
  exact (leaving_steady t.leaving m.state_ s { m with next_ := none }).state_

theorem leave_log (s : fsm_state_t) (t : Turn) : m.log <+: (m.leave s t).log := by
  unfold leave
  rw [execute_log]
  exact (leaving_steady t.leaving m.state_ s { m with next_ := none }).log

theorem leave_next_ (s : fsm_state_t) (t : Turn) :
    (m.leave s t).next_ = none ∨ (m.leave s t).next_ = some .Failure_s ∨
      (m.leave s t).next_ = some .FatalError_s := by
  unfold leave
  rw [execute_next_]
  exact (leaving_steady t.leaving m.state_ s { m with next_ := none }).next_

/-- The changes that can be under way in a run: those of the operator, the start, and those a
    hook asked for. -/
inductive Route : fsm_state_t → fsm_state_t → Prop where
  | start : Route .Undefined_s .Idle_s
  | exit : Route .Idle_s .Undefined_s
  | on : Route .Idle_s .Standby_s
  | off : Route .Standby_s .Idle_s
  | run : Route .Standby_s .Active_s
  | stop : Route .Active_s .Standby_s
  | recover : Route .Failure_s .Idle_s
  | failure (s : fsm_state_t) : Route s .Failure_s
  | fatal (s : fsm_state_t) : Route s .FatalError_s

/-- Which change may be pending: the start, as long as nothing has happened, or a failure. -/
def Pending (m : Machine) : Prop :=
  (m.next_ = some .Idle_s ∧ m.state_ = .Undefined_s ∧ m.log = []) ∨
    m.next_ = none ∨ m.next_ = some .Failure_s ∨ m.next_ = some .FatalError_s

theorem boot_pending : boot.Pending := .inl ⟨rfl, rfl, rfl⟩

theorem turn_pending (t : Turn) (pending : m.Pending) : (m.turn t).Pending := by
  have turned := turned m t
  generalize m.turn t = m' at turned
  cases turned with
  | ignored => exact pending
  | repeated alive toward =>
      right
      rw [execute_next_]
      exact (same_steady t.entering m.state_ { m with next_ := none }).next_
  | died alive toward other dead => exact .inr (leave_next_ _ t)
  | @changed s alive toward other survived =>
      have moved := entering_steady t.entering s m.state_ ((m.leave s t).moveTo s)
      have left : ((m.leave s t).moveTo s).next_ = none ∨ _ := leave_next_ s t
      right
      rw [execute_next_]
      cases moved.next_ with
      | inl same => rwa [same]
      | inr failing => exact .inr failing

/-- Where the target of a turn comes from. -/
theorem Pending.route {s : fsm_state_t} {command : Option fsm_state_t} (pending : m.Pending)
    (toward : m.target command = some s) (other : s ≠ m.state_) : Route m.state_ s := by
  cases target_eq toward with
  | inl requested =>
      obtain ⟨start, state, _⟩ | none | failure | fatal := pending
      · rw [start] at requested
        cases requested
        rw [state]
        exact .start
      · rw [none] at requested
        cases requested
      · rw [failure] at requested
        cases requested
        exact .failure _
      · rw [fatal] at requested
        cases requested
        exact .fatal _
  | inr commanded =>
      obtain ⟨_, _, same | permitted⟩ := commanded
      · exact absurd same other
      · cases old : m.state_ <;> cases s <;> simp [allowed, old] at permitted
        · exact .exit
        · exact .on
        · exact .off
        · exact .run
        · exact .stop
        · exact .recover

/-- The log only grows. -/
theorem turn_log (m : Machine) (t : Turn) : m.log <+: (m.turn t).log := by
  have turned := turned m t
  generalize m.turn t = m' at turned
  cases turned with
  | ignored => exact List.prefix_rfl
  | repeated alive toward =>
      rw [execute_log]
      exact (same_steady t.entering m.state_ { m with next_ := none }).log
  | died alive toward other dead => exact leave_log _ t
  | @changed s alive toward other survived =>
      rw [execute_log]
      have moved : m.log <+: ((m.leave s t).moveTo s).log :=
        (leave_log s t).trans (List.prefix_append _ _)
      exact moved.trans (entering_steady t.entering s m.state_ ((m.leave s t).moveTo s)).log

theorem turn_repeated (alive : m.life = .running) {t : Turn}
    (toward : m.target t.command = some m.state_) :
    m.turn t = { m with next_ := none }.execute (BMDaq.whenSameStateDo t.entering m.state_) := by
  unfold turn
  rw [alive, toward]
  exact if_pos rfl

theorem turn_changed (alive : m.life = .running) {s : fsm_state_t} {t : Turn}
    (toward : m.target t.command = some s) (other : s ≠ m.state_)
    (survived : (m.leave s t).life = .running) :
    m.turn t = ((m.leave s t).moveTo s).execute
      (BMDaq.whenEnteringStateDo t.entering s m.state_) := by
  unfold turn
  rw [alive, toward]
  simp only [if_neg other, if_pos survived]

/-- The log of the leaving hook is part of the log of the turn. -/
theorem leave_log_turn (alive : m.life = .running) {s : fsm_state_t} {t : Turn}
    (toward : m.target t.command = some s) (other : s ≠ m.state_) :
    (m.leave s t).log <+: (m.turn t).log := by
  by_cases survived : (m.leave s t).life = .running
  · rw [turn_changed alive toward other survived, execute_log]
    have moved := entering_steady t.entering s m.state_ ((m.leave s t).moveTo s)
    exact (List.prefix_append _ _).trans moved.log
  · unfold turn
    rw [alive, toward]
    simp only [if_neg other, if_neg survived]
    exact List.prefix_rfl

/-- The program starts once, before anything else. -/
theorem Pending.fresh {command : Option fsm_state_t} (pending : m.Pending)
    (toward : m.target command = some .Idle_s) (state : m.state_ = .Undefined_s) : m.log = [] := by
  cases target_eq toward with
  | inl requested =>
      obtain ⟨_, _, empty⟩ | other := pending
      · exact empty
      · simp [requested] at other
  | inr commanded => simp [state, allowed] at commanded

/-- `Idle_s` has nothing to do before it is left for another state than the end. -/
theorem leave_idle {s : fsm_state_t} (state : m.state_ = .Idle_s) (away : s ≠ .Undefined_s)
    (t : Turn) : m.leave s t = { m with next_ := none } := by
  have still : BMDaq.whenLeavingStateDo t.leaving m.state_ s = pure () := by
    rw [state]
    exact if_neg away
  unfold leave
  rw [still]
  rfl

theorem leave_undefined {s : fsm_state_t} (state : m.state_ = .Undefined_s) (t : Turn) :
    m.leave s t = { m with next_ := none } := by
  unfold leave
  rw [state]
  rfl

/-- The machine after a sequence of turns. -/
def after (turns : List Turn) : Machine := turns.foldl turn boot

theorem run_step (m : Machine) (turns : List Turn) :
    run step m turns = some (turns.foldl turn m) := by
  induction turns generalizing m with
  | nil => rfl
  | cons t rest ih =>
      rw [run_cons]
      exact ih (m.turn t)

/-- Where no turn is bad, an invariant of the other turns holds throughout. -/
theorem after_invariant (Inv : Machine → Prop) (Bad : Machine → Turn → Prop) (start : Inv boot)
    (keep : ∀ m t, Inv m → ¬Bad m t → Inv (m.turn t)) {turns : List Turn}
    (avoids : ∀ p t, p ++ [t] <+: turns → ¬Bad (after p) t) {p : List Turn} (inside : p <+: turns) :
    Inv (after p) := by
  refine run_induction (P := fun p m => p <+: turns → Inv m) (fun _ => start) ?_ (run_step boot p)
    inside
  intro p m t m' before ih stepped inside
  rw [run_step] at before
  cases before
  cases stepped
  exact keep _ t (ih ((List.prefix_append p [t]).trans inside)) (avoids p t inside)

/-- Where an invariant tells the bad turns apart, the states of a run are good iff none of its
    turns is bad. -/
theorem after_good_iff (Inv Good : Machine → Prop) (Bad : Machine → Turn → Prop)
    (start : Inv boot) (good : Good boot) (keep : ∀ m t, Inv m → Inv (m.turn t))
    (decides : ∀ m t, Inv m → Good m → (Good (m.turn t) ↔ ¬Bad m t)) (turns : List Turn) :
    (∀ p, p <+: turns → Good (after p)) ↔ ∀ p t, p ++ [t] <+: turns → ¬Bad (after p) t := by
  have both := run_good_iff_of_invariant Inv Good Bad start good ?_ ?_ (run_step boot turns)
  · simp only [run_step, Option.some.injEq] at both
    constructor
    · intro fine p t inside
      exact both.mp (fun p m inside same => same ▸ fine p inside) p t _ inside rfl
    · intro avoids p inside
      exact both.mpr (fun p t m inside same => same ▸ avoids p t inside) p _ inside rfl
  · intro m t m' inv stepped
    cases stepped
    exact keep m t inv
  · intro m t m' inv fine stepped
    cases stepped
    exact decides m t inv fine

end Machine

end BMDaq
