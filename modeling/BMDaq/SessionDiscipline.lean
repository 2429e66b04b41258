import BMDaq.HookFrames

/-! # The session of libufec

Which calls of libufec are in order at a point of a run is a matter of the calls before it:
`Trace` sums these up as the state the machine is in and the session they have left behind.
Every hook is followed from a session that is closed or opened to one that is. Four things
can go wrong, all of them in a change that begins in `Idle_s`.
-/

namespace BMDaq

open Block

/-- The session behind `ctx->ufec_ctx_`. It is still open once the device list is freed. -/
inductive Session where
  | closed
  | opened
  | freed
  deriving Repr, DecidableEq

structure Trace where
  state : fsm_state_t
  session : Session
  deriving Repr, DecidableEq

namespace Trace

def next (tr : Trace) : Call → Trace
  | .enters s => { tr with state := s }
  | .ufe_init status => if 0 ≤ status then { tr with session := .opened } else tr
  | .ufe_free_device_list =>
      if tr.session = .opened then { tr with session := .freed } else tr
  | .ufe_exit => { tr with session := .closed }
  | _ => tr

/-- Whether a call is in order. -/
def Permits (tr : Trace) : Call → Prop
  | .ufe_init _ => tr.session = .closed
  | .ufe_free_device_list => tr.session = .opened
  | .ufe_exit => tr.session ≠ .closed
  | .ufe_get_bm_device_list | .led_on | .led_off | .standbyEntering =>
      tr.state = .Idle_s ∨ tr.state = .Standby_s ∨ tr.state = .Active_s → tr.session ≠ .closed
  | .enters s => s = .Standby_s → tr.session ≠ .closed
  | _ => True

end Trace

def trace (log : List Call) : Trace := log.foldl Trace.next ⟨.Undefined_s, .closed⟩

/-- Every call of the log was in order when it was made. -/
def Disciplined (log : List Call) : Prop :=
  ∀ before c later, log = before ++ c :: later → (trace before).Permits c

@[simp] theorem trace_snoc (log : List Call) (c : Call) :
    trace (log ++ [c]) = (trace log).next c := List.foldl_concat ..

theorem disciplined_nil : Disciplined [] := by
  intro before c later split
  cases before <;> cases split

theorem Disciplined.of_prefix {log longer : List Call} (fine : Disciplined longer)
    (inside : log <+: longer) : Disciplined log := by
  intro before c later split
  obtain ⟨rest, rfl⟩ := inside
  apply fine before c (later ++ rest)
  rw [split, List.append_assoc, List.cons_append]

theorem Disciplined.permits {log : List Call} (fine : Disciplined log) (n : Nat) {c : Call}
    (here : log[n]? = some c) : (trace (log.take n)).Permits c := by
  obtain ⟨small, rfl⟩ := List.getElem?_eq_some_iff.mp here
  apply fine _ _ (log.drop (n + 1))
  rw [← List.drop_eq_getElem_cons small, List.take_append_drop]

theorem disciplined_snoc {log : List Call} {c : Call} :
    Disciplined (log ++ [c]) ↔ Disciplined log ∧ (trace log).Permits c := by
  constructor
  · intro fine
    exact ⟨fine.of_prefix (List.prefix_append _ _), fine log c [] rfl⟩
  · intro ⟨fine, permitted⟩ before c' later split
    cases later using List.reverseRecOn with
    | nil =>
        obtain ⟨rfl, last⟩ := List.append_inj' split rfl
        cases last
        exact permitted
    | append_singleton later last =>
        rw [← List.cons_append, ← List.append_assoc] at split
        obtain ⟨rfl, -⟩ := List.append_inj' split rfl
        exact fine before c' later rfl

/-- The log of the machine is in order and sums up to `tr`. -/
structure Machine.In (tr : Trace) (m : Machine) : Prop where
  disciplined : Disciplined m.log
  trace : trace m.log = tr

/-- The session of a machine that is about to run a hook, or has just run one. -/
def Machine.Level (s : fsm_state_t) (m : Machine) : Prop :=
  m.In ⟨s, .closed⟩ ∨ m.In ⟨s, .opened⟩

theorem Machine.In.level {s : fsm_state_t} {k : Session} {m : Machine} (within : m.In ⟨s, k⟩)
    (either : k = .closed ∨ k = .opened) : m.Level s := by
  cases either with
  | inl closed => exact .inl (closed ▸ within)
  | inr opened => exact .inr (opened ▸ within)

theorem Machine.Level.disciplined {s : fsm_state_t} {m : Machine} (level : m.Level s) :
    Disciplined m.log := by
  cases level with
  | inl closed => exact closed.disciplined
  | inr opened => exact opened.disciplined

theorem Machine.In.log {tr tr' : Trace} {m : Machine} {c : Call} (within : m.In tr)
    (permitted : tr.Permits c) (becomes : tr.next c = tr') :
    Machine.In tr' { m with log := m.log ++ [c] } := by
  refine ⟨disciplined_snoc.mpr ⟨within.disciplined, ?_⟩, ?_⟩
  · rw [within.trace]
    exact permitted
  · rw [trace_snoc, within.trace, becomes]

/-- Calls about nothing but the readout do not matter to the session. -/
def sessionFrame : Frame Exit Machine where
  Rel m m' := ∀ tr, m.In tr → m'.In tr
  refl _ _ within := within
  trans first second tr within := second tr (first tr within)
  Exits _ := True

theorem sessionFrame_admits : Admits sessionFrame fun topic => topic = .readout where
  exits _ _ _ := trivial
  returns := trivial
  log m c about tr within := by
    have still : tr.next c = tr := by cases c <;> simp_all [Call.topic, Trace.next]
    have permitted : tr.Permits c := by cases c <;> simp_all [Call.topic, Trace.Permits]
    exact within.log permitted still
  request _ _ _ _ within := ⟨within.disciplined, within.trace⟩
  load _ _ _ within := ⟨within.disciplined, within.trace⟩
  devices _ _ _ _ within := ⟨within.disciplined, within.trace⟩

theorem sessionFrame_staff : AdmitsStaff sessionFrame :=
  fun _ _ _ within => ⟨within.disciplined, within.trace⟩

theorem sessionFrame_resize : AdmitsResize sessionFrame :=
  fun _ _ _ within => ⟨within.disciplined, within.trace⟩

section Hooks

variable {tr : Trace} {env : Answers} {α : Type} {p : Hook α}

theorem session_kept (within : Within sessionFrame p) :
    Meets (Machine.In tr) p (fun _ => Machine.In tr) (fun _ => Machine.In tr) :=
  within.stays fun _ _ moved => moved tr

theorem note_session {c : Call} {R : Exit → Machine → Prop} (permitted : tr.Permits c) :
    Meets (Machine.In tr) (note c) (fun _ => Machine.In (tr.next c)) R :=
  Meets.update fun _ within => within.log permitted rfl

theorem stop_session {c : Prop} [Decidable c] {R : Exit → Machine → Prop}
    (exits : ∀ m, m.In tr → R .returned m) :
    Meets (Machine.In tr) (whenever c (returnTo .FatalError_s)) (fun _ => Machine.In tr) R := by
  apply Meets.whenever
  · intro _ m within
    exact exits _ (sessionFrame_admits.request m _ (.inr rfl) tr within)
  · intro _ m within
    exact within

/-- What the handlers that open a session leave behind. -/
theorem openFatal_session {s : fsm_state_t} {e : UFEError} {k : Session} {Q : Unit → Machine → Prop}
    (level : k = .closed ∨ k = .opened) (fatal : e.severity = .FATAL → k = .closed)
    (other : e.severity = .other → ∀ m, m.In ⟨s, k⟩ → Q () m) :
    Meets (Machine.In ⟨s, k⟩) (bySeverity (note (.ufe_init env.init_status)) e) Q
      (fun _ => Machine.Level s) := by
  apply bySeverity_meets _ _ other
  · intro _ m within
    have kept := sessionFrame_admits.request m .Failure_s (.inl rfl) _ within
    exact kept.level level
  · intro severity
    have closed := fatal severity
    subst closed
    apply Meets.bind
    · exact note_session rfl
    intro _ m within
    have kept := sessionFrame_admits.request m .FatalError_s (.inr rfl) _ within
    simp only [Trace.next] at kept
    split at kept
    · exact .inr kept
    · exact .inl kept

/-! ## Idle -/

/-- Statements that do not care about the session, once it is open. -/
theorem opened_kept {s : fsm_state_t} (within : Within sessionFrame p) :
    Meets (Machine.In ⟨s, .opened⟩) p (fun _ => Machine.In ⟨s, .opened⟩)
      (fun _ => Machine.Level s) :=
  (session_kept within).conseq (fun _ h => h) (fun _ _ h => h) fun _ _ opened => .inr opened

/-- Statements that use the session, once it is open. -/
theorem opened_used {s : fsm_state_t} {c : Call}
    (uses : c = .ufe_get_bm_device_list ∨ c = .led_on ∨ c = .led_off ∨ c = .standbyEntering) :
    Meets (Machine.In ⟨s, .opened⟩) (note c) (fun _ => Machine.In ⟨s, .opened⟩)
      (fun _ => Machine.Level s) := by
  have permitted : Trace.Permits ⟨s, .opened⟩ c := by
    obtain rfl | rfl | rfl | rfl := uses <;> simp [Trace.Permits]
  have still : Trace.next ⟨s, .opened⟩ c = ⟨s, .opened⟩ := by
    obtain rfl | rfl | rfl | rfl := uses <;> rfl
  have noted := note_session (R := fun _ => Machine.Level s) permitted
  rwa [still] at noted

theorem startUp_session :
    Meets (Machine.In ⟨.Idle_s, .closed⟩) (BMDIdle.startUp env) (fun _ => Machine.Level .Idle_s)
      (fun _ => Machine.Level .Idle_s) := by
  have stops {c : Prop} [Decidable c] : Meets (Machine.In ⟨.Idle_s, .opened⟩)
      (whenever c (returnTo .FatalError_s)) (fun _ => Machine.In ⟨.Idle_s, .opened⟩)
      (fun _ => Machine.Level .Idle_s) := stop_session fun _ within => .inr within
  apply Meets.bind (Q := fun _ => Machine.In ⟨.Idle_s, .closed⟩)
  · apply Meets.attempt (session_kept (loadBMConfig_within sessionFrame_admits))
    · intro x e caught
      exact openFatal_session (.inl rfl) (fun _ => rfl) (fun _ _ within => within)
    · intro x _ m within
      exact .inl within
  intro _
  apply Meets.bind
  · exact note_session rfl
  intro _
  apply Meets.bind (Q := fun _ => Machine.In ⟨.Idle_s, .opened⟩)
  · apply Meets.whenever
    · intro negative m within
      rw [Trace.next, if_neg (not_le.mpr negative)] at within
      exact .inl (sessionFrame_admits.request m _ (.inr rfl) _ within)
    · intro positive m within
      rwa [Trace.next, if_pos (not_lt.mp positive)] at within
  intro _
  apply Meets.bind (opened_used (.inl rfl))
  intro _
  apply Meets.bind stops
  intro _
  apply Meets.bind (opened_kept (Within.read _))
  intro doc
  apply Meets.bind (opened_kept (checked_within sessionFrame_admits.toLogs _))
  intro devices
  apply Meets.bind stops
  intro _
  apply Meets.bind
  · apply opened_kept
    apply Within.attempt _ (bySeverity_within sessionFrame_admits (Within.pure ()))
    apply Within.bind (Within.update fun m => sessionFrame_resize m _)
    intro _
    apply eachDevice_within
    intro xDev
    apply Within.bind (initDevice_within sessionFrame_admits xDev 0)
    intro _
    exact describeDevice_within sessionFrame_admits xDev
  intro _
  apply Meets.bind (opened_used (.inr (.inr (.inl rfl))))
  intro _
  exact stops.conseq (fun _ h => h) (fun _ _ opened => .inr opened) fun _ _ h => h

/-- The exits of a reload whose exception comes from loading the configuration. -/
def LoadThrew (env : Answers) (x : Exit) : Prop :=
  ∀ e, x = .threw e → env.throws .loadBMConfig = some e

theorem describeDevice_threw (i : Nat) :
    Meets (fun _ => True) (describeDevice i) (fun _ _ => True) (fun x _ => LoadThrew env x) := by
  have quiet {x : Exit} (other : ∀ e, x ≠ .threw e) : LoadThrew env x :=
    fun e threw => absurd threw (other e)
  apply Meets.bind (Q := fun _ _ => True)
  · exact Meets.read fun _ _ => trivial
  intro ctx
  apply Meets.bind (Q := fun _ _ => True)
  · cases setDeviceDescription (ctx.devs_.getD i default) ctx.bm_config_doc_ with
    | none => exact Meets.leave fun _ _ => quiet nofun
    | some found => exact Meets.pure fun _ _ => trivial
  intro found
  apply Meets.bind (Q := fun _ _ => True)
  · exact Meets.update fun _ _ => trivial
  intro _
  apply Meets.whenever
  · intro _ m _
    exact quiet nofun
  · intro _ _ _
    trivial

theorem reload_threw :
    Meets (fun _ => True) (do loadBMConfig env; eachDevice describeDevice) (fun _ _ => True)
      (fun x _ => LoadThrew env x) := by
  apply Meets.bind (Q := fun _ _ => True)
  · apply Meets.bind (Q := fun _ _ => True)
    · exact Meets.update fun _ _ => trivial
    intro _
    apply call_meets
    · intro _ _ _
      trivial
    · intro e threw _ _ e' same
      cases same
      exact threw
  intro _
  apply Meets.bind (Q := fun _ _ => True)
  · exact Meets.read fun _ _ => trivial
  intro n
  exact Meets.each (I := fun _ _ => True) fun i _ _ => describeDevice_threw i

/-- A reload with a fatal error opens a session of its own. -/
theorem reload_session {k : Session} (level : k = .closed ∨ k = .opened)
    (fatal : ∀ e, env.throws .loadBMConfig = some e → e.severity = .FATAL → k = .closed) :
    Meets (Machine.In ⟨.Idle_s, k⟩) (BMDIdle.whenSameStateDo env)
      (fun _ => Machine.Level .Idle_s) (fun _ => Machine.Level .Idle_s) := by
  have moved : Within sessionFrame (do loadBMConfig env; eachDevice describeDevice) := by
    apply Within.bind (loadBMConfig_within sessionFrame_admits)
    intro _
    exact eachDevice_within (describeDevice_within sessionFrame_admits)
  have kept : Meets (Machine.In ⟨.Idle_s, k⟩) _ (fun _ => Machine.In ⟨.Idle_s, k⟩)
      (fun _ => Machine.In ⟨.Idle_s, k⟩) := session_kept moved
  apply Meets.attempt
  · exact (kept.and reload_threw).conseq (fun m within => ⟨within, trivial⟩)
      (fun _ _ h => h.1.level level) fun _ _ h => h
  · intro x e caught
    apply Meets.pre (P := fun m => LoadThrew env x ∧ m.In ⟨.Idle_s, k⟩) _ fun m h => ⟨h.2, h.1⟩
    apply Meets.given
    intro threw
    have same : x = .threw e := by cases x <;> simp_all [Exit.UFEError?]
    exact openFatal_session level (fatal e (threw e same)) fun _ _ within => within.level level
  · intro x _ m h
    exact h.1.level level

/-- Whether the loop that closes the devices reaches its end. -/
def Answers.Closes (env : Answers) (n : Nat) : Prop :=
  ∀ i < n, env.isOpen i 0 = true → env.throws (.close i) = none

/-- The closing loop ends where every device lets itself be closed, and throws otherwise. -/
theorem closeDevices_session (n : Nat) (next : Option fsm_state_t) :
    Meets (fun m => m.In tr ∧ m.ctx.devs_.length = n ∧ m.next_ = next) (closeDevices env)
      (fun _ m => env.Closes n ∧ m.In tr ∧ m.next_ = next)
      (fun x m => ¬env.Closes n ∧ m.In tr ∧ ∃ e, x = .threw e) := by
  refine Meets.conseq (eachDevice_meets (n := n)
    (P := fun m => m.In tr ∧ m.ctx.devs_.length = n ∧ m.next_ = next)
    (I := fun later m => m.In tr ∧ m.next_ = next ∧
      ∀ i < n, i ∉ later → env.isOpen i 0 = true → env.throws (.close i) = none) ?_ ?_)
    (fun _ h => h) ?_ (fun _ _ h => h)
  · intro m h
    refine ⟨h.2.1, h.1, h.2.2, ?_⟩
    intro i small outside
    exact absurd (List.mem_range.mpr small) outside
  · intro i later inside
    have small : i < n := List.mem_range.mp (inside.subset List.mem_cons_self)
    have grow (m : Machine) (closes : env.isOpen i 0 = true → env.throws (.close i) = none)
        (h : ∀ j < n, j ∉ i :: later → env.isOpen j 0 = true → env.throws (.close j) = none) :
        ∀ j < n, j ∉ later → env.isOpen j 0 = true → env.throws (.close j) = none := by
      intro j below outside
      by_cases same : j = i
      · subst same
        exact closes
      · exact h j below (List.not_mem_cons_of_ne_of_not_mem same outside)
    apply Meets.whenever
    · intro isOpen
      apply call_meets
      · intro quiet m h
        exact ⟨sessionFrame_admits.log m _ (.inl rfl) tr h.1, h.2.1, grow m (fun _ => quiet) h.2.2⟩
      · intro e loud m h
        refine ⟨?_, sessionFrame_admits.log m _ (.inl rfl) tr h.1, e, rfl⟩
        intro closes
        rw [closes i small isOpen] at loud
        cases loud
    · intro shut m h
      exact ⟨h.1, h.2.1, grow m (fun isOpen => absurd isOpen shut) h.2.2⟩
  · intro _ m h
    exact ⟨fun i small => h.2.2 i small (List.not_mem_nil), h.1, h.2.1⟩

theorem closeSession_session {s : fsm_state_t} (next : Option fsm_state_t) :
    Meets (fun m => m.In ⟨s, .opened⟩ ∧ m.next_ = next) (closeSession env)
      (fun _ m => m.In ⟨s, .closed⟩ ∧ m.next_ = next)
      (fun x m => m.In ⟨s, .closed⟩ ∧ ∃ e, x = .threw e) := by
  apply Meets.bind (Q := fun _ m => m.In ⟨s, .freed⟩ ∧ m.next_ = next)
  · apply Meets.update
    intro m h
    exact ⟨h.1.log rfl rfl, h.2⟩
  intro _
  apply Meets.bind (Q := fun _ m => m.In ⟨s, .closed⟩ ∧ m.next_ = next)
  · apply Meets.update
    intro m h
    exact ⟨h.1.log (by simp [Trace.Permits]) rfl, h.2⟩
  intro _
  apply call_meets
  · intro _ m h
    exact ⟨sessionFrame_admits.log m _ (.inl rfl) _ h.1, h.2⟩
  · intro e _ m h
    exact ⟨sessionFrame_admits.log m _ (.inl rfl) _ h.1, e, rfl⟩

/-- Leaving `Idle_s` for good, with an open session: it is closed, or the LEDs failed and
    the session is left to the fatal error. -/
theorem exit_session (n : Nat) :
    Meets (fun m => m.In ⟨.Idle_s, .opened⟩ ∧ m.ctx.devs_.length = n ∧ m.next_ = none)
      (BMDIdle.whenLeavingStateDo env .Undefined_s)
      (fun _ m => m.In ⟨.Idle_s, .closed⟩ ∧ m.next_ = none)
      (fun x m => m.Level .Idle_s ∧ (x = .returned → m.In ⟨.Idle_s, .opened⟩)) := by
  have thrown {x : Exit} {m : Machine} (threw : ∃ e, x = .threw e) (level : m.Level .Idle_s) :
      m.Level .Idle_s ∧ (x = .returned → m.In ⟨.Idle_s, .opened⟩) := by
    obtain ⟨e, rfl⟩ := threw
    exact ⟨level, nofun⟩
  apply Meets.bind
  · apply (closeDevices_session n none).conseq (fun _ h => h) (fun _ _ h => h)
    intro x m h
    exact thrown h.2.2 (.inr h.2.1)
  intro _
  apply Meets.given
  intro _
  apply Meets.bind (Q := fun _ m => m.In ⟨.Idle_s, .opened⟩ ∧ m.next_ = none)
  · apply Meets.update
    intro m h
    exact ⟨h.1.log (by simp [Trace.Permits]) rfl, h.2⟩
  intro _
  apply Meets.bind (Q := fun _ m => m.In ⟨.Idle_s, .opened⟩ ∧ m.next_ = none)
  · apply Meets.whenever
    · intro _ m h
      have kept := sessionFrame_admits.request m .FatalError_s (.inr rfl) _ h.1
      exact ⟨.inr kept, fun _ => kept⟩
    · intro _ m h
      exact h
  intro _
  apply (closeSession_session none).conseq (fun _ h => h) (fun _ _ h => h)
  intro x m h
  exact thrown h.2 (.inl h.1)

/-- A hook that begins with the closing loop gets no further if some device cannot be
    closed. -/
theorem close_stuck {n : Nat} (next : Option fsm_state_t) {rest : Unit → Hook Unit}
    (stuck : ¬env.Closes n) :
    Meets (fun m => m.In tr ∧ m.ctx.devs_.length = n ∧ m.next_ = next) (closeDevices env >>= rest)
      (fun _ _ => False) (fun x m => m.In tr ∧ x ≠ .returned) := by
  apply Meets.bind
  · apply (closeDevices_session n next).conseq (fun _ h => h) (fun _ _ h => h)
    intro x m h
    obtain ⟨_, within, e, rfl⟩ := h
    exact ⟨within, nofun⟩
  intro _
  apply Meets.given
  intro closes
  exact absurd closes stuck

/-! ## Standby and FatalError -/

theorem standby_session (old_state : fsm_state_t) :
    Meets (Machine.In ⟨.Standby_s, .opened⟩) (BMDStandby.whenEnteringStateDo env old_state)
      (fun _ => Machine.In ⟨.Standby_s, .opened⟩) (fun _ => Machine.In ⟨.Standby_s, .opened⟩) := by
  apply Meets.attempt
  · apply Meets.bind
    · apply session_kept
      apply Within.whenever
      intro _
      apply Within.bind (eachDevice_within (BMDStandby.configureDevice_within sessionFrame_admits))
      intro _
      exact BMDStandby.hire_within sessionFrame_admits sessionFrame_staff trivial
    intro _
    apply Meets.bind
    · apply session_kept
      exact Within.each fun xDc _ => BMDStandby.provide_within sessionFrame_admits trivial xDc
    intro _
    apply Meets.bind
    · exact session_kept (recorder_within sessionFrame_admits.toLogs trivial (.inl rfl))
    intro _
    apply call_meets
    · intro _ m within
      exact within.log (by simp [Trace.Permits]) rfl
    · intro _ _ m within
      exact within.log (by simp [Trace.Permits]) rfl
  · intro x e _
    exact session_kept (bySeverity_within sessionFrame_admits (Within.pure ()) e)
  · exact fun _ _ _ h => h

theorem fatalError_session :
    Meets (Machine.In ⟨.FatalError_s, .opened⟩) (BMDFatalError.whenEnteringStateDo env)
      (fun _ => Machine.Level .FatalError_s) (fun _ => Machine.Level .FatalError_s) := by
  apply Meets.bind
  · exact opened_kept (closeDevices_within sessionFrame_admits.toLogs)
  intro _
  apply Meets.bind (opened_used (.inr (.inr (.inl rfl))))
  intro _ m within
  have closed (next : Option fsm_state_t) : Meets
      (fun m => m.In ⟨.FatalError_s, .opened⟩ ∧ m.next_ = next) (closeSession env)
      (fun _ => Machine.Level .FatalError_s) (fun _ => Machine.Level .FatalError_s) :=
    (closeSession_session next).conseq (fun _ h => h) (fun _ _ h => .inl h.1)
      fun _ _ h => .inl h.1
  exact closed m.next_ m ⟨within, rfl⟩

end Hooks

/-! ## Changes -/

/-- Calls and dismissals request no change. -/
def requestFrame : Frame Exit Machine where
  Rel m m' := m'.next_ = m.next_
  refl _ := rfl
  trans first second := second.trans first
  Exits _ := True

theorem requestFrame_logs : Logs requestFrame fun _ => True :=
  ⟨fun _ _ _ => trivial, fun _ _ _ => rfl⟩

theorem requestFrame_staff : AdmitsStaff requestFrame := fun _ _ => rfl

namespace Machine

/-- The session of a machine that is about to leave the state `s`. -/
def Settled (s : fsm_state_t) (m : Machine) : Prop :=
  m.In ⟨s, .opened⟩ ∨
    (m.In ⟨s, .closed⟩ ∧ m.next_ = none ∧ ¬(s = .Standby_s ∨ s = .Active_s))

theorem Settled.level {s : fsm_state_t} {m : Machine} (settled : m.Settled s) : m.Level s := by
  cases settled with
  | inl opened => exact .inr opened
  | inr closed => exact .inl closed.1

theorem In.not_closed {s : fsm_state_t} {m : Machine} (opened : m.In ⟨s, .opened⟩) :
    ¬m.In ⟨s, .closed⟩ := by
  intro closed
  have both := opened.trace.symm.trans closed.trace
  cases both

/-- The session of a machine in the state `s` between two turns. Only in `Idle_s` does a
    missing session meet a fatal error. -/
structure AlignedAt (s : fsm_state_t) (m : Machine) : Prop where
  level : m.Level s
  staffed : s = .Standby_s ∨ s = .Active_s → m.In ⟨s, .opened⟩
  fatal : m.In ⟨s, .closed⟩ → m.next_ = some .FatalError_s → s = .Idle_s ∨ s = .FatalError_s

theorem AlignedAt.of_opened {s : fsm_state_t} {m : Machine} (opened : m.In ⟨s, .opened⟩) :
    m.AlignedAt s :=
  ⟨.inr opened, fun _ => opened, fun closed => absurd closed opened.not_closed⟩

theorem AlignedAt.of_settled {s : fsm_state_t} {m : Machine} (settled : m.Settled s) :
    m.AlignedAt s := by
  cases settled with
  | inl opened => exact .of_opened opened
  | inr closed =>
      refine ⟨.inl closed.1, fun inside => absurd inside closed.2.2, fun _ fatal => ?_⟩
      rw [closed.2.1] at fatal
      cases fatal

theorem AlignedAt.of_level {s : fsm_state_t} {m : Machine} (level : m.Level s)
    (failing : s = .Idle_s ∨ s = .FatalError_s) : m.AlignedAt s := by
  refine ⟨level, fun inside => ?_, fun _ _ => failing⟩
  cases failing <;> simp_all

section Aligned

variable {s : fsm_state_t} {hook : Hook Unit} {P : Machine → Prop}

/-- A hook that is run with a session open and leaves it so. -/
theorem aligned_of_opened (before : ∀ m, P m → m.In ⟨s, .opened⟩)
    (met : Meets (Machine.In ⟨s, .opened⟩) hook (fun _ => Machine.In ⟨s, .opened⟩)
      (fun _ => Machine.In ⟨s, .opened⟩)) :
    Meets P hook (fun _ => AlignedAt s) (fun _ => AlignedAt s) :=
  met.conseq before (fun _ _ opened => .of_opened opened) fun _ _ opened => .of_opened opened

/-- A hook of a state that may be without a session. -/
theorem aligned_of_level {Q : Machine → Prop} (before : ∀ m, P m → Q m)
    (failing : s = .Idle_s ∨ s = .FatalError_s)
    (met : Meets Q hook (fun _ => Machine.Level s) (fun _ => Machine.Level s)) :
    Meets P hook (fun _ => AlignedAt s) (fun _ => AlignedAt s) :=
  met.conseq before (fun _ _ level => .of_level level failing) fun _ _ level =>
    .of_level level failing

end Aligned

/-- The four ways in which a turn breaks the discipline: a reload with a fatal error while a
    session is open, and a change to one of three states while none is. -/
def Breaches (m : Machine) (t : Turn) : Prop :=
  m.life = .running ∧ m.state_ = .Idle_s ∧
    match m.target t.command with
    | some .Idle_s =>
        (trace m.log).session = .opened ∧
          ∃ e, t.entering.throws .loadBMConfig = some e ∧ e.severity = .FATAL
    | some .Standby_s => (trace m.log).session = .closed
    | some .Undefined_s =>
        (trace m.log).session = .closed ∧ t.leaving.Closes m.ctx.devs_.length
    | some .FatalError_s =>
        (trace m.log).session = .closed ∧ t.entering.Closes m.ctx.devs_.length
    | _ => False

section Changes

variable {k : Session} {s new_state : fsm_state_t} {env : Answers} {n : Nat}

theorem settled_of {m : Machine} (level : k = .closed ∨ k = .opened)
    (staffed : s = .Standby_s ∨ s = .Active_s → k = .opened)
    (h : m.In ⟨s, k⟩ ∧ m.next_ = none) : m.Settled s := by
  cases level with
  | inl closed =>
      subst closed
      exact .inr ⟨h.1, h.2, fun inside => nomatch staffed inside⟩
  | inr opened =>
      subst opened
      exact .inl h.1

/-- Only `Idle_s` closes the session when it is left. -/
theorem leaving_within (away : s ≠ .Idle_s) :
    Within sessionFrame (BMDaq.whenLeavingStateDo env s new_state) :=
  whenLeavingStateDo_within sessionFrame_admits new_state (fun idle => absurd idle away)
    (fun _ => rfl) fun _ => sessionFrame_staff

/-- Dismissing everybody touches neither the session nor the next state. -/
theorem dismissAll_session {tr : Trace} :
    Meets (fun m => m.In tr ∧ m.next_ = none) (dismissAll env)
      (fun _ m => m.In tr ∧ m.next_ = none) (fun _ m => m.In tr ∧ m.next_ = none) := by
  have moved : Within sessionFrame (dismissAll env) :=
    dismissAll_within sessionFrame_admits.toLogs sessionFrame_staff
  have silent : Within requestFrame (dismissAll env) :=
    dismissAll_within requestFrame_logs requestFrame_staff
  exact (session_kept moved).and (silent.stays fun _ _ moved same => moved.trans same)

/-- What the leaving hooks do to the session. -/
theorem leaving_session (level : k = .closed ∨ k = .opened)
    (staffed : s = .Standby_s ∨ s = .Active_s → k = .opened)
    (stuck : s = .Idle_s → new_state = .Undefined_s → k = .closed → ¬env.Closes n) :
    Meets (fun m => m.In ⟨s, k⟩ ∧ m.ctx.devs_.length = n ∧ m.next_ = none)
      (BMDaq.whenLeavingStateDo env s new_state) (fun _ => Settled s)
      (fun x m => m.Level s ∧ (x = .returned → m.Settled s)) := by
  have nothing : Meets (fun m => m.In ⟨s, k⟩ ∧ m.ctx.devs_.length = n ∧ m.next_ = none)
      (pure () : Hook Unit) (fun _ => Settled s)
      (fun x m => m.Level s ∧ (x = .returned → m.Settled s)) :=
    Meets.pure fun m h => settled_of level staffed ⟨h.1, h.2.2⟩
  have opened (away : s ≠ .Idle_s) (isOpen : k = .opened) :
      Meets (fun m => m.In ⟨s, k⟩ ∧ m.ctx.devs_.length = n ∧ m.next_ = none)
        (BMDaq.whenLeavingStateDo env s new_state) (fun _ => Settled s)
        (fun x m => m.Level s ∧ (x = .returned → m.Settled s)) := by
    subst isOpen
    apply (session_kept (leaving_within away)).conseq (fun _ h => h.1)
    · exact fun _ _ within => .inl within
    · exact fun _ _ within => ⟨.inr within, fun _ => .inl within⟩
  cases s with
  | Undefined_s => exact nothing
  | FatalError_s => exact nothing
  | Standby_s => exact opened (by simp) (staffed (.inl rfl))
  | Active_s => exact opened (by simp) (staffed (.inr rfl))
  | Failure_s =>
      apply dismissAll_session.conseq
      · exact fun m h => ⟨h.1, h.2.2⟩
      · exact fun _ m h => settled_of level staffed h
      · intro _ m h
        have settled := settled_of level staffed h
        exact ⟨settled.level, fun _ => settled⟩
  | Idle_s =>
      by_cases away : new_state = .Undefined_s
      · subst away
        cases level with
        | inl closed =>
            apply (close_stuck none (stuck rfl rfl closed)).conseq (fun _ h => h)
            · exact fun _ _ h => h.elim
            · intro x m h
              subst closed
              exact ⟨.inl h.1, fun returned => absurd returned h.2⟩
        | inr opened =>
            subst opened
            apply (exit_session n).conseq (fun _ h => h)
            · exact fun _ _ h => .inr ⟨h.1, h.2, by simp⟩
            · exact fun x m h => ⟨h.1, fun returned => .inl (h.2 returned)⟩
      · have still : BMDaq.whenLeavingStateDo env .Idle_s new_state = pure () := if_neg away
        rw [still]
        exact nothing

/-- What the entering hooks do to the session. -/
theorem entering_session (old_state : fsm_state_t) (level : k = .closed ∨ k = .opened)
    (staffed : s = .Standby_s ∨ s = .Active_s → k = .opened)
    (start : s = .Idle_s → old_state = .Undefined_s → k = .closed)
    (stuck : s = .FatalError_s → k = .closed → ¬env.Closes n) {next : Option fsm_state_t}
    (silent : k = .closed → next = none) :
    Meets (fun m => m.In ⟨s, k⟩ ∧ m.ctx.devs_.length = n ∧ m.next_ = next)
      (BMDaq.whenEnteringStateDo env s old_state) (fun _ => AlignedAt s)
      (fun _ => AlignedAt s) := by
  have nothing : Meets (fun m => m.In ⟨s, k⟩ ∧ m.ctx.devs_.length = n ∧ m.next_ = next)
      (pure () : Hook Unit) (fun _ => AlignedAt s) (fun _ => AlignedAt s) := by
    apply Meets.pure
    intro m h
    cases level with
    | inl closed =>
        have none := h.2.2.trans (silent closed)
        exact .of_settled (settled_of (.inl closed) staffed ⟨h.1, none⟩)
    | inr opened =>
        subst opened
        exact .of_opened h.1
  cases s with
  | Undefined_s => exact nothing
  | Failure_s => exact nothing
  | Standby_s =>
      have opened := staffed (.inl rfl)
      subst opened
      exact aligned_of_opened (fun _ h => h.1) (standby_session old_state)
  | Active_s =>
      have opened := staffed (.inr rfl)
      subst opened
      have moved : Within sessionFrame (BMDActive.whenEnteringStateDo env) :=
        BMDActive.whenEnteringStateDo_within sessionFrame_admits rfl
      exact aligned_of_opened (fun _ h => h.1) (session_kept moved)
  | Idle_s =>
      by_cases fresh : old_state = .Undefined_s
      · have closed := start rfl fresh
        subst closed fresh
        exact aligned_of_level (fun _ h => h.1) (.inl rfl) startUp_session
      · have still : BMDaq.whenEnteringStateDo env .Idle_s old_state = pure () := if_neg fresh
        rw [still]
        exact nothing
  | FatalError_s =>
      cases level with
      | inl closed =>
          apply (close_stuck next (stuck rfl closed)).conseq (fun _ h => h)
          · exact fun _ _ h => h.elim
          · intro x m h
            subst closed
            exact .of_level (.inl h.1) (.inr rfl)
      | inr opened =>
          subst opened
          exact aligned_of_level (fun _ h => h.1) (.inr rfl) fatalError_session

/-- What the hooks of a repeated state do to the session. -/
theorem same_session (level : k = .closed ∨ k = .opened)
    (staffed : s = .Standby_s ∨ s = .Active_s → k = .opened)
    (fatal : s = .Idle_s → ∀ e, env.throws .loadBMConfig = some e → e.severity = .FATAL →
      k = .closed) :
    Meets (fun m => m.In ⟨s, k⟩ ∧ m.next_ = none) (BMDaq.whenSameStateDo env s)
      (fun _ => AlignedAt s) (fun _ => AlignedAt s) := by
  have nothing : Meets (fun m => m.In ⟨s, k⟩ ∧ m.next_ = none) (pure () : Hook Unit)
      (fun _ => AlignedAt s) (fun _ => AlignedAt s) :=
    Meets.pure fun m h => .of_settled (settled_of level staffed h)
  cases s with
  | Undefined_s => exact nothing
  | Failure_s => exact nothing
  | FatalError_s => exact nothing
  | Active_s => exact nothing
  | Standby_s =>
      have opened := staffed (.inl rfl)
      subst opened
      have moved : Within sessionFrame (recorder env .getRunNum) :=
        recorder_within sessionFrame_admits.toLogs trivial (.inl rfl)
      exact aligned_of_opened (fun _ h => h.1) (session_kept moved)
  | Idle_s =>
      exact aligned_of_level (fun _ h => h.1) (.inl rfl) (reload_session level (fatal rfl))

end Changes

/-! ## Runs -/

theorem In.of_log {tr : Trace} {m m' : Machine} (within : m.In tr) (same : m'.log = m.log) :
    m'.In tr := ⟨same ▸ within.disciplined, same ▸ within.trace⟩

theorem Level.of_log {s : fsm_state_t} {m m' : Machine} (level : m.Level s)
    (same : m'.log = m.log) : m'.Level s :=
  level.imp (fun closed => closed.of_log same) fun opened => opened.of_log same

theorem AlignedAt.blind {s : fsm_state_t} {m : Machine} {life : Life} (aligned : m.AlignedAt s) :
    AlignedAt s { m with life := life } := by
  refine ⟨aligned.level.of_log rfl, fun inside => (aligned.staffed inside).of_log rfl, ?_⟩
  exact fun closed => aligned.fatal (closed.of_log rfl)

/-- The session as one of the two values it has between turns. -/
theorem AlignedAt.session {s : fsm_state_t} {m : Machine} (aligned : m.AlignedAt s) :
    ∃ k, m.In ⟨s, k⟩ ∧ (k = .closed ∨ k = .opened) ∧
      (s = .Standby_s ∨ s = .Active_s → k = .opened) := by
  cases aligned.level with
  | inr opened => exact ⟨.opened, opened, .inr rfl, fun _ => rfl⟩
  | inl closed =>
      refine ⟨.closed, closed, .inl rfl, fun inside => ?_⟩
      exact absurd closed (aligned.staffed inside).not_closed

structure Sound (m : Machine) : Prop where
  disciplined : Disciplined m.log
  pending : m.Pending
  aligned : m.life = .running → m.AlignedAt m.state_

theorem boot_sound : boot.Sound := by
  refine ⟨disciplined_nil, boot_pending, fun _ => ?_⟩
  have closed : boot.In ⟨.Undefined_s, .closed⟩ := ⟨disciplined_nil, rfl⟩
  refine ⟨.inl closed, ?_, ?_⟩ <;> simp [boot]

section Turns

variable {m : Machine} {t : Turn} {s : fsm_state_t}

/-- Between the two hooks of a change. -/
theorem leave_settled (aligned : m.AlignedAt m.state_) (alive : m.life = .running)
    (toward : m.target t.command = some s) (avoids : ¬m.Breaches t) :
    Disciplined (m.leave s t).log ∧
      ((m.leave s t).life = .running → (m.leave s t).Settled m.state_) := by
  obtain ⟨k, within, level, staffed⟩ := aligned.session
  have stuck (idle : m.state_ = .Idle_s) (away : s = .Undefined_s) (closed : k = .closed) :
      ¬t.leaving.Closes m.ctx.devs_.length := by
    intro closes
    subst away closed
    refine avoids ⟨alive, idle, ?_⟩
    simp only [toward]
    exact ⟨congrArg Trace.session within.trace, closes⟩
  have met := leaving_session level staffed stuck
  have before : Machine.In ⟨m.state_, k⟩ { m with next_ := none } := within.of_log rfl
  constructor
  · have logged := met.conseq (fun _ h => h) (fun _ m settled => settled.level)
      fun _ m h => h.1
    exact (execute_keeps logged ⟨before, rfl, rfl⟩ fun _ _ level => level.of_log rfl).disciplined
  · intro survived
    cases execute_meets met ⟨before, rfl, rfl⟩ survived with
    | inl settled => exact settled
    | inr returned => exact returned.2 rfl

/-- A session that is missing when `s` is entered was missing before. -/
theorem leave_closed (aligned : m.AlignedAt m.state_) (away : s ≠ .Undefined_s)
    (closed : (m.leave s t).In ⟨m.state_, .closed⟩) : m.In ⟨m.state_, .closed⟩ := by
  by_cases idle : m.state_ = .Idle_s
  · rw [leave_idle idle away] at closed
    exact closed.of_log rfl
  · cases aligned.level with
    | inl before => exact before
    | inr opened =>
        have kept : (m.leave s t).In ⟨m.state_, .opened⟩ := by
          have before : Machine.In ⟨m.state_, .opened⟩ { m with next_ := none } := opened.of_log rfl
          exact execute_keeps (session_kept (leaving_within idle)) before
            fun _ _ within => within.of_log rfl
        exact absurd closed kept.not_closed

/-- Without a session, FatalError is entered only from `Idle_s`, and its closing loop does not
    reach its end. -/
theorem fatalError_stuck (aligned : m.AlignedAt m.state_) (alive : m.life = .running)
    (toward : m.target t.command = some .FatalError_s) (other : .FatalError_s ≠ m.state_)
    (avoids : ¬m.Breaches t) (closed : (m.leave .FatalError_s t).In ⟨m.state_, .closed⟩) :
    ¬t.entering.Closes (m.leave .FatalError_s t).ctx.devs_.length := by
  intro closes
  have requested : m.next_ = some .FatalError_s := by
    cases target_eq toward with
    | inl requested => exact requested
    | inr commanded =>
        cases old : m.state_ <;> simp_all [allowed]
  have before := leave_closed aligned (by simp) closed
  cases aligned.fatal before requested with
  | inr same => exact absurd same.symm other
  | inl idle =>
      rw [leave_idle idle (by simp)] at closes
      refine avoids ⟨alive, idle, ?_⟩
      simp only [toward]
      exact ⟨congrArg Trace.session before.trace, closes⟩

/-- The second half of a change. -/
theorem enter_aligned (sound : m.Sound) (alive : m.life = .running)
    (toward : m.target t.command = some s) (other : s ≠ m.state_) (avoids : ¬m.Breaches t)
    (settled : (m.leave s t).Settled m.state_) :
    AlignedAt s (((m.leave s t).moveTo s).execute
      (BMDaq.whenEnteringStateDo t.entering s m.state_)) := by
  have aligned := sound.aligned alive
  have route := sound.pending.route toward other
  obtain ⟨k, within, level, missing⟩ : ∃ k, (m.leave s t).In ⟨m.state_, k⟩ ∧
      (k = .closed ∨ k = .opened) ∧ (k = .closed → (m.leave s t).next_ = none ∧
        ¬(m.state_ = .Standby_s ∨ m.state_ = .Active_s)) := by
    cases settled with
    | inl opened => exact ⟨.opened, opened, .inr rfl, nofun⟩
    | inr closed => exact ⟨.closed, closed.1, .inl rfl, fun _ => closed.2⟩
  have staffed (inside : s = .Standby_s ∨ s = .Active_s) : k = .opened := by
    cases level with
    | inr opened => exact opened
    | inl closed =>
        have away := (missing closed).2
        obtain rfl | rfl := inside
        · have idle : m.state_ = .Idle_s := by
            generalize m.state_ = old at route away
            cases route with
            | on => rfl
            | stop => exact absurd (.inr rfl) away
          subst closed
          refine absurd ⟨alive, idle, ?_⟩ avoids
          simp only [toward]
          exact congrArg Trace.session (leave_closed aligned (by simp) within).trace
        · generalize m.state_ = old at route away
          cases route with
          | run => exact absurd (.inl rfl) away
  have start (idle : s = .Idle_s) (fresh : m.state_ = .Undefined_s) : k = .closed := by
    subst idle
    have empty : (m.leave .Idle_s t).log = [] := by
      rw [leave_undefined fresh]
      exact sound.pending.fresh toward fresh
    have both := within.trace
    rw [empty] at both
    exact (congrArg Trace.session both).symm
  have stuck (fatal : s = .FatalError_s) (closed : k = .closed) :
      ¬t.entering.Closes (m.leave s t).ctx.devs_.length := by
    subst fatal closed
    exact fatalError_stuck aligned alive toward other avoids within
  have permitted : Trace.Permits ⟨m.state_, k⟩ (.enters s) := by
    intro standby closed
    rw [staffed (.inl standby)] at closed
    cases closed
  have moved : ((m.leave s t).moveTo s).In ⟨s, k⟩ := (within.log permitted rfl).of_log rfl
  exact execute_keeps
    (entering_session m.state_ level staffed start stuck fun closed => (missing closed).1)
    ⟨moved, rfl, rfl⟩ fun _ _ aligned => aligned.blind

/-- A turn that is not one of the four keeps the machine sound. -/
theorem turn_sound (sound : m.Sound) (avoids : ¬m.Breaches t) : (m.turn t).Sound := by
  have pending := turn_pending t sound.pending
  have turned := turned m t
  generalize m.turn t = m' at turned pending
  cases turned with
  | ignored => exact sound
  | repeated alive toward =>
      obtain ⟨k, within, level, staffed⟩ := (sound.aligned alive).session
      have fatal (idle : m.state_ = .Idle_s) (e : UFEError)
          (threw : t.entering.throws .loadBMConfig = some e) (severity : e.severity = .FATAL) :
          k = .closed := by
        cases level with
        | inl closed => exact closed
        | inr opened =>
            subst opened
            refine absurd ⟨alive, idle, ?_⟩ avoids
            simp only [toward, idle]
            exact ⟨congrArg Trace.session within.trace, e, threw, severity⟩
      have before : Machine.In ⟨m.state_, k⟩ { m with next_ := none } := within.of_log rfl
      have aligned := execute_keeps (same_session level staffed fatal)
        ⟨before, rfl⟩ fun _ _ aligned => aligned.blind
      refine ⟨aligned.level.disciplined, pending, fun _ => ?_⟩
      rw [repeated_state_]
      exact aligned
  | @died s alive toward other dead =>
      have left := leave_settled (sound.aligned alive) alive toward avoids
      exact ⟨left.1, pending, fun survived => absurd survived dead⟩
  | @changed s alive toward other survived =>
      have settled := (leave_settled (sound.aligned alive) alive toward avoids).2 survived
      have aligned := enter_aligned sound alive toward other avoids settled
      refine ⟨aligned.level.disciplined, pending, fun _ => ?_⟩
      rw [entered_state_]
      exact aligned

end Turns

/-! ## The four breaches -/

section Breaches

variable {tr : Trace} {env : Answers} {m : Machine} {t : Turn}

/-- The log is out of order. -/
def Broken (m : Machine) : Prop := ¬Disciplined m.log

theorem In.breaks {c : Call} (within : m.In tr) (forbidden : ¬tr.Permits c) :
    Broken { m with log := m.log ++ [c] } := by
  intro fine
  have permitted := (disciplined_snoc.mp fine).2
  rw [within.trace] at permitted
  exact forbidden permitted

theorem Broken.of_prefix {m' : Machine} (broken : m.Broken) (inside : m.log <+: m'.log) :
    m'.Broken := fun fine => broken (fine.of_prefix inside)

theorem broken_kept {hook : Hook Unit} (moved : Within steady hook) :
    Meets Broken hook (fun _ => Broken) (fun _ => Broken) :=
  moved.stays fun _ _ moved broken => broken.of_prefix moved.log

theorem note_breaks {c : Call} {R : Exit → Machine → Prop} (forbidden : ¬tr.Permits c) :
    Meets (Machine.In tr) (note c) (fun _ => Broken) R :=
  Meets.update fun _ within => within.breaks forbidden

/-- With every device closed, what follows the closing loop is reached. -/
theorem close_breaks {n : Nat} {next : Option fsm_state_t} {rest : Unit → Hook Unit}
    (closes : env.Closes n)
    (breaks : ∀ u, Meets (Machine.In tr) (rest u) (fun _ => Broken) (fun _ => Broken)) :
    Meets (fun m => m.In tr ∧ m.ctx.devs_.length = n ∧ m.next_ = next) (closeDevices env >>= rest)
      (fun _ => Broken) (fun _ => Broken) := by
  apply Meets.bind
  · apply (closeDevices_session n next).conseq (fun _ h => h) (fun _ _ h => h)
    intro x m h
    exact absurd closes h.1
  intro u
  apply Meets.given
  intro _
  exact (breaks u).pre fun m h => h.1

theorem reload_breaks {e : UFEError} (threw : env.throws .loadBMConfig = some e)
    (fatal : e.severity = .FATAL) :
    Meets (Machine.In ⟨.Idle_s, .opened⟩) (BMDIdle.whenSameStateDo env) (fun _ => Broken)
      (fun _ => Broken) := by
  apply Meets.attempt (Q := fun _ => Broken)
    (R := fun x m => x = .threw e ∧ m.In ⟨.Idle_s, .opened⟩)
  · apply Meets.bind (Q := fun _ _ => False)
    · apply Meets.bind (Q := fun _ => Machine.In ⟨.Idle_s, .opened⟩)
      · exact Meets.update fun m => sessionFrame_admits.load m _ _
      intro _
      apply call_meets
      · intro quiet
        rw [threw] at quiet
        cases quiet
      · intro e' same m within
        rw [threw] at same
        cases same
        exact ⟨rfl, sessionFrame_admits.log m _ (.inl rfl) _ within⟩
    intro _ _ impossible
    exact impossible.elim
  · intro x e' caught
    apply Meets.given
    intro same
    subst same
    cases caught
    apply bySeverity_meets
    · intro serious
      rw [fatal] at serious
      cases serious
    · intro _
      apply Meets.bind (note_breaks (by simp [Trace.Permits]))
      intro _
      exact broken_kept (returnTo_within steady_admits (.inr rfl))
    · intro other
      rw [fatal] at other
      cases other
  · intro x passed m h
    rw [h.1] at passed
    cases passed

theorem exit_breaks {n : Nat} {next : Option fsm_state_t} (closes : env.Closes n) :
    Meets (fun m => m.In ⟨.Idle_s, .closed⟩ ∧ m.ctx.devs_.length = n ∧ m.next_ = next)
      (BMDIdle.whenLeavingStateDo env .Undefined_s) (fun _ => Broken) (fun _ => Broken) := by
  apply close_breaks closes
  intro _
  apply Meets.bind (note_breaks (by simp [Trace.Permits]))
  intro _
  apply Meets.bind
  · apply broken_kept
    exact Within.whenever fun _ => returnTo_within steady_admits (.inr rfl)
  intro _
  exact broken_kept (closeSession_within steady_admits.toLogs trivial)

theorem fatalError_breaks {n : Nat} {next : Option fsm_state_t} (closes : env.Closes n) :
    Meets (fun m => m.In ⟨.FatalError_s, .closed⟩ ∧ m.ctx.devs_.length = n ∧ m.next_ = next)
      (BMDFatalError.whenEnteringStateDo env) (fun _ => Broken) (fun _ => Broken) := by
  apply close_breaks closes
  intro _
  apply Meets.bind (Q := fun _ => Machine.In ⟨.FatalError_s, .closed⟩)
  · apply Meets.update
    intro m within
    exact within.log (by simp [Trace.Permits]) rfl
  intro _
  apply Meets.bind (note_breaks (by simp [Trace.Permits]))
  intro _
  apply broken_kept
  apply Within.bind (note_within steady_admits.toLogs (.inr trivial))
  intro _
  exact call_within steady_admits.toLogs (.inl rfl)

theorem turn_standby_breaks (alive : m.life = .running) (idle : m.state_ = .Idle_s)
    (toward : m.target t.command = some .Standby_s) (within : m.In ⟨.Idle_s, .closed⟩) :
    Broken (m.turn t) := by
  have left := leave_idle idle (s := .Standby_s) (by simp) t
  have survived : (m.leave .Standby_s t).life = .running := by
    rw [left]
    exact alive
  have entered : Broken ((m.leave .Standby_s t).moveTo .Standby_s) := by
    rw [left]
    have cleared : Machine.In ⟨.Idle_s, .closed⟩ { m with next_ := none } := within.of_log rfl
    exact cleared.breaks (c := .enters .Standby_s) (by simp [Trace.Permits])
  rw [turn_changed alive toward (by simp [idle]) survived]
  apply entered.of_prefix
  rw [execute_log]
  exact (entering_steady ..).log

theorem turn_fatalError_breaks (alive : m.life = .running) (idle : m.state_ = .Idle_s)
    (toward : m.target t.command = some .FatalError_s) (within : m.In ⟨.Idle_s, .closed⟩)
    (closes : t.entering.Closes m.ctx.devs_.length) : Broken (m.turn t) := by
  have left := leave_idle idle (s := .FatalError_s) (by simp) t
  have survived : (m.leave .FatalError_s t).life = .running := by
    rw [left]
    exact alive
  have entered : Machine.In ⟨.FatalError_s, .closed⟩
      ((m.leave .FatalError_s t).moveTo .FatalError_s) := by
    rw [left]
    exact (within.log (c := .enters .FatalError_s) (by simp [Trace.Permits]) rfl).of_log rfl
  rw [turn_changed alive toward (by simp [idle]) survived]
  refine execute_keeps (fatalError_breaks closes) ⟨entered, ?_, rfl⟩ fun _ _ broken => broken
  rw [left]
  rfl

/-- Each of the four breaks the discipline. -/
theorem turn_breaks (sound : m.Sound) (breach : m.Breaches t) : Broken (m.turn t) := by
  obtain ⟨alive, idle, how⟩ := breach
  obtain ⟨k, within, -⟩ := (sound.aligned alive).session
  rw [idle] at within
  have session : (trace m.log).session = k := congrArg Trace.session within.trace
  rw [session] at how
  have blind (m : Machine) (life : Life) (broken : m.Broken) :
      Broken { m with life := life } := broken
  cases toward : m.target t.command with
  | none => simp only [toward] at how
  | some s =>
      cases s with
      | Active_s => simp only [toward] at how
      | Failure_s => simp only [toward] at how
      | Idle_s =>
          simp only [toward] at how
          obtain ⟨opened, e, threw, fatal⟩ := how
          subst opened
          rw [turn_repeated alive (by rw [toward, idle]), idle]
          exact execute_keeps (reload_breaks threw fatal) (within.of_log rfl) blind
      | Standby_s =>
          simp only [toward] at how
          subst how
          exact turn_standby_breaks alive idle toward within
      | Undefined_s =>
          simp only [toward] at how
          obtain ⟨closed, closes⟩ := how
          subst closed
          apply Broken.of_prefix (m := m.leave .Undefined_s t) _
            (leave_log_turn alive toward (by simp [idle]))
          unfold leave
          rw [idle]
          exact execute_keeps (exit_breaks closes) ⟨within.of_log rfl, rfl, rfl⟩ blind
      | FatalError_s =>
          simp only [toward] at how
          obtain ⟨closed, closes⟩ := how
          subst closed
          exact turn_fatalError_breaks alive idle toward within closes

end Breaches

end Machine

open Machine in
/-- The session discipline holds in every state of a run exactly if no turn of it is one of
    the four breaches. -/
theorem session_disciplined_iff (turns : List Turn) :
    (∀ p, p <+: turns → Disciplined (after p).log) ↔
      ∀ p t, p ++ [t] <+: turns → ¬(after p).Breaches t := by
  refine after_good_iff (fun m => Disciplined m.log → m.Sound) (fun m => Disciplined m.log)
    Breaches (fun _ => boot_sound) disciplined_nil ?_ ?_ turns
  · intro m t inv fine
    have sound := inv (fine.of_prefix (turn_log m t))
    by_cases breach : m.Breaches t
    · exact absurd fine (turn_breaks sound breach)
    · exact turn_sound sound breach
  · intro m t inv fine
    have sound := inv fine
    constructor
    · intro after breach
      exact turn_breaks sound breach after
    · intro avoids
      exact (turn_sound sound avoids).disciplined

open Machine in
/-- A failed `ufe_init` is followed by `ufe_free_device_list`, a reload with a fatal error by a
    second `ufe_init`, and the recovery from a serious error at the start leads to Standby
    without a session. -/
theorem session_undisciplined :
    ¬Disciplined (after [.own { Answers.smooth [3] with init_status := -1 },
      .own (.smooth [3])]).log ∧
    ¬Disciplined (after [.own (.smooth [3]),
      .to .Idle_s ((Answers.smooth [3]).failing .loadBMConfig .FATAL)]).log ∧
    ¬Disciplined (after [.own ((Answers.smooth [3]).failing .loadBMConfig .SERIOUS),
      .own (.smooth [3]), .to .Idle_s (.smooth [3]), .to .Standby_s (.smooth [3])]).log := by
  refine ⟨fun fine => ?_, fun fine => ?_, fun fine => ?_⟩
  · have freed := fine.permits 5 (c := .ufe_free_device_list) (by decide +kernel)
    revert freed
    simp only [Trace.Permits]
    decide +kernel
  · have again := fine.permits 7 (c := .ufe_init 0) (by decide +kernel)
    revert again
    simp only [Trace.Permits]
    decide +kernel
  · have entered := fine.permits 6 (c := .enters .Standby_s) (by decide +kernel)
    revert entered
    simp only [Trace.Permits]
    decide +kernel

end BMDaq
