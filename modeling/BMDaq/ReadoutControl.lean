import BMDaq.HookFrames

/-! # Starting and stopping the readout

`unstopped` lists the devices that a log leaves reading out. The loop that stops them ends at
the first `stop()` that throws, so a device is left out exactly if a device before it throws.
-/

namespace BMDaq

open Block

/-- The effect of one call on the devices started since `Active_s` was entered and not stopped. -/
def noteReadout (started : List Nat) : Call → List Nat
  | .enters .Active_s => []
  | .start i => i :: started
  | .stop i => started.filter (· ≠ i)
  | _ => started

def unstopped (log : List Call) : List Nat := log.foldl noteReadout []

@[simp] theorem unstopped_snoc (log : List Call) (c : Call) :
    unstopped (log ++ [c]) = noteReadout (unstopped log) c := List.foldl_concat ..

theorem noteReadout_other {started : List Nat} {c : Call}
    (about : c.topic = .general ∨ c.topic = .session) : noteReadout started c = started := by
  cases c <;> simp_all [Call.topic, noteReadout]

/-- Entering a state leaves no device reading out if none was. -/
theorem noteReadout_enters (s : fsm_state_t) : noteReadout [] (.enters s) = [] := by
  cases s <;> rfl

def readoutFrame : Frame Exit Machine where
  Rel m m' := unstopped m'.log = unstopped m.log
  refl _ := rfl
  trans first second := second.trans first
  Exits _ := True

theorem readoutFrame_admits : Admits readoutFrame fun topic => topic = .session where
  exits _ _ _ := trivial
  returns := trivial
  log m c about := by
    show unstopped (m.log ++ [c]) = unstopped m.log
    rw [unstopped_snoc, noteReadout_other about]
  request _ _ _ := rfl
  load _ _ := rfl
  devices _ _ _ := rfl

theorem readoutFrame_staff : AdmitsStaff readoutFrame := fun _ _ => rfl

theorem readoutFrame_resize : AdmitsResize readoutFrame := fun _ _ => rfl

/-- After the start no hook changes the number of devices. -/
def devicesFrame : Frame Exit Machine where
  Rel m m' := m'.ctx.devs_.length = m.ctx.devs_.length
  refl _ := rfl
  trans first second := second.trans first
  Exits _ := True

theorem devicesFrame_admits : Admits devicesFrame fun _ => True where
  exits _ _ _ := trivial
  returns := trivial
  log _ _ _ := rfl
  request _ _ _ := rfl
  load _ _ := rfl
  devices _ _ same := same

/-! ## The two loops -/

section Loops

variable {env : Answers} {n : Nat}

theorem readout_kept {hook : Hook Unit} (moved : Within readoutFrame hook)
    {P : List Nat → Prop} :
    Meets (fun m => P (unstopped m.log)) hook (fun _ m => P (unstopped m.log))
      (fun _ m => P (unstopped m.log)) :=
  moved.stays fun _ _ same holds => same ▸ holds

/-- Only known devices are ever started. -/
theorem start_readout :
    Meets (fun m => (∀ i ∈ unstopped m.log, i < n) ∧ m.ctx.devs_.length = n)
      (BMDActive.whenEnteringStateDo env) (fun _ m => ∀ i ∈ unstopped m.log, i < n)
      (fun _ m => ∀ i ∈ unstopped m.log, i < n) := by
  have kept {hook : Hook Unit} (moved : Within readoutFrame hook) :
      Meets (fun m => ∀ i ∈ unstopped m.log, i < n) hook (fun _ m => ∀ i ∈ unstopped m.log, i < n)
        (fun _ m => ∀ i ∈ unstopped m.log, i < n) :=
    readout_kept moved (P := fun started => ∀ i ∈ started, i < n)
  apply Meets.bind (Q := fun _ m => ∀ i ∈ unstopped m.log, i < n)
  · apply Meets.attempt (R := fun _ m => ∀ i ∈ unstopped m.log, i < n)
    · apply eachDevice_meets (n := n) (I := fun _ m => ∀ i ∈ unstopped m.log, i < n)
      · exact fun m h => ⟨h.2, h.1⟩
      · intro i later inside
        have small : i < n := List.mem_range.mp (inside.subset List.mem_cons_self)
        have started (m : Machine) (below : ∀ j ∈ unstopped m.log, j < n) :
            ∀ j ∈ unstopped (m.log ++ [.start i]), j < n := by
          intro j member
          rw [unstopped_snoc] at member
          cases member with
          | head => exact small
          | tail _ member => exact below j member
        apply call_meets
        · exact fun _ => started
        · exact fun _ _ => started
    · intro x e _
      exact kept (bySeverity_within readoutFrame_admits (Within.pure ()) e)
    · exact fun _ _ _ h => h
  intro _
  apply kept
  exact call_within readoutFrame_admits.toLogs (.inl rfl)

/-- The loop stops every started device, if no `stop()` before its own throws. -/
theorem stop_readout {started : List Nat} (known : ∀ i ∈ started, i < n)
    (reached : ∀ i ∈ started, ∀ j < i, env.throws (.stop j) = none) :
    Meets (fun m => unstopped m.log = started ∧ m.ctx.devs_.length = n)
      (eachDevice fun i => call env (.stop i)) (fun _ m => unstopped m.log = [])
      (fun _ m => unstopped m.log = []) := by
  refine Meets.conseq (eachDevice_meets (n := n)
    (P := fun m => unstopped m.log = started ∧ m.ctx.devs_.length = n)
    (I := fun later m => ∀ i ∈ unstopped m.log, i ∈ started ∧ i ∈ later) ?_ ?_)
    (fun _ h => h) ?_ (fun _ _ h => h)
  · intro m h
    refine ⟨h.2, ?_⟩
    rw [h.1]
    exact fun i member => ⟨member, List.mem_range.mpr (known i member)⟩
  · intro i later inside
    have above : ∀ j ∈ later, i < j := by
      have sorted := (List.pairwise_lt_range (n := n)).sublist inside.sublist
      exact (List.pairwise_cons.mp sorted).1
    have remaining (m : Machine) (before : ∀ j ∈ unstopped m.log, j ∈ started ∧ j ∈ i :: later) :
        ∀ j ∈ unstopped (m.log ++ [.stop i]), j ∈ started ∧ j ∈ later := by
      intro j member
      rw [unstopped_snoc] at member
      have kept := List.mem_filter.mp member
      have old := before j kept.1
      refine ⟨old.1, ?_⟩
      cases old.2 with
      | head => simp at kept
      | tail _ member => exact member
    apply call_meets
    · exact fun _ => remaining
    · intro e threw m before
      -- a device that is still started comes later, so the call before it cannot have thrown
      rw [List.eq_nil_iff_forall_not_mem]
      intro j member
      have both := remaining m before j member
      rw [reached j both.1 i (above j both.2)] at threw
      cases threw
  · intro _ m before
    rw [List.eq_nil_iff_forall_not_mem]
    intro j member
    exact absurd (before j member).2 List.not_mem_nil

theorem leaveActive_readout {started : List Nat} (known : ∀ i ∈ started, i < n)
    (reached : env.throws .activeLeaving = none →
      ∀ i ∈ started, ∀ j < i, env.throws (.stop j) = none) :
    Meets (fun m => unstopped m.log = started ∧ m.ctx.devs_.length = n)
      (BMDActive.whenLeavingStateDo env) (fun _ m => unstopped m.log = [])
      (fun x m => x = .returned → unstopped m.log = []) := by
  have rest {hook : Hook Unit} (moved : Within readoutFrame hook) :
      Meets (fun m => unstopped m.log = []) hook (fun _ m => unstopped m.log = [])
        (fun x m => x = .returned → unstopped m.log = []) :=
    (readout_kept moved (P := fun started => started = [])).conseq (fun _ h => h)
      (fun _ _ h => h) fun _ _ h _ => h
  apply Meets.bind (Q := fun _ m => env.throws .activeLeaving = none ∧
    unstopped m.log = started ∧ m.ctx.devs_.length = n)
  · apply call_meets
    · intro quiet m h
      refine ⟨quiet, ?_, h.2⟩
      rw [unstopped_snoc, noteReadout_other (.inl rfl), h.1]
    · intro e _ m _ returned
      cases returned
  intro _
  apply Meets.given
  intro quiet
  apply Meets.bind (Q := fun _ m => unstopped m.log = [])
  · apply Meets.attempt (stop_readout known (reached quiet))
    · intro x e _
      exact rest (bySeverity_within readoutFrame_admits (Within.pure ()) e)
    · exact fun _ _ _ h _ => h
  intro _
  apply Meets.bind (Q := fun _ m => unstopped m.log = [])
  · apply Meets.bind
    · exact Meets.read (Q := fun _ m => unstopped m.log = []) fun _ h => h
    intro doc
    apply Meets.bind (Q := fun _ m => unstopped m.log = [])
    · cases (doc.get "VerboseLevel").bind (·.asInt) with
      | none => exact Meets.leave fun _ h _ => h
      | some level => exact Meets.pure fun _ h => h
    intro level
    exact Meets.pure fun _ h => h
  intro stats
  apply rest
  apply Within.whenever
  intro _
  apply Within.bind (Within.read _)
  intro workers
  exact Within.each fun w _ => call_within readoutFrame_admits.toLogs (.inl rfl)

end Loops

/-! ## Runs -/

namespace Machine

variable {m : Machine} {t : Turn} {s : fsm_state_t}

/-- A turn out of `Active_s` that misses a device: the loop is reached, and one device is to be
    stopped after another whose `stop()` throws. -/
def MissesStop (m : Machine) (t : Turn) : Prop :=
  m.life = .running ∧ m.state_ = .Active_s ∧ t.leaving.throws .activeLeaving = none ∧
    (∃ s, m.target t.command = some s ∧ s ≠ .Active_s) ∧
    ∃ i ∈ unstopped m.log, ∃ j < i, t.leaving.throws (.stop j) ≠ none

/-- Nothing reads out outside `Active_s`, and what reads out there is a known device. -/
structure Quiesced (m : Machine) : Prop where
  stopped : m.state_ ≠ .Active_s → unstopped m.log = []
  known : m.life = .running → m.state_ = .Active_s →
    ∀ i ∈ unstopped m.log, i < m.ctx.devs_.length

theorem boot_quiesced : boot.Quiesced := ⟨fun _ => rfl, fun _ active => nomatch active⟩

theorem same_readout (env : Answers) (s : fsm_state_t) :
    unstopped (m.execute (BMDaq.whenSameStateDo env s)).log = unstopped m.log ∧
      (m.execute (BMDaq.whenSameStateDo env s)).ctx.devs_.length = m.ctx.devs_.length := by
  rw [execute_log, execute_ctx]
  constructor
  · exact (whenSameStateDo_within readoutFrame_admits (fun _ => rfl) fun _ => trivial).rel m
  · exact (whenSameStateDo_within devicesFrame_admits (fun _ => trivial) fun _ => trivial).rel m

/-- After the leaving hook nothing reads out. -/
theorem leave_readout (quiesced : m.Quiesced) (alive : m.life = .running)
    (toward : m.target t.command = some s) (other : s ≠ m.state_) (reaches : ¬m.MissesStop t)
    (left : m.state_ ≠ .Active_s ∨ (m.leave s t).life = .running) :
    unstopped (m.leave s t).log = [] := by
  by_cases active : m.state_ = .Active_s
  · have survived : (m.leave s t).life = .running := by
      cases left with
      | inl away => exact absurd active away
      | inr survived => exact survived
    have reached : t.leaving.throws .activeLeaving = none →
        ∀ i ∈ unstopped m.log, ∀ j < i, t.leaving.throws (.stop j) = none := by
      intro quiet i member j before
      by_contra threw
      exact reaches ⟨alive, active, quiet, ⟨s, toward, active ▸ other⟩, i, member, j, before, threw⟩
    have met := leaveActive_readout (quiesced.known alive active) reached
    have hook : BMDaq.whenLeavingStateDo t.leaving m.state_ s =
        BMDActive.whenLeavingStateDo t.leaving := by
      rw [active]
      rfl
    unfold leave at survived ⊢
    rw [hook] at survived ⊢
    cases execute_meets (m := { m with next_ := none }) met ⟨rfl, rfl⟩ survived with
    | inl stopped => exact stopped
    | inr returned => exact returned rfl
  · have kept : unstopped (m.leave s t).log = unstopped m.log := by
      unfold leave
      rw [execute_log]
      exact (whenLeavingStateDo_within readoutFrame_admits s (fun _ => rfl)
        (fun here => absurd here active) fun _ => readoutFrame_staff).rel { m with next_ := none }
    rw [kept, quiesced.stopped active]

theorem enter_readout (stopped : unstopped m.log = []) (env : Answers) (old_state : fsm_state_t) :
    (s ≠ .Active_s →
      unstopped ((m.moveTo s).execute (BMDaq.whenEnteringStateDo env s old_state)).log = []) ∧
    (s = .Active_s →
      ∀ i ∈ unstopped ((m.moveTo s).execute (BMDaq.whenEnteringStateDo env s old_state)).log,
        i < ((m.moveTo s).execute (BMDaq.whenEnteringStateDo env s old_state)).ctx.devs_.length) := by
  have entered : unstopped (m.moveTo s).log = [] := by
    show unstopped (m.log ++ [.enters s]) = []
    rw [unstopped_snoc, stopped, noteReadout_enters]
  constructor
  · intro away
    rw [execute_log, ← entered]
    exact (whenEnteringStateDo_within readoutFrame_admits old_state (fun _ => rfl)
      (fun here => absurd here away) (fun _ => ⟨readoutFrame_staff, trivial⟩)
      fun _ => readoutFrame_resize).rel (m.moveTo s)
  · intro here
    subst here
    have same : ((m.moveTo .Active_s).execute
        (BMDaq.whenEnteringStateDo env .Active_s old_state)).ctx.devs_.length =
          (m.moveTo .Active_s).ctx.devs_.length := by
      rw [execute_ctx]
      exact (BMDActive.whenEnteringStateDo_within devicesFrame_admits trivial).rel
        (m.moveTo .Active_s)
    rw [same]
    refine execute_keeps start_readout ⟨?_, rfl⟩ fun _ _ below => below
    rw [entered]
    exact fun i member => absurd member List.not_mem_nil

theorem turn_quiesced (quiesced : m.Quiesced) (reaches : ¬m.MissesStop t) :
    (m.turn t).Quiesced := by
  have turned := turned m t
  generalize m.turn t = m' at turned
  cases turned with
  | ignored => exact quiesced
  | repeated alive toward =>
      have same := same_readout (m := { m with next_ := none }) t.entering m.state_
      have state := repeated_state_ t.entering m.state_ { m with next_ := none }
      constructor
      · intro away
        rw [same.1]
        exact quiesced.stopped (state ▸ away)
      · intro _ active
        rw [same.1, same.2]
        exact quiesced.known alive (state ▸ active)
  | @died s alive toward other dead =>
      constructor
      · intro away
        rw [leave_state_] at away
        exact leave_readout quiesced alive toward other reaches (.inl away)
      · exact fun survived => absurd survived dead
  | @changed s alive toward other survived =>
      have stopped := leave_readout quiesced alive toward other reaches (.inr survived)
      have entered := enter_readout (s := s) stopped t.entering m.state_
      have state := entered_state_ t.entering s m.state_ (m.leave s t)
      exact ⟨fun away => entered.1 (state ▸ away), fun _ active => entered.2 (state ▸ active)⟩

end Machine

open Machine in
/-- In a run whose turns all reach every started device, no device reads out once `Active_s`
    has been left. -/
theorem readout_stopped {turns : List Turn}
    (reaches : ∀ p t, p ++ [t] <+: turns → ¬(after p).MissesStop t) {p : List Turn}
    (inside : p <+: turns) (left : (after p).state_ ≠ .Active_s) : unstopped (after p).log = [] :=
  (after_invariant Quiesced MissesStop boot_quiesced (fun _ _ => turn_quiesced) reaches
    inside).stopped left

/-- A device does not start, and another does not stop on the way to Failure. -/
def sampleStops : List Turn :=
  [.own (.smooth [3, 5]), .to .Standby_s (.smooth [3, 5]),
    .to .Active_s ((Answers.smooth [3, 5]).failing (.start 1) .SERIOUS)]

/-- It is the last one that does not stop. -/
def sampleLastStop : List Turn :=
  sampleStops ++ [.own ((Answers.smooth [3, 5]).failing (.stop 1) .SERIOUS)]

theorem readout_stopped_last_throws :
    (Machine.after sampleLastStop).state_ = .Failure_s ∧
      unstopped (Machine.after sampleLastStop).log = [] := by
  have failed : (Machine.after sampleLastStop).state_ = .Failure_s := by decide +kernel
  refine ⟨failed, readout_stopped ?_ List.prefix_rfl (by rw [failed]; decide)⟩
  intro p t inside misses
  obtain ⟨-, -, -, -, i, reads, j, before, threw⟩ := misses
  have two : ∀ p ∈ sampleLastStop.inits, ∀ i ∈ unstopped (Machine.after p).log, i < 2 := by
    decide +kernel
  have known := two p ((List.mem_inits p _).mpr ((List.prefix_append p [t]).trans inside)) i reads
  have zero : j = 0 := by omega
  subst zero
  have member := inside.subset (List.mem_append_right p List.mem_cons_self)
  simp only [sampleLastStop, sampleStops, List.cons_append, List.nil_append, List.mem_cons,
    List.not_mem_nil, or_false] at member
  obtain rfl | rfl | rfl | rfl := member <;> exact threw rfl

/-- The first device cannot be stopped, so the second one is left reading out. -/
theorem device_left_reading :
    (Machine.after [.own (.smooth [3, 5]), .to .Standby_s (.smooth [3, 5]),
      .to .Active_s (.smooth [3, 5]),
      .to .Standby_s ((Answers.smooth [3, 5]).failing (.stop 0) .SERIOUS)]).state_ = .Standby_s ∧
    unstopped (Machine.after [.own (.smooth [3, 5]), .to .Standby_s (.smooth [3, 5]),
      .to .Active_s (.smooth [3, 5]),
      .to .Standby_s ((Answers.smooth [3, 5]).failing (.stop 0) .SERIOUS)]).log = [1] := by
  constructor <;> decide +kernel

end BMDaq
