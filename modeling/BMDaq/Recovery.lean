import BMDaq.BoardSetup
import BMDaq.ReadoutControl
import BMDaq.SessionDiscipline

/-! # Recovery

Where nothing throws, the hook that turns the system on comes to its end exactly if everything
it reads from the configuration is there. It starts with new workers each time. So whatever has
happened to the machine, once it rests in Failure it can be turned off and on again.
-/

namespace BMDaq

open Block BMDStandby

/-- No call throws. -/
def Answers.Working (env : Answers) : Prop := ∀ c, env.throws c = none

/-- What is read when the system is turned on: the settings, and the level of the statistics. -/
def UFEContext.Readable (ctx : UFEContext) : Prop :=
  prescribed ctx ≠ none ∧ (ctx.bm_config_doc_.get "VerboseLevel").bind (·.asInt) ≠ none

/-- What the hook reads stays as it is, and so does a machine at rest. The only exit is through
    an invalid pointer. -/
def readingFrame : Frame Exit Machine where
  Rel m m' :=
    m'.ctx.devs_.map UFEDevice.device_descr_ = m.ctx.devs_.map UFEDevice.device_descr_ ∧
      m'.ctx.bm_config_doc_ = m.ctx.bm_config_doc_ ∧ (m.AtRest → m'.AtRest)
  refl _ := ⟨rfl, rfl, id⟩
  trans first second := ⟨second.1.trans first.1, second.2.1.trans first.2.1,
    second.2.2 ∘ first.2.2⟩
  Exits x := x = .undefined

section Silent

variable {env : Answers}

theorem reading_staff (f : Machine → Staff) :
    Within readingFrame (update fun m => { m with staff := f m } : Hook Unit) :=
  Within.update fun _ => ⟨rfl, rfl, id⟩

variable (working : env.Working)
include working

theorem call_reading (c : Call) : Within readingFrame (call env c) := by
  apply Within.bind
  · exact Within.update fun _ => ⟨rfl, rfl, id⟩
  intro _
  rw [working c]
  exact Within.pure ()

theorem recorder_reading (c : Call) : Within readingFrame (recorder env c) := by
  apply Within.bind (Within.read _)
  intro valid
  apply Within.bind (Within.whenever fun _ => Within.leave rfl)
  intro _
  exact call_reading working c

theorem initDevice_reading (i entry : Nat) : Within readingFrame (initDevice env i entry) := by
  apply Within.bind (call_reading working _)
  intro _
  exact Within.update fun _ => ⟨map_modify_boards .., rfl, id⟩

theorem addWorker_reading (kind : WorkerKind) (device : Option Nat) :
    Within readingFrame (addWorker env kind device) := by
  apply Within.bind (call_reading working _)
  intro _
  apply Within.bind (Within.read _)
  intro id
  apply Within.bind (reading_staff _)
  intro _
  exact Within.pure id

theorem addNode_reading (fifo : Fifo) : Within readingFrame (addNode env fifo) := by
  apply Within.bind (call_reading working _)
  intro _
  exact reading_staff _

theorem hireReadout_reading (recycled raw : Fifo) (i : Nat) :
    Within readingFrame (hireReadout env recycled raw i) := by
  apply Within.bind (addWorker_reading working _ _)
  intro id
  exact reading_staff _

theorem prepare_reading : Within readingFrame (do
    each (List.range maxSize) (provide env)
    recorder env .getDataSize
    call env .standbyEntering) := by
  apply Within.bind
  · apply Within.each
    intro xDc _
    apply Within.bind (Within.read _)
    intro fifo
    apply Within.bind (Within.whenever fun _ => Within.leave rfl)
    intro _
    exact call_reading working _
  intro _
  apply Within.bind (recorder_reading working _)
  intro _
  exact call_reading working _

end Silent

/-! ## Reading the configuration -/

/-- A machine at rest whose descriptions and document are those of `ctx`. -/
structure ReadsFrom (ctx : UFEContext) (m : Machine) : Prop where
  descriptions : m.ctx.devs_.map UFEDevice.device_descr_ = ctx.devs_.map UFEDevice.device_descr_
  document : m.ctx.bm_config_doc_ = ctx.bm_config_doc_
  rests : m.AtRest

/-- How a block is left that needs `c` to come to its end. -/
def Fails (c : Prop) (x : Exit) : Prop := x.UFEError? = none ∧ (x = .undefined ∨ ¬c)

/-- The block comes to its end exactly if `c` holds, unless it meets an invalid pointer. -/
def EndsIf {α : Type} (ctx : UFEContext) (p : Hook α) (c : Prop) : Prop :=
  Meets (ReadsFrom ctx) p (fun _ m => c ∧ ReadsFrom ctx m) (fun x _ => Fails c x)

section EndsIf

variable {ctx : UFEContext} {α β γ : Type} {p : Hook α} {c d : Prop}

theorem EndsIf.bind {next : α → Hook β} (first : EndsIf ctx p c)
    (rest : ∀ a, EndsIf ctx (next a) d) : EndsIf ctx (p >>= next) (c ∧ d) := by
  apply Meets.bind (Q := fun _ m => c ∧ ReadsFrom ctx m)
  · apply first.conseq (fun _ h => h) (fun _ _ h => h)
    exact fun x _ fails => ⟨fails.1, fails.2.imp_right fun not both => not both.1⟩
  intro a
  apply Meets.given
  intro holds
  apply (rest a).conseq (fun _ h => h)
  · exact fun _ _ ends => ⟨⟨holds, ends.1⟩, ends.2⟩
  · exact fun x _ fails => ⟨fails.1, fails.2.imp_right fun not both => not both.2⟩

theorem EndsIf.congr (ends : EndsIf ctx p c) (same : c ↔ d) : EndsIf ctx p d := by
  rwa [← propext same]

theorem EndsIf.silent (inside : Within readingFrame p) : EndsIf ctx p True := by
  have kept := inside.keeps (P := ReadsFrom ctx) fun m m' moved reading =>
    ⟨moved.1.trans reading.descriptions, moved.2.1.trans reading.document,
      moved.2.2 reading.rests⟩
  apply kept.conseq (fun _ h => h) (fun _ _ reading => ⟨trivial, reading⟩)
  rintro x m ⟨-, rfl⟩
  exact ⟨rfl, .inl rfl⟩

theorem EndsIf.after {next : α → Hook β} (inside : Within readingFrame p)
    (rest : ∀ a, EndsIf ctx (next a) d) : EndsIf ctx (p >>= next) d :=
  ((EndsIf.silent inside).bind rest).congr (and_iff_right trivial)

theorem EndsIf.read {f : Machine → α} {next : α → Hook β} (known : α → Prop)
    (reads : ∀ m, ReadsFrom ctx m → known (f m)) (rest : ∀ a, known a → EndsIf ctx (next a) d) :
    EndsIf ctx (Block.read f >>= next) d := by
  apply Meets.bind (Q := fun a m => known a ∧ ReadsFrom ctx m)
  · exact Meets.read fun m reading => ⟨reads m reading, reading⟩
  intro a
  exact Meets.given fun fact => rest a fact

theorem EndsIf.checked {v : Option α} {next : α → Hook β} {w : α → Option γ}
    (rest : ∀ a, v = some a → EndsIf ctx (next a) (w a ≠ none)) :
    EndsIf ctx (BMDaq.checked v >>= next) (v.bind w ≠ none) := by
  cases v with
  | none => exact fun m _ => ⟨rfl, .inr fun some => some rfl⟩
  | some a => exact rest a rfl

theorem EndsIf.each {body : β → Hook Unit} {f : β → Option (List γ)} {xs : List β}
    (every : ∀ x ∈ xs, EndsIf ctx (body x) (f x ≠ none)) :
    EndsIf ctx (Block.each xs body) (collect f xs ≠ none) := by
  induction xs with
  | nil => exact (EndsIf.silent (Within.pure ())).congr (iff_of_true trivial nofun)
  | cons x rest ih =>
      have both := (every x List.mem_cons_self).bind fun _ =>
        ih fun y later => every y (List.mem_cons_of_mem x later)
      exact both.congr joined_ne_none.symm

end EndsIf

section TurningOn

variable {ctx : UFEContext} {env : Answers} (working : env.Working)
include working

theorem configureBoard_endsIf (i : Nat) (board : Json.Value) (entry : Nat) :
    EndsIf ctx (configureBoard env i board entry) (boardSettings i board entry ≠ none) := by
  apply EndsIf.after (Within.whenever fun _ => initDevice_reading working i entry)
  intro _
  apply EndsIf.checked
  intro board_id _
  apply EndsIf.checked
  intro file _
  have calls (c : Call) {some : List Call} : EndsIf ctx (call env c) (.some some ≠ none) :=
    (EndsIf.silent (call_reading working c)).congr (iff_of_true trivial nofun)
  cases file with
  | some file => exact EndsIf.after (call_reading working _) fun _ => calls _
  | none =>
      apply EndsIf.checked
      intro file _
      cases file with
      | some file => exact calls _
      | none => exact fun m _ => ⟨rfl, .inr fun some => some rfl⟩

theorem configureDevice_endsIf (i : Nat) :
    EndsIf ctx (configureDevice env i)
      (deviceSettings i (ctx.devs_.getD i default).device_descr_ ≠ none) := by
  apply EndsIf.read fun dev =>
    dev.device_descr_ = (ctx.devs_.getD i default).device_descr_
  · intro m reads
    rw [descr_getD, reads.descriptions, ← descr_getD]
  intro dev same
  rw [← same]
  apply EndsIf.checked
  intro boards _
  exact EndsIf.each fun board _ => configureBoard_endsIf working i board.1 board.2

theorem configure_endsIf :
    EndsIf ctx (eachDevice (configureDevice env))
      (collect (fun i => deviceSettings i (ctx.devs_.getD i default).device_descr_)
        (List.range ctx.devs_.length) ≠ none) := by
  apply EndsIf.read (· = ctx.devs_.length)
  · intro m reads
    simpa using congrArg List.length reads.descriptions
  intro n same
  subst same
  exact EndsIf.each fun i _ => configureDevice_endsIf working i

theorem instruct_endsIf :
    EndsIf ctx (instruct env) (recorderSettings ctx.bm_config_doc_ ≠ none) := by
  apply EndsIf.read (· = ctx.bm_config_doc_) fun m reads => reads.document
  intro doc same
  subst same
  apply EndsIf.checked
  intro path _
  apply EndsIf.after (recorder_reading working _)
  intro _
  apply EndsIf.checked
  intro run _
  apply EndsIf.after (recorder_reading working _)
  intro _
  apply EndsIf.checked
  intro limit _
  exact (EndsIf.silent (recorder_reading working _)).congr (iff_of_true trivial nofun)

omit working in
theorem verbose_endsIf :
    EndsIf ctx verbose ((ctx.bm_config_doc_.get "VerboseLevel").bind (·.asInt) ≠ none) := by
  apply EndsIf.read (· = ctx.bm_config_doc_) fun m reads => reads.document
  intro doc same
  subst same
  have level : EndsIf ctx
      (do
        let level ← checked ((ctx.bm_config_doc_.get "VerboseLevel").bind (·.asInt))
        pure (decide (1 < level)))
      (((ctx.bm_config_doc_.get "VerboseLevel").bind (·.asInt)).bind some ≠ none) := by
    apply EndsIf.checked
    intro level _
    exact (EndsIf.silent (Within.pure _)).congr (iff_of_true trivial nofun)
  rwa [Option.bind_fun_some] at level

theorem hire_endsIf :
    EndsIf ctx (hire env) (recorderSettings ctx.bm_config_doc_ ≠ none ∧
      (ctx.bm_config_doc_.get "VerboseLevel").bind (·.asInt) ≠ none) := by
  apply EndsIf.after (addWorker_reading working _ _)
  intro scanner
  apply EndsIf.after (addWorker_reading working _ _)
  intro recorder_ptr
  apply EndsIf.after (reading_staff _)
  intro _
  apply EndsIf.bind (instruct_endsIf working)
  intro _
  apply EndsIf.after (reading_staff _)
  intro _
  apply EndsIf.after (Within.each fun _ _ => call_reading working _)
  intro _
  apply EndsIf.after (Within.each fun _ _ => addNode_reading working _)
  intro _
  apply EndsIf.after (eachDevice_within fun _ => hireReadout_reading working _ _ _)
  intro _
  apply EndsIf.after (reading_staff _)
  intro _
  apply (EndsIf.bind verbose_endsIf fun on =>
    EndsIf.silent (call_reading working (.enableStats on))).congr
  exact and_iff_left trivial

/-- Turning on comes to its end exactly if everything it reads is there. -/
theorem turnOn_endsIf :
    EndsIf ctx (BMDStandby.whenEnteringStateDo env .Idle_s) ctx.Readable := by
  have body : EndsIf ctx (do
      whenever (fsm_state_t.Idle_s = .Idle_s) do
        eachDevice (configureDevice env)
        hire env
      each (List.range maxSize) (provide env)
      recorder env .getDataSize
      call env .standbyEntering) ctx.Readable := by
    rw [whenever, if_pos rfl]
    apply (EndsIf.bind (EndsIf.bind (configure_endsIf working) fun _ => hire_endsIf working)
      fun _ => EndsIf.silent (prepare_reading working)).congr
    rw [and_iff_left trivial, UFEContext.Readable, prescribed, joined_ne_none, and_assoc]
  -- no exception reaches the handler
  apply Meets.attempt body
  · intro x e caught m fails
    rw [fails.1] at caught
    cases caught
  · exact fun _ _ _ fails => fails

end TurningOn

/-! ## Coming to rest -/

/-- On the way to a failure state, only `Active_s` has something to do that may ask for another
    change. -/
theorem leaving_unasked {env : Answers} {s new_state : fsm_state_t} (away : s ≠ .Active_s)
    (failing : new_state = .Failure_s ∨ new_state = .FatalError_s) :
    Within requestFrame (whenLeavingStateDo env s new_state) := by
  cases s with
  | Idle_s =>
      apply Within.whenever
      rintro rfl
      simp at failing
  | Standby_s =>
      apply Within.whenever
      rintro rfl
      simp at failing
  | Active_s => exact absurd rfl away
  | Failure_s => exact dismissAll_within requestFrame_logs requestFrame_staff
  | Undefined_s => exact Within.pure ()
  | FatalError_s => exact Within.pure ()

theorem entering_unasked {env : Answers} {s : fsm_state_t} (old_state : fsm_state_t)
    (failing : s = .Failure_s ∨ s = .FatalError_s) :
    Within requestFrame (whenEnteringStateDo env s old_state) := by
  cases failing with
  | inl failure =>
      rw [failure]
      exact Within.pure ()
  | inr fatal =>
      rw [fatal]
      apply Within.bind (closeDevices_within requestFrame_logs)
      intro _
      apply Within.bind
      · exact note_within requestFrame_logs (.inr trivial)
      intro _
      exact closeSession_within requestFrame_logs trivial

namespace Machine

variable {m : Machine} {t : Turn}

theorem own_target (own : t.command = none) : m.target t.command = m.next_ := by
  rw [own]
  cases pending : m.next_ <;> simp [target, pending]

theorem turn_dead (dead : m.life ≠ .running) : m.turn t = m := by
  unfold turn
  split
  · exact absurd ‹_› dead
  · rfl

theorem turn_died {s : fsm_state_t} (alive : m.life = .running)
    (toward : m.target t.command = some s) (other : s ≠ m.state_)
    (dead : (m.leave s t).life ≠ .running) : m.turn t = m.leave s t := by
  unfold turn
  rw [alive, toward]
  simp only [if_neg other, if_neg dead]

/-- Where the machine is after a turn that the program survives. -/
theorem turn_state_ {s : fsm_state_t} (toward : m.target t.command = some s)
    (alive : m.life = .running) (survived : (m.turn t).life = .running) :
    (m.turn t).state_ = s := by
  by_cases same : s = m.state_
  · subst same
    rw [turn_repeated alive toward, repeated_state_]
  · by_cases left : (m.leave s t).life = .running
    · rw [turn_changed alive toward same left, entered_state_]
    · rw [turn_died alive toward same left] at survived
      exact absurd survived left

/-- A failure state is taken up without a further request, but from Active. -/
theorem turn_failing {s : fsm_state_t} (toward : m.target t.command = some s)
    (failing : s = .Failure_s ∨ s = .FatalError_s) (away : m.state_ ≠ .Active_s)
    (alive : m.life = .running) : (m.turn t).next_ = none := by
  have left : (m.leave s t).next_ = none := by
    rw [leave, execute_next_]
    exact (leaving_unasked away failing).rel { m with next_ := none }
  by_cases same : s = m.state_
  · subst same
    rw [turn_repeated alive toward, execute_next_]
    cases failing with
    | inl failure => rw [failure]; rfl
    | inr fatal => rw [fatal]; rfl
  · by_cases survived : (m.leave s t).life = .running
    · rw [turn_changed alive toward same survived, execute_next_]
      exact ((entering_unasked _ failing).rel ((m.leave s t).moveTo s)).trans left
    · rw [turn_died alive toward same survived]
      exact left

theorem own_turn_rests (own : t.command = none) (calm : m.next_ = none) : m.turn t = m := by
  have nowhere : m.target t.command = none := (own_target own).trans calm
  unfold turn
  rw [nowhere]
  cases m.life <;> rfl

/-- After a turn of its own the machine rests, or it is in a state that is left quietly. -/
theorem own_turn_away (pending : m.Pending) (own : t.command = none) (alive : m.life = .running)
    (survived : (m.turn t).life = .running) :
    (m.turn t).next_ = none ∨ (m.turn t).state_ ≠ .Active_s ∧ (m.turn t).state_ ≠ .Undefined_s := by
  have toward := own_target (m := m) own
  obtain ⟨start, _⟩ | calm | failure | fatal := pending
  · rw [start] at toward
    simp [turn_state_ toward alive survived]
  · exact .inl ((congrArg Machine.next_ (own_turn_rests own calm)).trans calm)
  · rw [failure] at toward
    simp [turn_state_ toward alive survived]
  · rw [fatal] at toward
    simp [turn_state_ toward alive survived]

theorem two_turns_rest (pending : m.Pending) (a b : Turn) (own : a.command = none ∧ b.command = none)
    (survived : ((m.turn a).turn b).life = .running) : ((m.turn a).turn b).next_ = none := by
  have living : (m.turn a).life = .running := by
    by_contra dead
    rw [turn_dead dead] at survived
    exact dead survived
  have alive : m.life = .running := by
    by_contra dead
    rw [turn_dead dead] at living
    exact dead living
  have rests (calm : (m.turn a).next_ = none) : ((m.turn a).turn b).next_ = none := by
    rwa [own_turn_rests own.2 calm]
  cases own_turn_away pending own.1 alive living with
  | inl calm => exact rests calm
  | inr away =>
      have toward := own_target (m := m.turn a) own.2
      obtain ⟨_, start, _⟩ | calm | failure | fatal := turn_pending a pending
      · exact absurd start away.2
      · exact rests calm
      · exact turn_failing (toward.trans failure) (.inl rfl) away.1 living
      · exact turn_failing (toward.trans fatal) (.inr rfl) away.1 living

theorem after_pending (turns : List Turn) : (after turns).Pending := (after_laid turns).pending

end Machine

open Machine in
/-- Whatever is thrown, the machine left to itself is at rest after two turns, if the program
    goes on at all. -/
theorem comes_to_rest (turns : List Turn) (a b : Turn) (own : a.command = none ∧ b.command = none)
    (survived : (after (turns ++ [a, b])).life = .running) : (after (turns ++ [a, b])).AtRest := by
  have whole : after (turns ++ [a, b]) = ((after turns).turn a).turn b := by
    rw [after, List.foldl_append]
    rfl
  rw [whole] at survived ⊢
  exact ⟨survived, two_turns_rest (after_pending turns) a b own survived⟩

/-- One turn is not enough. -/
example : (Machine.after (sampleStops ++
    [.own ((Answers.smooth [3, 5]).failing (.stop 0) .FATAL)])).next_ = some .FatalError_s := by
  decide +kernel

open Machine in
theorem comes_to_rest_stops :
    (after (sampleStops ++ [.own ((Answers.smooth [3, 5]).failing (.stop 0) .FATAL),
      .own (.smooth [3, 5])])).AtRest :=
  comes_to_rest sampleStops _ _ ⟨rfl, rfl⟩ (by decide +kernel)

/-! ## Turning off and on -/

namespace Machine

variable {m : Machine} {t : Turn}

theorem AtRest.target {s : fsm_state_t} (rests : m.AtRest) (command : t.command = some s)
    (may : s = m.state_ ∨ allowed m.state_ s = true) : m.target t.command = some s := by
  simp [Machine.target, rests.2, command, may]

theorem dismissAll_run {env : Answers} (working : env.Working) (m : Machine) :
    dismissAll env m = .on () { m with
      staff := { m.staff with workers := [], nodes := [] }
      log := m.log ++ [.dismissWorkers] ++ [.dismissNodes] } := by
  simp only [dismissAll, call, bind_run, note, working _, update]
  rfl

/-- Turning off: nothing is left of the team. -/
theorem turn_off (rests : m.AtRest) (off : m.state_ = .Failure_s ∨ m.state_ = .Standby_s)
    (command : t.command = some .Idle_s) (working : t.leaving.Working) :
    (m.turn t).AtRest ∧ (m.turn t).state_ = .Idle_s ∧ (m.turn t).ctx = m.ctx := by
  have may : allowed m.state_ .Idle_s = true := by
    cases off with
    | inl failure => rw [failure]; rfl
    | inr standby => rw [standby]; rfl
  have away : .Idle_s ≠ m.state_ := by
    rintro idle
    rw [← idle] at off
    simp at off
  have left : m.leave .Idle_s t = { m with
      next_ := none
      staff := { m.staff with workers := [], nodes := [] }
      log := m.log ++ [.dismissWorkers] ++ [.dismissNodes] } := by
    rw [leave, off_hook (off.imp_right fun standby => ⟨standby, rfl⟩), execute,
      dismissAll_run working]
  have still : BMDaq.whenEnteringStateDo t.entering .Idle_s m.state_ = pure () := by
    apply if_neg
    intro undefined
    rw [undefined] at off
    simp at off
  rw [turn_changed rests.1 (rests.target command (.inr may)) away (by rw [left]; exact rests.1),
    still, left]
  exact ⟨⟨rests.1, rfl⟩, rfl, rfl⟩

theorem firstThrow_working {env : Answers} (working : env.Working) (plan : List (Option Call)) :
    firstThrow env plan = none := by
  induction plan with
  | nil => rfl
  | cons step rest ih =>
      cases step with
      | none => rfl
      | some c =>
          rw [firstThrow, working c]
          exact ih

/-- All workers, for as many devices as there were. -/
def Restaffed (m m' : Machine) : Prop :=
  m'.FullyStaffed ∧ m'.ctx.devs_.length = m.ctx.devs_.length

/-- The hook that turns the system on, where nothing throws. -/
theorem execute_turnOn {env : Answers} (working : env.Working) (rests : m.AtRest)
    (vacant : m.staff.workers = []) :
    let m' := m.execute (BMDStandby.whenEnteringStateDo env .Idle_s)
    (m'.AtRest ↔ m.ctx.Readable) ∧ (m'.AtRest → m.Restaffed m') := by
  have staffed : Meets
      (fun m' => Given (m.ctx.devs_.map UFEDevice.device_descr_) m.ctx.bm_config_doc_ m.staff
        m'.ctx m'.staff)
      (BMDStandby.whenEnteringStateDo env .Idle_s) (fun _ m' => m'.FullyStaffed)
      (fun x m' => x ≠ .undefined ∧ (x = .returned → m'.next_ ≠ none)) := by
    apply turnOn_staffed vacant
    intro e threw
    rw [firstThrow_working working] at threw
    cases threw
  have ends : EndsIf m.ctx (BMDStandby.whenEnteringStateDo env .Idle_s) m.ctx.Readable :=
    turnOn_endsIf working
  apply execute_ended (T := fun m' => (m'.AtRest ↔ m.ctx.Readable) ∧ (m'.AtRest → m.Restaffed m'))
    ((ends.and staffed).conseq (fun _ h => h) _ _) ⟨⟨rfl, rfl, rests⟩, rfl, rfl, rfl⟩
  · rintro _ m' ⟨⟨readable, reads⟩, complete⟩
    have devices : m'.ctx.devs_.length = m.ctx.devs_.length := by
      simpa using congrArg List.length reads.descriptions
    exact ⟨iff_of_true reads.rests readable, fun _ => ⟨complete, devices⟩⟩
  · rintro x m' ⟨⟨silent, unreadable⟩, defined, requests⟩
    have not := unreadable.resolve_left defined
    have restless : ¬(x.ended m').AtRest := by
      rintro ⟨alive, calm⟩
      cases x with
      | returned => exact requests rfl calm
      | threw e => cases alive
      | escaped => cases alive
      | undefined => cases alive
    exact ⟨iff_of_false restless not, fun rest => absurd rest restless⟩

theorem turn_on (rests : m.AtRest) (idle : m.state_ = .Idle_s) (vacant : m.staff.workers = [])
    (command : t.command = some .Standby_s) (working : t.entering.Working) :
    (m.turn t).state_ = .Standby_s ∧ ((m.turn t).AtRest ↔ m.ctx.Readable) ∧
      ((m.turn t).AtRest → m.Restaffed (m.turn t)) := by
  have away : .Standby_s ≠ m.state_ := by
    rw [idle]
    simp
  have may : allowed m.state_ .Standby_s = true := by
    rw [idle]
    rfl
  have left : m.leave .Standby_s t = { m with next_ := none } := leave_idle idle (by simp) t
  have survived : (m.leave .Standby_s t).life = .running := by
    rw [left]
    exact rests.1
  rw [turn_changed rests.1 (rests.target command (.inr may)) away survived]
  refine ⟨entered_state_ .., ?_⟩
  rw [left, idle]
  exact execute_turnOn (m := { m with next_ := none }.moveTo .Standby_s) working ⟨rests.1, rfl⟩ vacant

/-- The two commands, one after the other. -/
theorem off_on {turns : List Turn} {off on : Turn} (rests : (after turns).AtRest)
    (stuck : (after turns).state_ = .Failure_s ∨ (after turns).state_ = .Standby_s)
    (commands : off.command = some .Idle_s ∧ on.command = some .Standby_s)
    (working : off.leaving.Working ∧ on.entering.Working) :
    (after (turns ++ [off, on])).state_ = .Standby_s ∧
      ((after (turns ++ [off, on])).AtRest ↔ (after turns).ctx.Readable) ∧
      ((after (turns ++ [off, on])).AtRest →
        (after turns).Restaffed (after (turns ++ [off, on]))) := by
  have idle := turn_off rests stuck commands.1 working.1
  have vacant : ((after turns).turn off).staff.workers = [] :=
    (turn_laid (after_laid turns) off).vacant idle.1.1 (.inl idle.2.1)
  have back := turn_on idle.1 idle.2.1 vacant commands.2 working.2
  have whole : after (turns ++ [off, on]) = ((after turns).turn off).turn on := by
    rw [after, List.foldl_append]
    rfl
  rw [whole, Restaffed, ← idle.2.2]
  exact back

theorem FullyStaffed.readsOut (complete : m.FullyStaffed) (devices : m.ctx.devs_ ≠ []) :
    m.ReadsOut := by
  have member : (WorkerKind.BMDReadoutWorker, some 0) ∈ m.staff.workers.map Worker.position := by
    rw [complete.workers]
    simpa [team, List.length_pos_iff] using devices
  obtain ⟨w, hired, position⟩ := List.mem_map.mp member
  exact ⟨w, hired, congrArg Prod.fst position⟩

end Machine

instance (ctx : UFEContext) : Decidable ctx.Readable :=
  inferInstanceAs (Decidable (prescribed ctx ≠ none ∧
    (ctx.bm_config_doc_.get "VerboseLevel").bind (·.asInt) ≠ none))

end BMDaq
