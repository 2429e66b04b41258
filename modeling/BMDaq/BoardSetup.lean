import BMDaq.Lib.Output
import BMDaq.Wiring

/-! # Setting up the boards

When the system is turned on, the boards are configured one after the other and the recorder
gets its instructions, between calls that may throw. `prescribed` says what there is to set,
according to the descriptions of the devices and the document. A readout worker is hired only
after all of it, so whatever has failed and however the machine has been switched, nothing is
read out before the last settings in the log are the prescribed ones.
-/

namespace BMDaq

open Block

/-! ## What is to be set -/

/-- A call that sets up a board or the recorder. -/
def Call.sets : Call → Bool
  | .configFromBinary .. | .setDirectParams .. | .configFromJson .. => true
  | .setDataPath _ | .setRunNum _ | .seMaxFileSize _ => true
  | _ => false

def settings (log : List Call) : List Call := log.filter Call.sets

namespace BMDStandby

/-- The calls for one entry of `Boards`; a board without a configuration file has none. -/
def boardSettings (i : Nat) (board : Json.Value) (entry : Nat) : Option (List Call) := do
  let board_id ← (board.get "Id").bind (·.asInt)
  match ← configurationFile board "ConfigurationBinary" with
  | some file =>
      some [.configFromBinary i entry board_id ("/conf/" ++ file),
        .setDirectParams i entry board_id 0x8280]
  | none =>
      match ← configurationFile board "ConfigurationJosn" with
      | some file => some [.configFromJson i entry board_id ("/conf/" ++ file)]
      | none => none

def deviceSettings (i : Nat) (device_descr_ : Json.Value) : Option (List Call) := do
  let boards ← device_descr_.get "Boards"
  collect (fun board => boardSettings i board.1 board.2) boards.elements.zipIdx

def recorderSettings (doc : Json.Value) : Option (List Call) := do
  let path ← (doc.get "DataPath").bind (·.asString)
  let run ← (doc.get "RunNumber").bind (·.asInt)
  let limit ← ((doc.get "UsbParam").bind (·.get "FileLimit")).bind (·.asInt)
  some [.setDataPath path, .setRunNum run, .seMaxFileSize limit]

/-- All settings, in the order in which they are made. -/
def prescribed (ctx : UFEContext) : Option (List Call) :=
  joined
    (collect (fun i => deviceSettings i (ctx.devs_.getD i default).device_descr_)
      (List.range ctx.devs_.length))
    (recorderSettings ctx.bm_config_doc_)

end BMDStandby

open BMDStandby

/-- A readout worker has been hired. -/
def Machine.ReadsOut (m : Machine) : Prop := ∃ w ∈ m.staff.workers, w.kind = .BMDReadoutWorker

/-- The last settings made are the prescribed ones. -/
def Machine.SetUp (m : Machine) : Prop :=
  ∃ calls, prescribed m.ctx = some calls ∧ calls <:+ settings m.log

/-- Nobody reads out before the settings are made. `D` is a further condition on the context. -/
structure Machine.Configured (D : UFEContext → Prop) (m : Machine) : Prop where
  setUp : m.ReadsOut → m.SetUp
  context : D m.ctx

@[simp] theorem settings_append (log log' : List Call) :
    settings (log ++ log') = settings log ++ settings log' := List.filter_append ..

theorem settings_quiet {c : Call} (quiet : c.sets = false) : settings [c] = [] := by
  simp [settings, quiet]

theorem settings_loud {c : Call} (loud : c.sets = true) : settings [c] = [c] := by
  simp [settings, loud]

/-! ## Hooks that set nothing -/

/-- The frame allows the calls that set nothing, requests and every exit. -/
structure Passive (F : Frame Exit Machine) : Prop where
  exits : ∀ x, F.Exits x
  log : ∀ m c, c.sets = false → F.Rel m { m with log := m.log ++ [c] }
  request : ∀ m s, F.Rel m { m with next_ := some s }

section Passive

variable {F : Frame Exit Machine} {env : Answers}

namespace Passive

variable (passive : Passive F)
include passive

theorem call {c : Call} (quiet : c.sets = false) : Within F (call env c) := by
  apply Within.bind (Within.update fun m => passive.log m c quiet)
  intro _
  cases env.throws c with
  | none => exact Within.pure ()
  | some e => exact Within.leave (passive.exits _)

theorem checked {α : Type} (v : Option α) : Within F (checked v) := by
  cases v with
  | none => exact Within.leave (passive.exits _)
  | some a => exact Within.pure a

theorem verbose : Within F verbose := by
  apply Within.bind (Within.read _)
  intro doc
  apply Within.bind (passive.checked _)
  intro level
  exact Within.pure _

theorem recorder {c : Call} (quiet : c.sets = false) : Within F (recorder env c) := by
  apply Within.bind (Within.read _)
  intro valid
  apply Within.bind (Within.whenever fun _ => Within.leave (passive.exits _))
  intro _
  exact passive.call quiet

theorem returnTo (s : fsm_state_t) : Within F (returnTo s) := by
  apply Within.bind (Within.update fun m => passive.request m s)
  intro _
  exact Within.leave (passive.exits _)

theorem bySeverity (e : UFEError) : Within F (bySeverity (pure ()) e) := by
  apply Within.ite fun _ => passive.returnTo _
  intro _
  apply Within.whenever
  intro _
  exact Within.bind (Within.pure ()) fun _ => passive.returnTo _

/-- Coming back to Standby, and the end of turning on. -/
theorem prepare : Within F (do
    each (List.range maxSize) (provide env)
    BMDaq.recorder env .getDataSize
    BMDaq.call env .standbyEntering) := by
  apply Within.bind
  · apply Within.each
    intro xDc _
    apply Within.bind (Within.read _)
    intro fifo
    apply Within.bind (Within.whenever fun _ => Within.leave (passive.exits _))
    intro _
    exact passive.call rfl
  intro _
  apply Within.bind (passive.recorder rfl)
  intro _
  exact passive.call rfl

theorem readoutLoop {c : Nat → Call} (quiet : ∀ i, (c i).sets = false) :
    Within F (attempt (eachDevice fun i => BMDaq.call env (c i)) Exit.UFEError?
      (BMDaq.bySeverity (pure ()))) := by
  apply Within.attempt (eachDevice_within fun i => passive.call (quiet i))
  exact passive.bySeverity

theorem enterActive : Within F (BMDActive.whenEnteringStateDo env) := by
  apply Within.bind (passive.readoutLoop fun _ => rfl)
  intro _
  exact passive.call rfl

theorem leaveActive : Within F (BMDActive.whenLeavingStateDo env) := by
  apply Within.bind (passive.call rfl)
  intro _
  apply Within.bind (passive.readoutLoop fun _ => rfl)
  intro _
  apply Within.bind passive.verbose
  intro stats
  apply Within.whenever
  intro _
  apply Within.bind (Within.read _)
  intro workers
  exact Within.each fun w _ => passive.call rfl

theorem enterFatalError : Within F (BMDFatalError.whenEnteringStateDo env) := by
  apply Within.bind (eachDevice_within fun _ => Within.whenever fun _ => passive.call rfl)
  intro _
  apply Within.bind (Within.update fun m => passive.log m .led_off rfl)
  intro _
  apply Within.bind (Within.update fun m => passive.log m .ufe_free_device_list rfl)
  intro _
  apply Within.bind (Within.update fun m => passive.log m .ufe_exit rfl)
  intro _
  exact passive.call rfl

end Passive

end Passive

/-- Neither the settings nor the context change. -/
def settingsFrame : Frame Exit Machine where
  Rel m m' := settings m'.log = settings m.log ∧ m'.ctx = m.ctx
  refl _ := ⟨rfl, rfl⟩
  trans first second := ⟨second.1.trans first.1, second.2.trans first.2⟩
  Exits _ := True

/-- In addition, no readout worker is hired. -/
def unhiredFrame : Frame Exit Machine where
  Rel m m' := settingsFrame.Rel m m' ∧ (m'.ReadsOut → m.ReadsOut)
  refl m := ⟨settingsFrame.refl m, id⟩
  trans first second := ⟨settingsFrame.trans first.1 second.1, first.2 ∘ second.2⟩
  Exits _ := True

theorem settingsFrame_passive : Passive settingsFrame where
  exits _ := trivial
  log m c quiet := by
    refine ⟨?_, rfl⟩
    rw [settings_append, settings_quiet quiet, List.append_nil]
  request _ _ := ⟨rfl, rfl⟩

theorem settingsFrame_staff : AdmitsStaff settingsFrame := fun _ _ => ⟨rfl, rfl⟩

theorem unhiredFrame_passive : Passive unhiredFrame where
  exits _ := trivial
  log m c quiet := ⟨settingsFrame_passive.log m c quiet, id⟩
  request _ _ := ⟨⟨rfl, rfl⟩, id⟩

section Unhired

variable {env : Answers} {m m' : Machine} {D : UFEContext → Prop}

theorem Machine.SetUp.of_same (setUp : m.SetUp) (moved : settingsFrame.Rel m m') : m'.SetUp := by
  unfold Machine.SetUp
  rw [moved.1, moved.2]
  exact setUp

theorem Machine.Configured.of_unhired (configured : m.Configured D) (moved : unhiredFrame.Rel m m') :
    m'.Configured D where
  setUp reads := (configured.setUp (moved.2 reads)).of_same moved.1
  context := moved.1.2 ▸ configured.context

theorem dismissAll_unhired : Within unhiredFrame (dismissAll env) := by
  apply Within.bind (unhiredFrame_passive.call rfl)
  intro _
  apply Within.bind
  · apply Within.update
    intro m
    exact ⟨⟨rfl, rfl⟩, fun ⟨w, member, _⟩ => nomatch member⟩
  intro _
  apply Within.bind (unhiredFrame_passive.call rfl)
  intro _
  exact Within.update fun _ => ⟨⟨rfl, rfl⟩, id⟩

/-- The leaving hooks of the states in which there are workers. -/
theorem leaving_unhired {s : fsm_state_t} (inside : s ≠ .Idle_s) (new_state : fsm_state_t) :
    Within unhiredFrame (whenLeavingStateDo env s new_state) := by
  cases s with
  | Idle_s => exact absurd rfl inside
  | Standby_s => exact Within.whenever fun _ => dismissAll_unhired
  | Active_s => exact unhiredFrame_passive.leaveActive
  | Failure_s => exact dismissAll_unhired
  | Undefined_s => exact Within.pure ()
  | FatalError_s => exact Within.pure ()

/-- The entering hooks that hire nobody. -/
theorem entering_unhired {s old_state : fsm_state_t} (away : s ≠ .Idle_s)
    (back : s = .Standby_s → old_state ≠ .Idle_s) :
    Within unhiredFrame (whenEnteringStateDo env s old_state) := by
  cases s with
  | Idle_s => exact absurd rfl away
  | Standby_s =>
      apply Within.attempt _ unhiredFrame_passive.bySeverity
      apply Within.bind (Within.whenever fun on => absurd on (back rfl))
      intro _
      exact unhiredFrame_passive.prepare
  | Active_s => exact unhiredFrame_passive.enterActive
  | FatalError_s => exact unhiredFrame_passive.enterFatalError
  | Undefined_s => exact Within.pure ()
  | Failure_s => exact Within.pure ()

theorem same_unhired {s : fsm_state_t} (inside : s ≠ .Idle_s) :
    Within unhiredFrame (whenSameStateDo env s) := by
  cases s with
  | Idle_s => exact absurd rfl inside
  | Standby_s => exact unhiredFrame_passive.recorder rfl
  | Undefined_s => exact Within.pure ()
  | Active_s => exact Within.pure ()
  | Failure_s => exact Within.pure ()
  | FatalError_s => exact Within.pure ()

end Unhired

/-! ## Turning on -/

/-- The settings are being made, and no readout worker is hired yet. -/
structure Drafting (D : UFEContext → Prop) (ctx : UFEContext) (m : Machine) : Prop where
  descriptions : m.ctx.devs_.map UFEDevice.device_descr_ = ctx.devs_.map UFEDevice.device_descr_
  document : m.ctx.bm_config_doc_ = ctx.bm_config_doc_
  nobody : ¬m.ReadsOut
  context : D m.ctx

/-- A description that names boards. -/
def HasBoards (device_descr_ : Json.Value) : Prop :=
  ∃ boards, device_descr_.get "Boards" = some boards ∧ boards.elements ≠ []

/-- The condition on the context does not look at what `init` tells a device with boards. -/
def Reinit (D : UFEContext → Prop) (env : Answers) : Prop :=
  ∀ ctx i, D ctx → HasBoards (ctx.devs_.getD i default).device_descr_ →
    D { ctx with devs_ := ctx.devs_.modify i fun d => { d with boards := env.boards i } }

section TurningOn

variable {D : UFEContext → Prop} {ctx : UFEContext} {env : Answers} {m m' : Machine} {α : Type}

/-- What a hook that turns the system on writes. -/
def Sets (D : UFEContext → Prop) (ctx : UFEContext) (p : Hook α) (v : Option (List Call)) : Prop :=
  Writes (fun m => settings m.log) (Drafting D ctx) p v fun _ => Machine.Configured D

theorem Drafting.configured (drafting : Drafting D ctx m) : m.Configured D :=
  ⟨fun reads => absurd reads drafting.nobody, drafting.context⟩

theorem descr_getD (devs : List UFEDevice) (i : Nat) :
    (devs.getD i default).device_descr_ = (devs.map UFEDevice.device_descr_).getD i .null :=
  (List.getD_map devs default UFEDevice.device_descr_).symm

theorem Drafting.prescribed_eq (drafting : Drafting D ctx m) : prescribed m.ctx = prescribed ctx := by
  have length : m.ctx.devs_.length = ctx.devs_.length := by
    simpa using congrArg List.length drafting.descriptions
  simp only [prescribed, descr_getD, drafting.descriptions, drafting.document, length]

/-- Statements that hire nobody and set nothing. -/
theorem Sets.silent {p : Hook α} (inside : Within unhiredFrame p) : Sets D ctx p (some []) := by
  apply Writes.within inside
  · intro m m' moved
    refine ⟨moved.1.1, fun drafting => ?_⟩
    obtain ⟨descriptions, document, nobody, context⟩ := drafting
    rw [← moved.1.2] at descriptions document context
    exact ⟨descriptions, document, nobody ∘ moved.2, context⟩
  · exact fun _ m drafting => drafting.configured

theorem Sets.call {c : Call} (loud : c.sets = true) : Sets D ctx (BMDaq.call env c) (some [c]) := by
  intro before
  have added (m : Machine) (holds : settings m.log = before ∧ Drafting D ctx m) :
      settings (m.log ++ [c]) = before ++ [c] := by
    rw [settings_append, holds.1, settings_loud loud]
  have kept (m : Machine) (drafting : Drafting D ctx m) :
      Drafting D ctx { m with log := m.log ++ [c] } :=
    ⟨drafting.descriptions, drafting.document, drafting.nobody, drafting.context⟩
  apply call_meets
  · exact fun _ m holds => ⟨[c], rfl, added m holds, kept m holds.2⟩
  · exact fun _ _ m holds => (kept m holds.2).configured

theorem Sets.checked {β : Type} {v : Option α} {next : α → Hook β} {w : α → Option (List Call)}
    (rest : ∀ a, v = some a → Sets D ctx (next a) (w a)) :
    Sets D ctx (BMDaq.checked v >>= next) (v.bind w) := by
  cases v with
  | none => exact fun _ m holds => holds.2.configured
  | some a => exact rest a rfl

theorem Sets.recorder {c : Call} (loud : c.sets = true) :
    Sets D ctx (BMDaq.recorder env c) (some [c]) := by
  apply Writes.after (Sets.silent (Within.read _))
  intro valid
  apply Writes.after
  · exact Sets.silent (Within.whenever fun _ => Within.leave trivial)
  intro _
  exact Sets.call loud

/-- A device is opened here only to set up a board. -/
theorem initDevice_sets (reinit : Reinit D env) {i : Nat} (entry : Nat)
    (described : HasBoards (ctx.devs_.getD i default).device_descr_) :
    Sets D ctx (initDevice env i entry) (some []) := by
  apply Writes.after (Sets.silent (unhiredFrame_passive.call rfl))
  intro _ before
  apply Meets.update
  intro m holds
  obtain ⟨same, descriptions, document, nobody, context⟩ := holds
  refine ⟨[], rfl, by rw [List.append_nil]; exact same, ?_, document, nobody, ?_⟩
  · exact (map_modify_boards ..).trans descriptions
  · apply reinit m.ctx i context
    rwa [descr_getD, descriptions, ← descr_getD]

theorem configureBoard_sets (reinit : Reinit D env) {i : Nat} (board : Json.Value) (entry : Nat)
    (described : HasBoards (ctx.devs_.getD i default).device_descr_) :
    Sets D ctx (configureBoard env i board entry) (boardSettings i board entry) := by
  apply Writes.after
  · exact Writes.whenever fun _ => initDevice_sets reinit entry described
  intro _
  apply Sets.checked
  intro board_id _
  apply Sets.checked
  intro file _
  cases file with
  | some file =>
      exact Writes.bind (v := some [.configFromBinary i entry board_id ("/conf/" ++ file)])
        (w := some [.setDirectParams i entry board_id 0x8280]) (Sets.call rfl) fun _ =>
          Sets.call rfl
  | none =>
      apply Sets.checked
      intro file _
      cases file with
      | some file => exact Sets.call rfl
      | none =>
          intro before m holds
          obtain ⟨_, descriptions, document, nobody, context⟩ := holds
          exact ⟨fun reads => absurd reads nobody, context⟩

theorem configureDevice_sets (reinit : Reinit D env) (i : Nat) :
    Sets D ctx (configureDevice env i)
      (deviceSettings i (ctx.devs_.getD i default).device_descr_) := by
  apply Writes.read (c := fun dev =>
    dev.device_descr_ = (ctx.devs_.getD i default).device_descr_)
  · intro m drafting
    rw [descr_getD, drafting.descriptions, ← descr_getD]
  intro dev same
  rw [← same]
  apply Sets.checked
  intro boards listed
  apply Writes.each
  intro board member
  apply configureBoard_sets reinit
  rw [← same]
  refine ⟨boards, listed, fun none => ?_⟩
  rw [none] at member
  cases member

/-- The values of the document are read one by one, between the calls. -/
theorem recorderSettings_eq (doc : Json.Value) :
    recorderSettings doc =
      ((doc.get "DataPath").bind (·.asString)).bind fun path =>
        joined (some [.setDataPath path]) (((doc.get "RunNumber").bind (·.asInt)).bind fun run =>
          joined (some [.setRunNum run])
            ((((doc.get "UsbParam").bind (·.get "FileLimit")).bind (·.asInt)).bind fun limit =>
              some [.seMaxFileSize limit])) := by
  unfold recorderSettings
  cases (doc.get "DataPath").bind (·.asString) <;> cases (doc.get "RunNumber").bind (·.asInt) <;>
    cases ((doc.get "UsbParam").bind (·.get "FileLimit")).bind (·.asInt) <;> rfl

theorem instruct_sets : Sets D ctx (instruct env) (recorderSettings ctx.bm_config_doc_) := by
  rw [recorderSettings_eq]
  apply Writes.read (c := fun doc => doc = ctx.bm_config_doc_) fun m drafting => drafting.document
  intro doc same
  subst same
  apply Sets.checked
  intro path _
  apply Writes.bind (Sets.recorder rfl)
  intro _
  apply Sets.checked
  intro run _
  apply Writes.bind (Sets.recorder rfl)
  intro _
  apply Sets.checked
  intro limit _
  exact Sets.recorder rfl

/-- The settings of all devices. -/
theorem configure_sets (reinit : Reinit D env) :
    Sets D ctx (eachDevice (configureDevice env))
      (collect (fun i => deviceSettings i (ctx.devs_.getD i default).device_descr_)
        (List.range ctx.devs_.length)) := by
  apply Writes.read (c := fun n => n = ctx.devs_.length)
  · intro m drafting
    simpa using congrArg List.length drafting.descriptions
  intro n same
  subst same
  exact Writes.each fun i _ => configureDevice_sets reinit i

/-- Once everything is set, nothing in the rest of the hook sets anything. -/
theorem done_stays {p : Hook α} (inside : Within settingsFrame p) :
    Meets (fun m => m.SetUp ∧ D m.ctx) p (fun _ m => m.SetUp ∧ D m.ctx)
      (fun _ => Machine.Configured D) := by
  have kept := inside.stays (P := fun m => m.SetUp ∧ D m.ctx) fun m m' moved done =>
    ⟨done.1.of_same moved, moved.2 ▸ done.2⟩
  exact kept.conseq (fun _ h => h) (fun _ _ h => h) fun _ _ done => ⟨fun _ => done.1, done.2⟩

theorem connect_settings (raw scanned recycled : Fifo) (recorder_ptr : Nat) :
    Within settingsFrame (do
      update fun m =>
        { m with staff := { m.staff with recycled_containers_fifo_ := some recycled } }
      each [raw, scanned, recycled] fun fifo => call env (.setMaxSize fifo maxSize)
      each [recycled, scanned, raw] (addNode env)
      eachDevice (hireReadout env recycled raw)
      rewire recorder_ptr fun w => { w with inFifo := scanned }
      let stats ← verbose
      call env (.enableStats stats)) := by
  have passive := settingsFrame_passive
  apply Within.bind (Within.update fun m => settingsFrame_staff m _)
  intro _
  apply Within.bind (Within.each fun _ _ => passive.call rfl)
  intro _
  apply Within.bind
  · apply Within.each
    intro fifo _
    apply Within.bind (passive.call rfl)
    intro _
    exact Within.update fun m => settingsFrame_staff m _
  intro _
  apply Within.bind
  · apply eachDevice_within
    intro i
    apply Within.bind
    · apply Within.bind (passive.call rfl)
      intro _
      apply Within.bind (Within.read _)
      intro id
      apply Within.bind (Within.update fun m => settingsFrame_staff m _)
      intro _
      exact Within.pure id
    intro id
    exact Within.update fun m => settingsFrame_staff m _
  intro _
  apply Within.bind (Within.update fun m => settingsFrame_staff m _)
  intro _
  apply Within.bind passive.verbose
  intro stats
  exact passive.call rfl

/-- The scanner and the event builder do not read out. -/
theorem addWorker_unhired {kind : WorkerKind} (other : kind ≠ .BMDReadoutWorker)
    (device : Option Nat) : Within unhiredFrame (addWorker env kind device) := by
  apply Within.bind (unhiredFrame_passive.call rfl)
  intro _
  apply Within.bind (Within.read _)
  intro id
  apply Within.bind
  · apply Within.update
    intro m
    refine ⟨⟨rfl, rfl⟩, fun reads => ?_⟩
    obtain ⟨w, member, kind'⟩ := reads
    cases List.mem_append.mp member with
    | inl before => exact ⟨w, before, kind'⟩
    | inr last =>
        rw [List.mem_singleton.mp last] at kind'
        exact absurd kind' other
  intro _
  exact Within.pure id

/-- A statement before the end of the settings. -/
theorem draft_stays {p : Hook α} (inside : Within unhiredFrame p) (before : List Call) :
    Meets (fun m => settings m.log = before ∧ Drafting D ctx m) p
      (fun _ m => settings m.log = before ∧ Drafting D ctx m) (fun _ => Machine.Configured D) := by
  apply (Sets.silent inside before).conseq (fun _ h => h) _ (fun _ _ h => h)
  rintro _ m ⟨new, none, same, drafting⟩
  cases none
  exact ⟨by simpa using same, drafting⟩

/-- The recorder gets its instructions after the boards and before the first readout worker. -/
theorem hire_sets {before boards : List Call}
    (collected : collect (fun i => deviceSettings i (ctx.devs_.getD i default).device_descr_)
      (List.range ctx.devs_.length) = some boards) :
    Meets (fun m => settings m.log = before ++ boards ∧ Drafting D ctx m) (hire env)
      (fun _ m => m.SetUp ∧ D m.ctx) (fun _ => Machine.Configured D) := by
  apply Meets.bind (draft_stays (addWorker_unhired (by simp) _) _)
  intro scanner
  apply Meets.bind (draft_stays (addWorker_unhired (by simp) _) _)
  intro recorder_ptr
  apply Meets.bind (Q := fun _ m => settings m.log = before ++ boards ∧ Drafting D ctx m)
  · apply draft_stays
    apply Within.update
    exact fun _ => ⟨⟨rfl, rfl⟩, id⟩
  intro _
  apply Meets.bind (Q := fun _ m => m.SetUp ∧ D m.ctx)
  · apply (instruct_sets (before ++ boards)).conseq (fun _ h => h) _ (fun _ _ h => h)
    rintro _ m ⟨instructions, read, same, drafting⟩
    refine ⟨⟨boards ++ instructions, ?_, ?_⟩, drafting.context⟩
    · rw [drafting.prescribed_eq]
      exact joined_eq_some.mpr ⟨boards, instructions, collected, read, rfl⟩
    · have added : settings m.log = before ++ (boards ++ instructions) := by simpa using same
      rw [added]
      exact List.suffix_append before _
  intro _
  exact done_stays (connect_settings (.inFifo scanner) (.outFifo scanner) (.outFifo recorder_ptr)
    recorder_ptr)

theorem configured_stays {p : Hook α} (inside : Within unhiredFrame p) :
    Meets (Machine.Configured D) p (fun _ => Machine.Configured D)
      (fun _ => Machine.Configured D) :=
  inside.stays fun _ _ moved configured => configured.of_unhired moved

/-- The hook that turns the system on. -/
theorem turnOn_configured (reinit : Reinit D env) :
    Meets (fun m => ¬m.ReadsOut ∧ D m.ctx) (BMDStandby.whenEnteringStateDo env .Idle_s)
      (fun _ => Machine.Configured D) (fun _ => Machine.Configured D) := by
  apply Meets.attempt (R := fun _ => Machine.Configured D)
  · apply Meets.bind (Q := fun _ m => m.SetUp ∧ D m.ctx)
    · apply Meets.whenever _ fun off => absurd rfl off
      intro _ m unset
      have drafting : Drafting D m.ctx m := ⟨rfl, rfl, unset.1, unset.2⟩
      apply Meets.bind (configure_sets reinit (settings m.log)) _ m ⟨rfl, drafting⟩
      rintro _ m' ⟨boards, collected, drafted⟩
      exact hire_sets collected m' drafted
    intro _
    apply (done_stays settingsFrame_passive.prepare).conseq (fun _ h => h) _ (fun _ _ h => h)
    exact fun _ _ done => ⟨fun _ => done.1, done.2⟩
  · intro x e caught
    exact configured_stays (unhiredFrame_passive.bySeverity e)
  · exact fun _ _ _ configured => configured

end TurningOn

/-! ## Runs -/

namespace Machine

variable {m : Machine} {t : Turn}

theorem ReadsOut.staffed (reads : m.ReadsOut) : m.staff.workers ≠ [] := by
  obtain ⟨w, member, _⟩ := reads
  exact List.ne_nil_of_mem member

theorem execute_unhired {hook : Hook Unit} (within : Within unhiredFrame hook) :
    unhiredFrame.Rel m (m.execute hook) := by
  obtain ⟨⟨log, ctx⟩, hired⟩ := within.rel m
  refine ⟨⟨?_, ?_⟩, fun reads => hired ?_⟩
  · rwa [execute_log]
  · rwa [execute_ctx]
  · unfold ReadsOut at reads
    rwa [execute_staff] at reads

/-- What a turn does outside of Idle and of turning on leaves the settings alone. -/
theorem leave_unhired {s : fsm_state_t} (t : Turn) (stays : m.state_ = .Idle_s → s ≠ .Undefined_s) :
    unhiredFrame.Rel m (m.leave s t) := by
  have called : unhiredFrame.Rel m { m with next_ := none } := ⟨⟨rfl, rfl⟩, id⟩
  by_cases idle : m.state_ = .Idle_s
  · rw [leave_idle idle (stays idle)]
    exact called
  · exact unhiredFrame.trans called (execute_unhired (leaving_unhired idle s))

theorem moveTo_unhired (m : Machine) (s : fsm_state_t) : unhiredFrame.Rel m (m.moveTo s) := by
  have moved := unhiredFrame_passive.log m (.enters s) rfl
  exact moved

/-- The settings are in order, as long as the program runs. -/
def SetUpInOrder (m : Machine) : Prop := m.life = .running → m.Configured fun _ => True

theorem turn_setUp (laid : m.Laid) (inOrder : m.SetUpInOrder) (t : Turn) :
    (m.turn t).SetUpInOrder := by
  intro alive'
  have laid' := turn_laid laid t
  by_cases outside : (m.turn t).state_ = .Idle_s ∨ (m.turn t).state_ = .Undefined_s
  · -- nobody is hired there
    have vacant := laid'.vacant alive' outside
    exact ⟨fun reads => absurd vacant reads.staffed, trivial⟩
  rw [not_or] at outside
  have turned := turned m t
  generalize m.turn t = m' at turned alive' outside
  cases turned with
  | ignored => exact inOrder alive'
  | repeated alive toward =>
      rw [repeated_state_] at outside
      have called : unhiredFrame.Rel m { m with next_ := none } := ⟨⟨rfl, rfl⟩, id⟩
      exact (inOrder alive).of_unhired
        (unhiredFrame.trans called (execute_unhired (same_unhired outside.1)))
  | died alive toward other dead => exact absurd alive' dead
  | @changed s alive toward other survived =>
      rw [entered_state_] at outside
      have moved := unhiredFrame.trans (leave_unhired t fun _ => outside.2)
        (moveTo_unhired (m.leave s t) s)
      by_cases on : s = .Standby_s ∧ m.state_ = .Idle_s
      · obtain ⟨rfl, idle⟩ := on
        have nobody : ¬((m.leave .Standby_s t).moveTo .Standby_s).ReadsOut := fun reads =>
          (moved.2 reads).staffed (laid.vacant alive (.inl idle))
        rw [idle]
        exact execute_keeps (turnOn_configured fun _ _ _ _ => trivial) ⟨nobody, trivial⟩
          fun _ _ configured => ⟨configured.setUp, trivial⟩
      · have entered : Within unhiredFrame (whenEnteringStateDo t.entering s m.state_) :=
          entering_unhired outside.1 fun standby idle => on ⟨standby, idle⟩
        exact ((inOrder alive).of_unhired moved).of_unhired (execute_unhired entered)

theorem after_setUp (turns : List Turn) : (after turns).Laid ∧ (after turns).SetUpInOrder := by
  refine run_invariant (P := fun m => m.Laid ∧ m.SetUpInOrder) (Q := fun _ => True) ?_ ?_
    (fun _ _ => trivial) (run_step boot turns)
  · refine ⟨boot_laid, fun _ => ⟨fun reads => ?_, trivial⟩⟩
    obtain ⟨_, member, _⟩ := reads
    cases member
  · intro m t m' _ both stepped
    cases stepped
    exact ⟨turn_laid both.1 t, turn_setUp both.1 both.2 t⟩

end Machine

instance (m : Machine) : Decidable m.ReadsOut :=
  inferInstanceAs (Decidable (∃ w ∈ m.staff.workers, w.kind = .BMDReadoutWorker))

open Machine in
/-- In every run: as soon as a readout worker is hired, the last settings that have been made
    are all those that the configuration prescribes, in order. -/
theorem settings_prescribed (turns : List Turn) (alive : (after turns).life = .running)
    (reads : (after turns).ReadsOut) :
    ∃ calls, prescribed (after turns).ctx = some calls ∧ calls <:+ settings (after turns).log :=
  ((after_setUp turns).2 alive).setUp reads

open Machine in
theorem settings_prescribed_sample :
    ∃ calls, prescribed (after sampleSession).ctx = some calls ∧
      calls <:+ settings (after sampleSession).log :=
  settings_prescribed sampleSession (by decide +kernel) (by decide +kernel)

end BMDaq
