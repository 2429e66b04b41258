import BMDaq.Configuration
import BMDaq.Lib.Flow
import BMDaq.Lib.Runs

/-! # The finite-state machine

The hooks of the five states, statement by statement, over an explicit machine. Every call
into a library is logged before its answer is looked at, and `Answers` fixes these answers
for one hook: any call may throw any `UFEError`, the functions of libufec return any status.

`Fsm` itself belongs to mic11api. What is assumed of it is `Machine.turn`: a change runs the
leaving hook of the old state and then the entering hook of the new one, a repeated state
runs `whenSameStateDo`, and the latest `changeState` of a change decides the next one, which
comes before any further command.
-/

namespace BMDaq

inductive fsm_state_t where
  | Undefined_s
  | Idle_s
  | Standby_s
  | Active_s
  | Failure_s
  | FatalError_s
  deriving Repr, DecidableEq

inductive WorkerKind where
  | BMDDataScannerWorker
  | BMDEventBuilderWorker
  | BMDReadoutWorker
  deriving Repr, DecidableEq

/-- A fifo, named after the worker that was hired with it. -/
inductive Fifo where
  | inFifo (worker : Nat)
  | outFifo (worker : Nat)
  deriving Repr, DecidableEq

structure Worker where
  id : Nat
  kind : WorkerKind
  device_ : Option Nat
  inFifo : Fifo
  outFifo : Fifo
  deriving Repr, DecidableEq

/-- What the hooks call. Devices and the board entries of a device are given by position. -/
inductive Call where
  | loadBMConfig
  | updateBMConfig
  | ufe_init (status : Int)
  | ufe_get_bm_device_list
  | led_on
  | led_off
  | ufe_free_device_list
  | ufe_exit
  | init (device entry : Nat)
  | close (device : Nat)
  | configFromBinary (device entry : Nat) (board_id : Int) (file : String)
  | setDirectParams (device entry : Nat) (board_id : Int) (params : Nat)
  | configFromJson (device entry : Nat) (board_id : Int) (file : String)
  | addWorker (kind : WorkerKind) (device : Option Nat)
  | setDataPath (path : String)
  | setRunNum (n : Int)
  | seMaxFileSize (n : Int)
  | setMaxSize (fifo : Fifo) (n : Nat)
  | addNode (fifo : Fifo)
  | enableStats (on : Bool)
  | push (n : Nat)
  | getDataSize
  | getRunNum
  | standbyEntering
  | activeEntering
  | activeLeaving
  | start (device : Nat)
  | stop (device : Nat)
  | printStats (worker : Nat)
  | dismissWorkers
  | dismissNodes
  | enters (state : fsm_state_t)
  deriving Repr, DecidableEq

/-- What the libraries answer during one hook. -/
structure Answers where
  throws : Call → Option UFEError
  bm_config_doc_ : Json.Value
  init_status : Int
  nFebDevs : Nat
  led_status : Int
  isOpen : Nat → Nat → Bool
  boards : Nat → List Int

/-- The singleton `UFEContext`, as far as the hooks use it. -/
structure UFEContext where
  bm_config_doc_ : Json.Value
  devs_ : List UFEDevice

/-- The hired workers and the static members of `BMDStandby` that point into them. Workers
    are numbered in the order in which they are hired. -/
structure Staff where
  workers : List Worker
  nodes : List Fifo
  hires : Nat
  recycled_containers_fifo_ : Option Fifo
  rec_proc_ptr_ : Option Nat
  deriving Repr, DecidableEq

inductive Life where
  | running
  | terminated
  | undefined
  deriving Repr, DecidableEq

structure Machine where
  state_ : fsm_state_t
  next_ : Option fsm_state_t
  ctx : UFEContext
  staff : Staff
  log : List Call
  life : Life

/-- How a hook is left before its end. -/
inductive Exit where
  | returned
  | threw (e : UFEError)
  | escaped
  | undefined
  deriving Repr, DecidableEq

def Exit.UFEError? : Exit → Option UFEError
  | threw e => some e
  | _ => none

abbrev Hook (α : Type) : Type := Block Exit Machine α

open Block

/-! ## Statements -/

/-- A call that cannot throw. -/
def note (c : Call) : Hook Unit := update fun m => { m with log := m.log ++ [c] }

def call (env : Answers) (c : Call) : Hook Unit := do
  note c
  match env.throws c with
  | some e => leave (.threw e)
  | none => pure ()

def changeState (s : fsm_state_t) : Hook Unit := update fun m => { m with next_ := some s }

/-- `sm->changeState(s); return;` -/
def returnTo (s : fsm_state_t) : Hook Unit := do
  changeState s
  leave .returned

/-- The value of a configuration access, which may throw `Json::LogicError`. -/
def checked {α : Type} : Option α → Hook α
  | some a => pure a
  | none => leave .escaped

/-- The handler shared by the hooks: the state changes according to the severity. -/
def bySeverity (onFatal : Hook Unit) (e : UFEError) : Hook Unit :=
  if e.severity = .SERIOUS then returnTo .Failure_s
  else whenever (e.severity = .FATAL) do
    onFatal
    returnTo .FatalError_s

def loadBMConfig (env : Answers) : Hook Unit := do
  update fun m => { m with ctx := { m.ctx with bm_config_doc_ := env.bm_config_doc_ } }
  call env .loadBMConfig

/-- `dev.init()`, after which the device knows its boards. -/
def initDevice (env : Answers) (i entry : Nat) : Hook Unit := do
  call env (.init i entry)
  update fun m =>
    { m with ctx :=
      { m.ctx with devs_ := m.ctx.devs_.modify i fun d => { d with boards := env.boards i } } }

/-- `if (!setDeviceDescription(&d, ctx->bm_config_doc_))`, for the device at position `i`. -/
def describeDevice (i : Nat) : Hook Unit := do
  let ctx ← read Machine.ctx
  let (found, dev) ← checked (setDeviceDescription (ctx.devs_.getD i default) ctx.bm_config_doc_)
  update fun m => { m with ctx := { m.ctx with devs_ := m.ctx.devs_.set i dev } }
  whenever (found = false) (returnTo .FatalError_s)

/-- A loop over `ctx->devs_`. -/
def eachDevice (body : Nat → Hook Unit) : Hook Unit := do
  let n ← read fun m => m.ctx.devs_.length
  each (List.range n) body

def closeDevices (env : Answers) : Hook Unit :=
  eachDevice fun i => whenever (env.isOpen i 0 = true) (call env (.close i))

/-- Free the device list and close the session; update the configuration. -/
def closeSession (env : Answers) : Hook Unit := do
  note .ufe_free_device_list
  note .ufe_exit
  call env .updateBMConfig

def Machine.hired (m : Machine) (worker : Nat) : Bool := m.staff.workers.any (·.id == worker)

/-- A call through `rec_proc_ptr_`, which has to point to the processor of a hired worker. -/
def recorder (env : Answers) (c : Call) : Hook Unit := do
  let valid ← read fun m => (m.staff.rec_proc_ptr_.map m.hired).getD false
  whenever (valid = false) (leave .undefined)
  call env c

def Staff.hire (staff : Staff) (kind : WorkerKind) (device : Option Nat) : Staff :=
  let id := staff.hires
  { staff with
    workers := staff.workers ++ [⟨id, kind, device, .inFifo id, .outFifo id⟩]
    hires := id + 1 }

/-- `addWorker`: the new worker comes with fifos of its own. -/
def addWorker (env : Answers) (kind : WorkerKind) (device : Option Nat) : Hook Nat := do
  call env (.addWorker kind device)
  let id ← read fun m => m.staff.hires
  update fun m => { m with staff := m.staff.hire kind device }
  pure id

/-- Change one hired worker. -/
def rewire (id : Nat) (f : Worker → Worker) : Hook Unit :=
  update fun m =>
    { m with staff :=
      { m.staff with
        workers := m.staff.workers.map fun w => if w.id = id then f w else w } }

def addNode (env : Answers) (fifo : Fifo) : Hook Unit := do
  call env (.addNode fifo)
  update fun m => { m with staff := { m.staff with nodes := m.staff.nodes ++ [fifo] } }

def dismissAll (env : Answers) : Hook Unit := do
  call env .dismissWorkers
  update fun m => { m with staff := { m.staff with workers := [] } }
  call env .dismissNodes
  update fun m => { m with staff := { m.staff with nodes := [] } }

/-- `ctx->bm_config_doc_["VerboseLevel"].asInt() > 1` -/
def verbose : Hook Bool := do
  let doc ← read fun m => m.ctx.bm_config_doc_
  let level ← checked ((doc.get "VerboseLevel").bind (·.asInt))
  pure (decide (1 < level))

/-! ## Idle -/

namespace BMDIdle

/-- The part of the entering hook that runs when the program starts. -/
def startUp (env : Answers) : Hook Unit := do
  attempt (loadBMConfig env) Exit.UFEError? (bySeverity (note (.ufe_init env.init_status)))
  -- Initialize the ufec library for a new session.
  note (.ufe_init env.init_status)
  whenever (env.init_status < 0) (returnTo .FatalError_s)
  note .ufe_get_bm_device_list
  whenever (env.nFebDevs = 0) (returnTo .FatalError_s)
  let doc ← read fun m => m.ctx.bm_config_doc_
  let devices ← checked (doc.get "Devices")
  whenever (env.nFebDevs ≠ devices.size) (returnTo .FatalError_s)
  -- Initialize one UFEDevice for each BM front-end board.
  attempt
    (do
      update fun m =>
        { m with ctx := { m.ctx with devs_ := m.ctx.devs_.takeD env.nFebDevs default } }
      eachDevice fun xDev => do
        initDevice env xDev 0
        describeDevice xDev)
    Exit.UFEError? (bySeverity (pure ()))
  note .led_off
  whenever (env.led_status ≠ 0) (returnTo .FatalError_s)

def whenEnteringStateDo (env : Answers) (old_state : fsm_state_t) : Hook Unit :=
  whenever (old_state = .Undefined_s) (startUp env)

def whenSameStateDo (env : Answers) : Hook Unit :=
  attempt
    (do
      loadBMConfig env
      eachDevice describeDevice)
    Exit.UFEError? (bySeverity (note (.ufe_init env.init_status)))

def whenLeavingStateDo (env : Answers) (new_state : fsm_state_t) : Hook Unit :=
  whenever (new_state = .Undefined_s) do
    closeDevices env
    note .led_on
    whenever (env.led_status ≠ 0) (returnTo .FatalError_s)
    closeSession env

end BMDIdle

/-! ## Standby -/

namespace BMDStandby

def maxSize : Nat := 50

/-- The body of the loop over the boards of one device. -/
def configureBoard (env : Answers) (i : Nat) (board : Json.Value) (entry : Nat) : Hook Unit := do
  whenever (env.isOpen i entry = false) (initDevice env i entry)
  let board_id ← checked ((board.get "Id").bind (·.asInt))
  match ← checked (configurationFile board "ConfigurationBinary") with
  | some file => do
      call env (.configFromBinary i entry board_id ("/conf/" ++ file))
      call env (.setDirectParams i entry board_id 0x8280)
  | none => do
      match ← checked (configurationFile board "ConfigurationJosn") with
      | some file => call env (.configFromJson i entry board_id ("/conf/" ++ file))
      | none => returnTo .Failure_s

def configureDevice (env : Answers) (i : Nat) : Hook Unit := do
  let dev ← read fun m => m.ctx.devs_.getD i default
  let boards ← checked (dev.device_descr_.get "Boards")
  each boards.elements.zipIdx fun (board, entry) => configureBoard env i board entry

/-- Give to the recorder some instructions. -/
def instruct (env : Answers) : Hook Unit := do
  let doc ← read fun m => m.ctx.bm_config_doc_
  let path ← checked ((doc.get "DataPath").bind (·.asString))
  recorder env (.setDataPath path)
  let run ← checked ((doc.get "RunNumber").bind (·.asInt))
  recorder env (.setRunNum run)
  let limit ← checked (((doc.get "UsbParam").bind (·.get "FileLimit")).bind (·.asInt))
  recorder env (.seMaxFileSize limit)

/-- Hire one readout worker and connect its fifos. -/
def hireReadout (env : Answers) (recycled raw : Fifo) (i : Nat) : Hook Unit := do
  let id ← addWorker env .BMDReadoutWorker (some i)
  rewire id fun w => { w with inFifo := recycled, outFifo := raw }

/-- Hire all workers and connect them. -/
def hire (env : Answers) : Hook Unit := do
  let scanner ← addWorker env .BMDDataScannerWorker none
  let recorder_ptr ← addWorker env .BMDEventBuilderWorker none
  update fun m => { m with staff := { m.staff with rec_proc_ptr_ := some recorder_ptr } }
  instruct env
  let raw : Fifo := .inFifo scanner
  let scanned : Fifo := .outFifo scanner
  let recycled : Fifo := .outFifo recorder_ptr
  update fun m =>
    { m with staff := { m.staff with recycled_containers_fifo_ := some recycled } }
  each [raw, scanned, recycled] fun fifo => call env (.setMaxSize fifo maxSize)
  each [recycled, scanned, raw] (addNode env)
  eachDevice (hireReadout env recycled raw)
  rewire recorder_ptr fun w => { w with inFifo := scanned }
  let stats ← verbose
  call env (.enableStats stats)

/-- `recycled_containers_fifo_->push( new UFEDataContainer() )` -/
def provide (env : Answers) (xDc : Nat) : Hook Unit := do
  let fifo ← read fun m => m.staff.recycled_containers_fifo_
  whenever (fifo = none) (leave .undefined)
  call env (.push xDc)

def whenEnteringStateDo (env : Answers) (old_state : fsm_state_t) : Hook Unit :=
  attempt
    (do
      whenever (old_state = .Idle_s) do
        eachDevice (configureDevice env)
        hire env
      each (List.range maxSize) (provide env)
      recorder env .getDataSize
      call env .standbyEntering)
    Exit.UFEError? (bySeverity (pure ()))

def whenSameStateDo (env : Answers) : Hook Unit := recorder env .getRunNum

def whenLeavingStateDo (env : Answers) (new_state : fsm_state_t) : Hook Unit :=
  whenever (new_state = .Idle_s) (dismissAll env)

end BMDStandby

/-! ## Active -/

namespace BMDActive

def whenEnteringStateDo (env : Answers) : Hook Unit := do
  attempt (eachDevice fun i => call env (.start i)) Exit.UFEError? (bySeverity (pure ()))
  call env .activeEntering

def whenLeavingStateDo (env : Answers) : Hook Unit := do
  call env .activeLeaving
  attempt (eachDevice fun i => call env (.stop i)) Exit.UFEError? (bySeverity (pure ()))
  let stats ← verbose
  whenever (stats = true) do
    let workers ← read fun m => m.staff.workers
    each workers fun w => call env (.printStats w.id)

end BMDActive

/-! ## Failure and fatal error -/

def BMDFailure.whenLeavingStateDo (env : Answers) : Hook Unit := dismissAll env

def BMDFatalError.whenEnteringStateDo (env : Answers) : Hook Unit := do
  closeDevices env
  note .led_off
  closeSession env

/-! ## The machine -/

def whenEnteringStateDo (env : Answers) (state old_state : fsm_state_t) : Hook Unit :=
  match state with
  | .Idle_s => BMDIdle.whenEnteringStateDo env old_state
  | .Standby_s => BMDStandby.whenEnteringStateDo env old_state
  | .Active_s => BMDActive.whenEnteringStateDo env
  | .FatalError_s => BMDFatalError.whenEnteringStateDo env
  | .Undefined_s | .Failure_s => pure ()

def whenSameStateDo (env : Answers) (state : fsm_state_t) : Hook Unit :=
  match state with
  | .Idle_s => BMDIdle.whenSameStateDo env
  | .Standby_s => BMDStandby.whenSameStateDo env
  | .Undefined_s | .Active_s | .Failure_s | .FatalError_s => pure ()

def whenLeavingStateDo (env : Answers) (state new_state : fsm_state_t) : Hook Unit :=
  match state with
  | .Idle_s => BMDIdle.whenLeavingStateDo env new_state
  | .Standby_s => BMDStandby.whenLeavingStateDo env new_state
  | .Active_s => BMDActive.whenLeavingStateDo env
  | .Failure_s => BMDFailure.whenLeavingStateDo env
  | .Undefined_s | .FatalError_s => pure ()

/-- The changes an operator may ask for. -/
def allowed : fsm_state_t → fsm_state_t → Bool
  | .Idle_s, .Standby_s => true
  | .Standby_s, .Active_s => true
  | .Active_s, .Standby_s => true
  | .Standby_s, .Idle_s => true
  | .Failure_s, .Idle_s => true
  | .Idle_s, .Undefined_s => true
  | _, _ => false

/-- One turn of the machine: an operator's command, or none where the machine acts on its own,
    and the answers the two hooks of the change get. -/
structure Turn where
  command : Option fsm_state_t
  leaving : Answers
  entering : Answers

namespace Machine

/-- The start of the program: `Idle_s` is about to be entered from `Undefined_s`. -/
def boot : Machine where
  state_ := .Undefined_s
  next_ := some .Idle_s
  ctx := ⟨.null, []⟩
  staff := ⟨[], [], 0, none, none⟩
  log := []
  life := .running

/-- The state the machine is to take up in a turn. Commands are read only at rest. -/
def target (m : Machine) (command : Option fsm_state_t) : Option fsm_state_t :=
  match m.next_, command with
  | some s, none => some s
  | none, some s => if s = m.state_ ∨ allowed m.state_ s = true then some s else none
  | _, _ => none

/-- Run a hook. An exception that leaves it ends the program. -/
def execute (m : Machine) (hook : Hook Unit) : Machine :=
  match hook m with
  | .on _ m' => m'
  | .out .returned m' => m'
  | .out (.threw _) m' => { m' with life := .terminated }
  | .out .escaped m' => { m' with life := .terminated }
  | .out .undefined m' => { m' with life := .undefined }

/-- The machine has left its old state and is about to run the entering hook of `s`. -/
def moveTo (m : Machine) (s : fsm_state_t) : Machine :=
  { m with state_ := s, log := m.log ++ [.enters s] }

/-- The first half of a change to `s`: the leaving hook of the old state. -/
def leave (m : Machine) (s : fsm_state_t) (t : Turn) : Machine :=
  { m with next_ := none }.execute (BMDaq.whenLeavingStateDo t.leaving m.state_ s)

def turn (m : Machine) (t : Turn) : Machine :=
  match m.life, m.target t.command with
  | .running, some s =>
      if s = m.state_ then
        { m with next_ := none }.execute (BMDaq.whenSameStateDo t.entering m.state_)
      else if (m.leave s t).life = .running then
        ((m.leave s t).moveTo s).execute (BMDaq.whenEnteringStateDo t.entering s m.state_)
      else m.leave s t
  | _, _ => m

/-- The step of a run. -/
def step (m : Machine) (t : Turn) : Option Machine := some (m.turn t)

/-- At rest: no change is pending. -/
def AtRest (m : Machine) : Prop := m.life = .running ∧ m.next_ = none

end Machine

/-! ## Sample answers -/

namespace Answers

/-- The configuration of devices with one board each. -/
def sampleConfig (ids : List Int) : Json.Value :=
  .object [("DataPath", .string "/data/"), ("Devices", .array (ids.map device)),
    ("RunNumber", .number 299 "299"),
    ("UsbParam", .object [("FileLimit", .number 262100000 "262100000")]),
    ("VerboseLevel", .number 2 "2")]
where
  device (id : Int) : Json.Value :=
    .object [("Boards", .array [.object [("ConfigurationBinary", .string ""),
      ("ConfigurationJosn", .string "GTrig_only_config2.json"), ("Id", .number id (toString id))]])]

/-- Nothing fails, and the connected devices are those of the configuration. -/
def smooth (ids : List Int) : Answers where
  throws _ := none
  bm_config_doc_ := sampleConfig ids
  init_status := 0
  nFebDevs := ids.length
  led_status := 0
  isOpen _ _ := true
  boards i := ids[i]?.toList

/-- The same with one call that throws. -/
def failing (env : Answers) (c : Call) (severity : Severity) : Answers :=
  { env with throws := fun c' => if c' = c then some ⟨"", "", severity⟩ else env.throws c' }

end Answers

/-- A turn without a command, and one with a command. -/
def Turn.own (env : Answers) : Turn := ⟨none, env, env⟩

def Turn.to (s : fsm_state_t) (env : Answers) : Turn := ⟨some s, env, env⟩

end BMDaq
