import BMDaq.HookFrames

/-! # Hired workers

When the machine is switched on, the configuration of the boards and the hiring of the
workers form one sequence of calls, up to the first that throws. `hiringPlan` writes that
sequence down in advance. If it is followed to its end, the team is complete and stays so
until it is dismissed; only an exception that is neither serious nor fatal, thrown on the
way, leaves the machine in Standby with half a team.
-/

namespace BMDaq

open Block

/-! ## The plan -/

/-- The exception of the first call of a plan that throws. Where the plan says `none` the code
    leaves it. -/
def firstThrow (env : Answers) : List (Option Call) → Option UFEError
  | [] => none
  | none :: _ => none
  | some c :: rest =>
      match env.throws c with
      | some e => some e
      | none => firstThrow env rest

/-- The plan after a configuration access, which leaves the code if there is no value. -/
def afterReading {α : Type} (v : Option α) (plan : α → List (Option Call)) : List (Option Call) :=
  match v with
  | some a => plan a
  | none => [none]

namespace BMDStandby

def configurationPlan (i entry : Nat) (board_id : Int) (board : Json.Value) : List (Option Call) :=
  afterReading (configurationFile board "ConfigurationBinary") fun
    | some file =>
        [some (.configFromBinary i entry board_id ("/conf/" ++ file)),
          some (.setDirectParams i entry board_id 0x8280)]
    | none =>
        afterReading (configurationFile board "ConfigurationJosn") fun
          | some file => [some (.configFromJson i entry board_id ("/conf/" ++ file))]
          | none => [none]

def boardPlan (env : Answers) (i : Nat) (board : Json.Value) (entry : Nat) : List (Option Call) :=
  (if env.isOpen i entry = false then [some (.init i entry)] else []) ++
    afterReading ((board.get "Id").bind (·.asInt)) fun board_id =>
      configurationPlan i entry board_id board

def devicePlan (env : Answers) (i : Nat) (device_descr_ : Json.Value) : List (Option Call) :=
  afterReading (device_descr_.get "Boards") fun boards =>
    boards.elements.zipIdx.flatMap fun (board, entry) => boardPlan env i board entry

def instructPlan (doc : Json.Value) : List (Option Call) :=
  afterReading ((doc.get "DataPath").bind (·.asString)) fun path =>
    some (.setDataPath path) ::
      afterReading ((doc.get "RunNumber").bind (·.asInt)) fun run =>
        some (.setRunNum run) ::
          afterReading (((doc.get "UsbParam").bind (·.get "FileLimit")).bind (·.asInt)) fun limit =>
            [some (.seMaxFileSize limit)]

/-- The calls after the event builder has its instructions. Without devices the team is complete
    by then. -/
def readoutPlan (raw scanned recycled : Fifo) (devices : Nat) : List (Option Call) :=
  if devices = 0 then []
  else
    [raw, scanned, recycled].flatMap (fun fifo => [some (Call.setMaxSize fifo maxSize)]) ++
      ([recycled, scanned, raw].flatMap (fun fifo => [some (Call.addNode fifo)]) ++
        (List.range devices).flatMap fun i => [some (Call.addWorker .BMDReadoutWorker (some i))])

/-- The calls up to the last hired worker. The next two workers are number `hires` and the one
    after it. -/
def teamPlan (doc : Json.Value) (hires devices : Nat) : List (Option Call) :=
  some (.addWorker .BMDDataScannerWorker none) ::
    some (.addWorker .BMDEventBuilderWorker none) ::
    (instructPlan doc ++
      readoutPlan (.inFifo hires) (.outFifo hires) (.outFifo (hires + 1)) devices)

/-- The calls that configure devices with the given descriptions and hire the workers. -/
def hiringPlan (env : Answers) (descriptions : List Json.Value) (doc : Json.Value)
    (hires : Nat) : List (Option Call) :=
  (List.range descriptions.length).flatMap (fun i => devicePlan env i (descriptions.getD i .null)) ++
    teamPlan doc hires descriptions.length

end BMDStandby

section Plans

variable {env : Answers} {plan later : List (Option Call)} {e : UFEError}

/-- No call of the plan throws. -/
def Quiet (env : Answers) (plan : List (Option Call)) : Prop :=
  ∀ rest, firstThrow env (plan ++ rest) = firstThrow env rest

/-- The plan ends with the exception `e`, whatever is planned after it. -/
def Stops (env : Answers) (plan : List (Option Call)) (e : UFEError) : Prop :=
  ∀ rest, firstThrow env (plan ++ rest) = some e

theorem quiet_nil : Quiet env [] := fun _ => rfl

theorem Quiet.append (quiet : Quiet env plan) (quiet' : Quiet env later) :
    Quiet env (plan ++ later) := by
  intro rest
  rw [List.append_assoc, quiet, quiet']

theorem Quiet.stops (quiet : Quiet env plan) (stops : Stops env later e) :
    Stops env (plan ++ later) e := by
  intro rest
  rw [List.append_assoc, quiet, stops]

theorem Stops.append (stops : Stops env plan e) : Stops env (plan ++ later) e := by
  intro rest
  rw [List.append_assoc, stops]

theorem quiet_call {c : Call} (quiet : env.throws c = none) : Quiet env [some c] := by
  intro rest
  simp [firstThrow, quiet]

theorem stops_call {c : Call} (loud : env.throws c = some e) : Stops env [some c] e := by
  intro rest
  simp [firstThrow, loud]

end Plans

/-! ## The team -/

def Worker.position (w : Worker) : WorkerKind × Option Nat := (w.kind, w.device_)

/-- One scanner, one event builder, and one readout worker for each device. -/
def team (n : Nat) : List (WorkerKind × Option Nat) :=
  (.BMDDataScannerWorker, none) :: (.BMDEventBuilderWorker, none) ::
    (List.range n).map fun i => (.BMDReadoutWorker, some i)

/-- `rec_proc_ptr_` points to the processor of a hired event builder. -/
def Staff.Directed (staff : Staff) : Prop :=
  ∃ w ∈ staff.workers, w.kind = .BMDEventBuilderWorker ∧ staff.rec_proc_ptr_ = some w.id

/-- The staff of `n` devices. -/
structure Staff.Complete (staff : Staff) (n : Nat) : Prop where
  workers : staff.workers.map Worker.position = team n
  directed : staff.Directed
  recycled : staff.recycled_containers_fifo_ ≠ none

def Machine.FullyStaffed (m : Machine) : Prop := m.staff.Complete m.ctx.devs_.length

theorem Staff.Directed.valid {m : Machine} (directed : m.staff.Directed) :
    (m.staff.rec_proc_ptr_.map m.hired).getD false = true := by
  obtain ⟨w, member, _, points⟩ := directed
  rw [points]
  exact List.any_eq_true.mpr ⟨w, member, beq_self_eq_true w.id⟩

/-! ## Following a plan -/

/-- The exits of a block that follows a plan: it returns with a request, or with an exception
    the plan foresees, unless the team is complete by then. -/
structure Halts (env : Answers) (plan : List (Option Call)) (x : Exit) (m : Machine) : Prop where
  returned : x = .returned → m.next_ ≠ none
  defined : x ≠ .undefined
  threw : ∀ e, x = .threw e → m.FullyStaffed ∨ Stops env plan e

/-- From context and staff with `P`, the block makes the calls of the plan and ends with `Q`. -/
def Follows {α : Type} (env : Answers) (P : UFEContext → Staff → Prop)
    (plan : List (Option Call)) (p : Hook α) (Q : α → UFEContext → Staff → Prop) : Prop :=
  Meets (fun m => P m.ctx m.staff) p (fun a m => Quiet env plan ∧ Q a m.ctx m.staff)
    (Halts env plan)

section Follows

variable {α β : Type} {env : Answers} {plan later : List (Option Call)} {p : Hook α}
  {P : UFEContext → Staff → Prop}

theorem Follows.bind {Q : α → UFEContext → Staff → Prop} {Q' : β → UFEContext → Staff → Prop}
    {next : α → Hook β} (first : Follows env P plan p Q)
    (rest : ∀ a, Follows env (Q a) later (next a) Q') :
    Follows env P (plan ++ later) (p >>= next) Q' := by
  apply Meets.bind
  · apply first.conseq (fun _ h => h) (fun _ _ h => h)
    intro x m halts
    refine ⟨halts.returned, halts.defined, fun e threw => ?_⟩
    exact (halts.threw e threw).imp_right Stops.append
  intro a
  apply Meets.given
  intro quiet
  apply (rest a).conseq (fun _ h => h)
  · intro b m h
    exact ⟨quiet.append h.1, h.2⟩
  · intro x m halts
    refine ⟨halts.returned, halts.defined, fun e threw => ?_⟩
    exact (halts.threw e threw).imp_right quiet.stops

/-- Statements without calls. -/
theorem Follows.silent {Q : α → UFEContext → Staff → Prop} {Q' : β → UFEContext → Staff → Prop}
    {next : α → Hook β} (first : Follows env P [] p Q)
    (rest : ∀ a, Follows env (Q a) plan (next a) Q') : Follows env P plan (p >>= next) Q' :=
  Follows.bind first rest

theorem Follows.quietly {Q : α → UFEContext → Staff → Prop} {Q' : β → UFEContext → Staff → Prop}
    {next : α → Hook β} (first : Follows env P plan p Q)
    (rest : ∀ a, Follows env (Q a) [] (next a) Q') : Follows env P plan (p >>= next) Q' := by
  have both := first.bind rest
  rwa [List.append_nil] at both

theorem Follows.conseq {P' : UFEContext → Staff → Prop} {Q Q' : α → UFEContext → Staff → Prop}
    (follows : Follows env P plan p Q) (before : ∀ ctx staff, P' ctx staff → P ctx staff)
    (after : ∀ a ctx staff, Q a ctx staff → Q' a ctx staff) : Follows env P' plan p Q' :=
  Meets.conseq follows (fun _ => before _ _) (fun a _ h => ⟨h.1, after a _ _ h.2⟩)
    fun _ _ h => h

theorem Follows.pure {a : α} {Q : α → UFEContext → Staff → Prop}
    (ends : ∀ ctx staff, P ctx staff → Q a ctx staff) : Follows env P [] (Pure.pure a) Q :=
  Meets.pure fun m holds => ⟨quiet_nil, ends m.ctx m.staff holds⟩

theorem Follows.read {f : Machine → α} {Q : α → UFEContext → Staff → Prop}
    (ends : ∀ m, P m.ctx m.staff → Q (f m) m.ctx m.staff) : Follows env P [] (Block.read f) Q :=
  Meets.read fun m holds => ⟨quiet_nil, ends m holds⟩

theorem Follows.update {f : Machine → Machine} {Q : Unit → UFEContext → Staff → Prop}
    (ends : ∀ m, P m.ctx m.staff → Q () (f m).ctx (f m).staff) :
    Follows env P [] (Block.update f) Q :=
  Meets.update fun m holds => ⟨quiet_nil, ends m holds⟩

theorem Follows.call {c : Call} : Follows env P [some c] (call env c) (fun _ => P) := by
  apply call_meets
  · exact fun quiet m holds => ⟨quiet_call quiet, holds⟩
  · intro e loud m _
    refine ⟨nofun, nofun, fun e' same => .inr ?_⟩
    cases same
    exact stops_call loud

/-- A value read from the configuration: the code stops here if it cannot be read. -/
theorem Follows.checked {v : Option α} {next : α → Hook β} {plan : α → List (Option Call)}
    {Q : β → UFEContext → Staff → Prop} (rest : ∀ a, v = some a → Follows env P (plan a) (next a) Q) :
    Follows env P (afterReading v plan) (checked v >>= next) Q := by
  cases v with
  | none => exact fun m _ => ⟨nofun, nofun, nofun⟩
  | some a => exact rest a rfl

theorem Follows.each {xs : List β} {body : β → Hook Unit} {plan : β → List (Option Call)}
    {I : List β → UFEContext → Staff → Prop}
    (keep : ∀ x rest, x :: rest <:+ xs →
      Follows env (I (x :: rest)) (plan x) (body x) (fun _ => I rest)) :
    Follows env (I xs) (xs.flatMap plan) (each xs body) (fun _ => I []) := by
  induction xs with
  | nil => exact Follows.pure fun _ _ holds => holds
  | cons x rest ih =>
      rw [List.flatMap_cons]
      refine Follows.bind (keep x rest List.suffix_rfl) fun _ => ih ?_
      intro y rest' inside
      exact keep y rest' (inside.trans (List.suffix_cons x rest))

theorem Follows.recorder {c : Call} (directed : ∀ ctx staff, P ctx staff → staff.Directed)
    (calls : Follows env P plan (BMDaq.call env c) (fun _ => P)) :
    Follows env P plan (BMDaq.recorder env c) (fun _ => P) := by
  apply Follows.silent (Q := fun valid ctx staff => valid = true ∧ P ctx staff)
  · exact Follows.read fun m holds => ⟨(directed _ _ holds).valid, holds⟩
  intro valid
  apply Meets.given
  intro isValid
  subst isValid
  exact Follows.silent (Follows.pure fun _ _ holds => holds) fun _ => calls

end Follows

/-! ## Configuration and hiring -/

/-- What the plan was drawn up from. -/
structure Given (descriptions : List Json.Value) (doc : Json.Value) (old : Staff)
    (ctx : UFEContext) (staff : Staff) : Prop where
  descriptions : ctx.devs_.map UFEDevice.device_descr_ = descriptions
  doc : ctx.bm_config_doc_ = doc
  staff : staff = old

section Hiring

variable {env : Answers} {descriptions : List Json.Value} {doc : Json.Value} {old : Staff}

theorem map_modify_boards (devs : List UFEDevice) (i : Nat) (boards : List Int) :
    (devs.modify i fun d => { d with boards := boards }).map UFEDevice.device_descr_ =
      devs.map UFEDevice.device_descr_ := by
  induction devs generalizing i with
  | nil => simp
  | cons d rest ih =>
      cases i with
      | zero => simp
      | succ i => simp [ih i]

theorem initDevice_follows (i entry : Nat) :
    Follows env (Given descriptions doc old) [some (.init i entry)] (initDevice env i entry)
      (fun _ => Given descriptions doc old) := by
  apply Follows.quietly Follows.call
  intro _
  apply Follows.update
  intro m given
  refine ⟨?_, given.doc, given.staff⟩
  rw [← given.descriptions]
  exact map_modify_boards ..

theorem configureBoard_follows (i : Nat) (board : Json.Value) (entry : Nat) :
    Follows env (Given descriptions doc old) (BMDStandby.boardPlan env i board entry)
      (BMDStandby.configureBoard env i board entry) (fun _ => Given descriptions doc old) := by
  apply Follows.bind (Q := fun _ => Given descriptions doc old)
  · by_cases shut : env.isOpen i entry = false
    · rw [whenever, if_pos shut, if_pos shut]
      exact initDevice_follows i entry
    · rw [whenever, if_neg shut, if_neg shut]
      exact Follows.pure fun _ _ given => given
  intro _
  apply Follows.checked
  intro board_id _
  apply Follows.checked
  intro file _
  cases file with
  | some file => exact Follows.bind Follows.call fun _ => Follows.call
  | none =>
      apply Follows.checked
      intro file _
      cases file with
      | some file => exact Follows.call
      | none => exact fun m _ => ⟨fun _ => nofun, nofun, nofun⟩

theorem configureDevice_follows (i : Nat) :
    Follows env (Given descriptions doc old)
      (BMDStandby.devicePlan env i (descriptions.getD i .null))
      (BMDStandby.configureDevice env i) (fun _ => Given descriptions doc old) := by
  apply Follows.silent (Q := fun dev ctx staff =>
    dev.device_descr_ = descriptions.getD i .null ∧ Given descriptions doc old ctx staff)
  · apply Follows.read
    intro m given
    refine ⟨?_, given⟩
    rw [← given.descriptions]
    exact (List.getD_map m.ctx.devs_ default UFEDevice.device_descr_).symm
  intro dev
  apply Meets.given
  intro described
  rw [described]
  apply Follows.checked
  intro boards _
  exact Follows.each (I := fun _ => Given descriptions doc old)
    fun entry _ _ => configureBoard_follows i entry.1 entry.2

theorem eachDevice_follows {n : Nat} {body : Nat → Hook Unit} {plan : Nat → List (Option Call)}
    {P : UFEContext → Staff → Prop} {I : List Nat → UFEContext → Staff → Prop}
    (start : ∀ ctx staff, P ctx staff → ctx.devs_.length = n ∧ I (List.range n) ctx staff)
    (keep : ∀ i rest, i :: rest <:+ List.range n →
      Follows env (I (i :: rest)) (plan i) (body i) (fun _ => I rest)) :
    Follows env P ((List.range n).flatMap plan) (eachDevice body) (fun _ => I []) := by
  apply Follows.silent (Q := fun k ctx staff => k = n ∧ I (List.range n) ctx staff)
  · exact Follows.read fun m holds => start _ _ holds
  intro k
  apply Meets.given
  intro same
  subst same
  exact Follows.each keep

theorem configure_follows :
    Follows env (Given descriptions doc old)
      ((List.range descriptions.length).flatMap fun i =>
        BMDStandby.devicePlan env i (descriptions.getD i .null))
      (eachDevice (BMDStandby.configureDevice env)) (fun _ => Given descriptions doc old) := by
  apply eachDevice_follows (I := fun _ => Given descriptions doc old)
  · intro ctx staff given
    refine ⟨?_, given⟩
    rw [← given.descriptions, List.length_map]
  · exact fun i _ _ => configureDevice_follows i

theorem instruct_follows (directed : old.Directed) :
    Follows env (Given descriptions doc old) (BMDStandby.instructPlan doc)
      (BMDStandby.instruct env) (fun _ => Given descriptions doc old) := by
  have recorded (c : Call) : Follows env (Given descriptions doc old) [some c] (recorder env c)
      (fun _ => Given descriptions doc old) :=
    Follows.recorder (fun _ _ given => given.staff ▸ directed) Follows.call
  apply Follows.silent (Q := fun doc' ctx staff => doc' = doc ∧ Given descriptions doc old ctx staff)
  · exact Follows.read fun m given => ⟨given.doc, given⟩
  intro doc'
  apply Meets.given
  intro same
  subst same
  apply Follows.checked
  intro path _
  apply Follows.bind (recorded _)
  intro _
  apply Follows.checked
  intro run _
  apply Follows.bind (recorded _)
  intro _
  apply Follows.checked
  intro limit _
  exact recorded _

theorem addWorker_follows {P : UFEContext → Staff → Prop} (kind : WorkerKind)
    (device : Option Nat) :
    Follows env P [some (.addWorker kind device)] (addWorker env kind device)
      (fun id ctx staff => ∃ before, P ctx before ∧ id = before.hires ∧
        staff = before.hire kind device) := by
  apply Follows.quietly Follows.call
  intro _
  apply Follows.silent (Q := fun id ctx staff => P ctx staff ∧ id = staff.hires)
  · exact Follows.read fun m holds => ⟨holds, rfl⟩
  intro id
  apply Follows.silent (Q := fun _ ctx staff => ∃ before, P ctx before ∧ id = before.hires ∧
    staff = before.hire kind device)
  · exact Follows.update fun m h => ⟨m.staff, h.1, h.2, rfl⟩
  intro _
  exact Follows.pure fun _ _ h => h

theorem addWorker_given (kind : WorkerKind) (device : Option Nat) :
    Follows env (Given descriptions doc old) [some (.addWorker kind device)]
      (addWorker env kind device)
      (fun id ctx staff => id = old.hires ∧
        Given descriptions doc (old.hire kind device) ctx staff) := by
  apply (addWorker_follows kind device).conseq (fun _ _ h => h)
  intro id ctx staff h
  obtain ⟨before, given, hires, hired⟩ := h
  have same := given.staff
  subst same
  exact ⟨hires, given.descriptions, given.doc, hired⟩

/-- The readout workers of the devices `later` are still to be hired. -/
structure Underway (n : Nat) (later : List Nat) (ctx : UFEContext) (staff : Staff) : Prop where
  devices : ctx.devs_.length = n
  workers : staff.workers.map Worker.position ++
    later.map (fun i => (WorkerKind.BMDReadoutWorker, some i)) = team n
  directed : staff.Directed
  recycled : staff.recycled_containers_fifo_ ≠ none

theorem Underway.complete {n : Nat} {m : Machine} (underway : Underway n [] m.ctx m.staff) :
    m.FullyStaffed := by
  refine ⟨?_, underway.directed, underway.recycled⟩
  have workers := underway.workers
  rw [List.map_nil, List.append_nil] at workers
  rw [workers, underway.devices]

theorem Machine.FullyStaffed.underway {m : Machine} (complete : m.FullyStaffed) :
    Underway m.ctx.devs_.length [] m.ctx m.staff := by
  refine ⟨rfl, ?_, complete.directed, complete.recycled⟩
  rw [List.map_nil, List.append_nil]
  exact complete.workers

/-- Rewiring changes no worker's position and no pointer. -/
theorem rewire_underway {n : Nat} {later : List Nat} {ctx : UFEContext} {staff : Staff}
    (id : Nat) {f : Worker → Worker} (keeps : ∀ w, (f w).position = w.position ∧ (f w).id = w.id)
    (underway : Underway n later ctx staff) :
    Underway n later ctx
      { staff with workers := staff.workers.map fun w => if w.id = id then f w else w } := by
  have same (w : Worker) : (if w.id = id then f w else w).position = w.position ∧
      (if w.id = id then f w else w).id = w.id := by
    split
    · exact keeps w
    · exact ⟨rfl, rfl⟩
  refine ⟨underway.devices, ?_, ?_, underway.recycled⟩
  · rw [← underway.workers, List.map_map]
    congr 2
    funext w
    exact (same w).1
  · obtain ⟨w, member, kind, points⟩ := underway.directed
    refine ⟨_, List.mem_map_of_mem member, ?_, ?_⟩
    · exact (congrArg Prod.fst (same w).1).trans kind
    · rw [(same w).2]
      exact points

theorem rewire_follows {n : Nat} {later : List Nat} (id : Nat) {f : Worker → Worker}
    (keeps : ∀ w, (f w).position = w.position ∧ (f w).id = w.id) :
    Follows env (Underway n later) [] (rewire id f) (fun _ => Underway n later) :=
  Follows.update fun _ underway => rewire_underway id keeps underway

theorem hireReadout_follows {n : Nat} {later : List Nat} (recycled raw : Fifo) (i : Nat) :
    Follows env (Underway n (i :: later)) [some (.addWorker .BMDReadoutWorker (some i))]
      (BMDStandby.hireReadout env recycled raw i) (fun _ => Underway n later) := by
  apply Follows.quietly (Q := fun _ => Underway n later)
  · apply (addWorker_follows _ _).conseq (fun _ _ h => h)
    intro id ctx staff h
    obtain ⟨before, underway, -, hired⟩ := h
    subst hired
    refine ⟨underway.devices, ?_, ?_, underway.recycled⟩
    · rw [← underway.workers]
      simp [Staff.hire, Worker.position]
    · obtain ⟨w, member, kind, points⟩ := underway.directed
      exact ⟨w, List.mem_append_left _ member, kind, points⟩
  intro id
  exact rewire_follows id fun _ => ⟨rfl, rfl⟩

theorem addNode_follows {n : Nat} {later : List Nat} (fifo : Fifo) :
    Follows env (Underway n later) [some (.addNode fifo)] (addNode env fifo)
      (fun _ => Underway n later) := by
  apply Follows.quietly Follows.call
  intro _
  apply Follows.update
  intro m underway
  exact ⟨underway.devices, underway.workers, underway.directed, underway.recycled⟩

/-- Statements that keep a complete team and cannot go undefined. -/
def calmFrame : Frame Exit Machine where
  Rel m m' := ∀ n, Underway n [] m.ctx m.staff → Underway n [] m'.ctx m'.staff
  refl _ _ underway := underway
  trans first second n underway := second n (first n underway)
  Exits x := x ≠ .undefined ∧ x ≠ .returned

theorem calmFrame_logs : Logs calmFrame fun _ => True :=
  ⟨fun _ defined other => ⟨defined, other⟩, fun _ _ _ _ underway => underway⟩

theorem addNode_calm (fifo : Fifo) : Within calmFrame (addNode env fifo) := by
  apply Within.bind (call_within calmFrame_logs (.inl rfl))
  intro _
  apply Within.update
  intro _ _ underway
  exact ⟨underway.devices, underway.workers, underway.directed, underway.recycled⟩

/-- With the team complete there is nothing more to plan. -/
theorem Follows.calm {α : Type} {p : Hook α} {n : Nat} (within : Within calmFrame p) :
    Follows env (Underway n []) [] p (fun _ => Underway n []) := by
  have kept := within.keeps (P := fun m => Underway n [] m.ctx m.staff) fun _ _ moved => moved n
  apply kept.conseq (fun _ h => h)
  · exact fun _ m h => ⟨quiet_nil, h⟩
  · exact fun x m h => ⟨fun returned => absurd returned h.2.2, h.2.1, fun _ _ => .inl h.1.complete⟩

/-- The rest of the hiring, from the fifos on. -/
theorem connect_follows {n : Nat} (raw scanned recycled : Fifo) (recorder_ptr : Nat) :
    Follows env (Underway n (List.range n)) (BMDStandby.readoutPlan raw scanned recycled n)
      (do
        each [raw, scanned, recycled] fun fifo => call env (.setMaxSize fifo BMDStandby.maxSize)
        each [recycled, scanned, raw] (addNode env)
        eachDevice (BMDStandby.hireReadout env recycled raw)
        rewire recorder_ptr fun w => { w with inFifo := scanned }
        let stats ← verbose
        call env (.enableStats stats))
      (fun _ => Underway n []) := by
  have readout : Follows env (Underway n (List.range n))
      ((List.range n).flatMap fun i => [some (Call.addWorker .BMDReadoutWorker (some i))])
      (do
        eachDevice (BMDStandby.hireReadout env recycled raw)
        rewire recorder_ptr fun w => { w with inFifo := scanned }
        let stats ← verbose
        call env (.enableStats stats))
      (fun _ => Underway n []) := by
    apply Follows.quietly (eachDevice_follows (I := Underway n)
      (fun _ _ underway => ⟨underway.devices, underway⟩) fun i _ _ => hireReadout_follows _ _ i)
    intro _
    apply Follows.silent (Q := fun _ => Underway n [])
    · exact rewire_follows _ fun _ => ⟨rfl, rfl⟩
    intro _
    apply Follows.silent (Follows.calm (verbose_within calmFrame_logs))
    intro stats
    exact Follows.calm (call_within calmFrame_logs (.inl rfl))
  by_cases without : n = 0
  · subst without
    apply Follows.silent (Follows.calm (Within.each fun _ _ =>
      call_within calmFrame_logs (.inl rfl)))
    intro _
    apply Follows.silent (Follows.calm (Within.each fun fifo _ => addNode_calm fifo))
    intro _
    exact readout
  · rw [BMDStandby.readoutPlan, if_neg without]
    apply Follows.bind (Follows.each (I := fun _ => Underway n (List.range n)) fun _ _ _ =>
      Follows.call)
    intro _
    apply Follows.bind (Follows.each (I := fun _ => Underway n (List.range n)) fun fifo _ _ =>
      addNode_follows fifo)
    intro _
    exact readout

theorem hire_follows (vacant : old.workers = []) :
    Follows env (Given descriptions doc old)
      (BMDStandby.teamPlan doc old.hires descriptions.length)
      (BMDStandby.hire env) (fun _ => Underway descriptions.length []) := by
  let directed : Staff := { (old.hire .BMDDataScannerWorker none).hire .BMDEventBuilderWorker none
    with rec_proc_ptr_ := some (old.hires + 1) }
  have points : directed.Directed :=
    ⟨_, List.mem_append_right _ List.mem_cons_self, rfl, rfl⟩
  apply Follows.bind (addWorker_given _ _)
  intro scanner
  apply Meets.given
  intro same
  subst same
  apply Follows.bind (addWorker_given _ _)
  intro recorder_ptr
  apply Meets.given
  intro same
  subst same
  refine Follows.silent (Follows.update (Q := fun _ => Given descriptions doc directed) ?_) ?_
  · intro m given
    exact ⟨given.descriptions, given.doc, by rw [given.staff]; rfl⟩
  intro _
  apply Follows.bind (instruct_follows points)
  intro _
  have begun (ctx : UFEContext) (staff : Staff) (given : Given descriptions doc directed ctx staff) :
      Underway descriptions.length (List.range descriptions.length) ctx
        { staff with recycled_containers_fifo_ := some (.outFifo (old.hires + 1)) } := by
    have same := given.staff
    subst same
    refine ⟨?_, ?_, points, nofun⟩
    · rw [← given.descriptions, List.length_map]
    · simp [directed, Staff.hire, Worker.position, team, vacant]
  refine Follows.silent (Follows.update (Q := fun _ =>
    Underway descriptions.length (List.range descriptions.length)) ?_) ?_
  · exact fun m given => begun m.ctx m.staff given
  intro _
  exact connect_follows _ _ _ _

/-! ## Entering Standby -/

theorem provide_follows {n : Nat} (xDc : Nat) :
    Follows env (Underway n []) [] (BMDStandby.provide env xDc) (fun _ => Underway n []) := by
  apply Follows.silent (Q := fun fifo ctx staff => fifo ≠ none ∧ Underway n [] ctx staff)
  · exact Follows.read fun m underway => ⟨underway.recycled, underway⟩
  intro fifo
  apply Meets.given
  intro present
  apply Follows.silent (Q := fun _ => Underway n [])
  · rw [whenever, if_neg present]
    exact Follows.pure fun _ _ underway => underway
  intro _
  exact Follows.calm (call_within calmFrame_logs (.inl rfl))

/-- What is done in Standby whatever the old state. -/
theorem prepare_follows {n : Nat} :
    Follows env (Underway n []) []
      (do
        each (List.range BMDStandby.maxSize) (BMDStandby.provide env)
        recorder env .getDataSize
        call env .standbyEntering)
      (fun _ => Underway n []) := by
  have provided : Follows env (Underway n [])
      ((List.range BMDStandby.maxSize).flatMap fun _ => [])
      (each (List.range BMDStandby.maxSize) (BMDStandby.provide env)) (fun _ => Underway n []) :=
    Follows.each (I := fun _ => Underway n []) fun xDc _ _ => provide_follows xDc
  rw [List.flatMap_eq_nil_iff.mpr fun _ _ => rfl] at provided
  apply Follows.silent provided
  intro _
  have calm (c : Call) : Follows env (Underway n []) [] (call env c) (fun _ => Underway n []) :=
    Follows.calm (call_within calmFrame_logs (.inr trivial))
  apply Follows.silent (Follows.recorder (fun _ _ underway => underway.directed) (calm _))
  intro _
  exact calm _

/-- The hook is never left undefined, and the machine rests with a complete team, unless the
    plan ends with an exception that is neither serious nor fatal. -/
theorem entered_staffed {plan : List (Option Call)} {P : UFEContext → Staff → Prop} {n : Nat}
    {body : Hook Unit} (follows : Follows env P plan body (fun _ => Underway n []))
    (foreseen : ∀ e, Stops env plan e → e.severity ≠ .other) :
    Meets (fun m => P m.ctx m.staff)
      (attempt body Exit.UFEError? (bySeverity (pure ()))) (fun _ m => m.FullyStaffed)
      (fun x m => x ≠ .undefined ∧ (x = .returned → m.next_ ≠ none)) := by
  have tried := Meets.conseq follows (fun _ h => h) (fun _ m h => Underway.complete h.2)
    fun _ _ halts => halts
  apply Meets.attempt tried
  · intro x e caught
    have threw := UFEError?_eq_some.mp caught
    apply bySeverity_meets
    · exact fun _ _ _ => ⟨nofun, fun _ => nofun⟩
    · intro _
      apply Meets.bind (Q := fun _ => Halts env plan x)
      · exact Meets.pure fun _ halts => halts
      · exact fun _ _ _ => ⟨nofun, fun _ => nofun⟩
    · intro other m halts
      cases halts.threw e threw with
      | inl complete => exact complete
      | inr stops => exact absurd other (foreseen e stops)
  · exact fun x _ m halts => ⟨halts.defined, halts.returned⟩

/-- Switching on. -/
theorem turnOn_staffed (vacant : old.workers = [])
    (foreseen : ∀ e, firstThrow env (BMDStandby.hiringPlan env descriptions doc old.hires) = some e →
      e.severity ≠ .other) :
    Meets (fun m => Given descriptions doc old m.ctx m.staff)
      (BMDStandby.whenEnteringStateDo env .Idle_s) (fun _ m => m.FullyStaffed)
      (fun x m => x ≠ .undefined ∧ (x = .returned → m.next_ ≠ none)) := by
  have hired : Follows env (Given descriptions doc old)
      (BMDStandby.hiringPlan env descriptions doc old.hires)
      (do eachDevice (BMDStandby.configureDevice env); BMDStandby.hire env)
      (fun _ => Underway descriptions.length []) :=
    Follows.bind configure_follows fun _ => hire_follows vacant
  apply entered_staffed (Follows.quietly hired fun _ => prepare_follows)
  intro e stops
  have first := stops []
  rw [List.append_nil] at first
  exact foreseen e first

/-- Coming back with the team complete. -/
theorem return_staffed {n : Nat} {old_state : fsm_state_t} (away : old_state ≠ .Idle_s) :
    Meets (fun m => Underway n [] m.ctx m.staff)
      (BMDStandby.whenEnteringStateDo env old_state) (fun _ m => m.FullyStaffed)
      (fun x m => x ≠ .undefined ∧ (x = .returned → m.next_ ≠ none)) := by
  have nothing {p : Hook Unit} : Follows env (Underway n []) [] (whenever (old_state = .Idle_s) p)
      (fun _ => Underway n []) := by
    rw [whenever, if_neg away]
    exact Follows.pure fun _ _ underway => underway
  apply entered_staffed (Follows.silent nothing fun _ => prepare_follows)
  intro e stops
  have none := stops []
  cases none

end Hiring

/-! ## The other hooks -/

/-- The staff stays as it is, and so does the number of devices. -/
def staffFrame : Frame Exit Machine where
  Rel m m' := m'.staff = m.staff ∧ m'.ctx.devs_.length = m.ctx.devs_.length
  refl _ := ⟨rfl, rfl⟩
  trans first second := ⟨second.1.trans first.1, second.2.trans first.2⟩
  Exits _ := True

theorem staffFrame_admits : Admits staffFrame fun _ => True where
  exits _ _ _ := trivial
  returns := trivial
  log _ _ _ := ⟨rfl, rfl⟩
  request _ _ _ := ⟨rfl, rfl⟩
  load _ _ := ⟨rfl, rfl⟩
  devices _ _ same := ⟨rfl, same⟩

/-- The start does not touch the staff. -/
def workersFrame : Frame Exit Machine where
  Rel m m' := m'.staff = m.staff
  refl _ := rfl
  trans first second := second.trans first
  Exits _ := True

theorem workersFrame_admits : Admits workersFrame fun _ => True where
  exits _ _ _ := trivial
  returns := trivial
  log _ _ _ := rfl
  request _ _ _ := rfl
  load _ _ := rfl
  devices _ _ _ := rfl

theorem workersFrame_resize : AdmitsResize workersFrame := fun _ _ => rfl

/-- Outside Standby no hook has anything to dereference. -/
def definedFrame : Frame Exit Machine where
  Rel _ _ := True
  refl _ := trivial
  trans _ _ := trivial
  Exits x := x ≠ .undefined

theorem definedFrame_admits : Admits definedFrame fun _ => True where
  exits _ defined _ := defined
  returns := nofun
  log _ _ _ := trivial
  request _ _ _ := trivial
  load _ _ := trivial
  devices _ _ _ := trivial

theorem dismissAll_vacant {env : Answers} :
    Meets (fun _ => True) (dismissAll env) (fun _ m => m.staff.workers = [])
      (fun x _ => ∃ e, x = .threw e) := by
  have called (c : Call) {P : Machine → Prop} (blind : ∀ m, P m → P { m with log := m.log ++ [c] }) :
      Meets P (call env c) (fun _ => P) (fun x _ => ∃ e, x = .threw e) := by
    apply call_meets
    · exact fun _ => blind
    · exact fun e _ _ _ => ⟨e, rfl⟩
  apply Meets.bind (called _ fun _ _ => trivial)
  intro _
  apply Meets.bind (Q := fun _ m => m.staff.workers = [])
  · exact Meets.update fun _ _ => rfl
  intro _
  apply Meets.bind (called _ fun _ vacant => vacant)
  intro _
  exact Meets.update fun _ vacant => vacant

/-! ## Runs -/

namespace Machine

variable {m : Machine} {t : Turn} {s : fsm_state_t}

/-- A turn that switches the machine on and leaves it with half a team: before all workers are
    hired, a call throws an exception that is neither serious nor fatal. -/
def Understaffs (m : Machine) (t : Turn) : Prop :=
  m.life = .running ∧ m.state_ = .Idle_s ∧ m.target t.command = some .Standby_s ∧
    ∃ e, firstThrow t.entering (BMDStandby.hiringPlan t.entering
      (m.ctx.devs_.map UFEDevice.device_descr_) m.ctx.bm_config_doc_ m.staff.hires) = some e ∧
      e.severity = .other

/-- The staff that goes with a state. In Standby a machine that is not at rest may be short. -/
def Suits (m : Machine) : fsm_state_t → Prop
  | .Undefined_s | .Idle_s => m.staff.workers = []
  | .Standby_s => m.FullyStaffed ∨ m.next_ ≠ none
  | .Active_s => m.FullyStaffed
  | .Failure_s | .FatalError_s => True

structure Manned (m : Machine) : Prop where
  pending : m.Pending
  defined : m.life ≠ .undefined
  suits : m.life = .running → m.Suits m.state_

theorem boot_manned : boot.Manned := ⟨boot_pending, nofun, fun _ => rfl⟩

/-- A state of rest is left, or repeated, only by command. -/
theorem Pending.rest {command : Option fsm_state_t} (pending : m.Pending)
    (toward : m.target command = some s)
    (chosen : s = .Standby_s ∨ s = .Active_s ∨ s = .Undefined_s) : m.next_ = none := by
  cases target_eq toward with
  | inr commanded => exact commanded.1
  | inl requested =>
      obtain ⟨start, _⟩ | rest | failure | fatal := pending
      · rw [start] at requested
        cases requested
        simp at chosen
      · exact rest
      · rw [failure] at requested
        cases requested
        simp at chosen
      · rw [fatal] at requested
        cases requested
        simp at chosen

/-- Standby is left, or repeated, at rest with the whole team, unless the change was requested. -/
theorem Manned.complete (manned : m.Manned) (alive : m.life = .running)
    (standby : m.state_ = .Standby_s) (toward : m.target t.command = some s)
    (chosen : s = .Standby_s ∨ s = .Active_s ∨ s = .Undefined_s) : m.FullyStaffed := by
  have suits := manned.suits alive
  rw [standby] at suits
  cases suits with
  | inl complete => exact complete
  | inr pending => exact absurd (manned.pending.rest toward chosen) pending

theorem FullyStaffed.of_same {m' : Machine} (complete : m.FullyStaffed)
    (moved : staffFrame.Rel m m') : m'.FullyStaffed := by
  unfold FullyStaffed
  rw [moved.1, moved.2]
  exact complete

theorem execute_same {hook : Hook Unit} (within : Within staffFrame hook) :
    staffFrame.Rel m (m.execute hook) := by
  have moved := within.rel m
  exact ⟨(execute_staff m hook).trans moved.1, by rw [execute_ctx]; exact moved.2⟩

theorem execute_safe {hook : Hook Unit} (within : Within definedFrame hook)
    (alive : (hook m).state.life = .running) : (m.execute hook).life ≠ .undefined := by
  have kept := within.keeps (P := fun _ => True) fun _ _ _ h => h
  exact execute_defined kept trivial alive fun _ h => h.2 rfl

/-- Outside Standby only the staff matters. -/
theorem Suits.of_same {m' : Machine} (suits : m.Suits s) (away : s ≠ .Standby_s)
    (moved : staffFrame.Rel m m') : m'.Suits s := by
  cases s with
  | Standby_s => exact absurd rfl away
  | Active_s => exact FullyStaffed.of_same suits moved
  | Undefined_s => exact (congrArg Staff.workers moved.1).trans suits
  | Idle_s => exact (congrArg Staff.workers moved.1).trans suits
  | Failure_s => exact trivial
  | FatalError_s => exact trivial

/-- At rest in Standby, the pointer to the event builder can be followed. -/
theorem repeat_standby (env : Answers) (complete : m.FullyStaffed) (alive : m.life = .running) :
    let m' := m.execute (BMDStandby.whenSameStateDo env)
    m'.life ≠ .undefined ∧ (m'.life = .running → m'.Suits .Standby_s) := by
  intro m'
  have follows : Follows env (Underway m.ctx.devs_.length []) []
      (BMDStandby.whenSameStateDo env) (fun _ => Underway m.ctx.devs_.length []) :=
    Follows.recorder (fun _ _ underway => underway.directed)
      (Follows.calm (call_within calmFrame_logs (.inl rfl)))
  have life : (BMDStandby.whenSameStateDo env m).state.life = .running :=
    (same_steady env .Standby_s m).life.trans alive
  constructor
  · exact execute_defined follows complete.underway life fun _ halts => halts.defined rfl
  · intro survived
    cases execute_meets follows complete.underway survived with
    | inl ended => exact .inl ended.2.complete
    | inr halts => exact .inr (halts.returned rfl)

theorem leave_defined (alive : m.life = .running) : (m.leave s t).life ≠ .undefined := by
  unfold leave
  apply execute_safe
  · exact whenLeavingStateDo_within definedFrame_admits s (fun _ => trivial) (fun _ => trivial)
      fun _ _ _ => trivial
  · exact (leaving_steady t.leaving m.state_ s { m with next_ := none }).life.trans alive

/-- The leaving hooks of Failure, and of Standby towards Idle, dismiss everybody. -/
theorem leave_dismissed (off : m.state_ = .Failure_s ∨ (m.state_ = .Standby_s ∧ s = .Idle_s))
    (survived : (m.leave s t).life = .running) : (m.leave s t).staff.workers = [] := by
  have hook : BMDaq.whenLeavingStateDo t.leaving m.state_ s = dismissAll t.leaving := by
    cases off with
    | inl failure =>
        rw [failure]
        rfl
    | inr standby =>
        rw [standby.1, standby.2]
        rfl
  unfold leave at survived ⊢
  rw [hook] at survived ⊢
  cases execute_meets (m := { m with next_ := none }) dismissAll_vacant trivial survived with
  | inl vacant => exact vacant
  | inr threw =>
      obtain ⟨e, impossible⟩ := threw
      cases impossible

/-- The other leaving hooks leave the staff alone. -/
theorem leave_same (on : m.state_ ≠ .Failure_s ∧ ¬(m.state_ = .Standby_s ∧ s = .Idle_s)) :
    staffFrame.Rel m (m.leave s t) := by
  have within : Within staffFrame (BMDaq.whenLeavingStateDo t.leaving m.state_ s) := by
    by_cases standby : m.state_ = .Standby_s
    · have still : BMDaq.whenLeavingStateDo t.leaving m.state_ s = pure () := by
        rw [standby]
        exact if_neg fun idle => on.2 ⟨standby, idle⟩
      rw [still]
      exact Within.pure ()
    · apply whenLeavingStateDo_within staffFrame_admits s (fun _ => trivial) (fun _ => trivial)
      intro off
      cases off with
      | inl here => exact absurd here standby
      | inr failure => exact absurd failure on.1
  exact execute_same (m := { m with next_ := none }) within

/-- What an entering hook relies on when it comes from the state `old`. -/
def Ready (m : Machine) (old : fsm_state_t) : fsm_state_t → Prop
  | .Idle_s | .Undefined_s => m.staff.workers = []
  | .Active_s => m.FullyStaffed
  | .Standby_s => old = .Idle_s ∨ m.FullyStaffed
  | .Failure_s | .FatalError_s => True

theorem leave_ready (manned : m.Manned) (alive : m.life = .running)
    (toward : m.target t.command = some s) (other : s ≠ m.state_)
    (survived : (m.leave s t).life = .running) : (m.leave s t).Ready m.state_ s := by
  have suits := manned.suits alive
  have route := manned.pending.route toward other
  generalize old : m.state_ = s' at route suits
  cases route with
  | failure => exact trivial
  | fatal => exact trivial
  | on => exact .inl rfl
  | start => exact (congrArg Staff.workers (leave_same (by simp [old])).1).trans suits
  | exit => exact (congrArg Staff.workers (leave_same (by simp [old])).1).trans suits
  | off => exact leave_dismissed (.inr ⟨old, rfl⟩) survived
  | recover => exact leave_dismissed (.inl old) survived
  | stop => exact .inr (FullyStaffed.of_same suits (leave_same (by simp [old])))
  | run =>
      have complete := manned.complete alive old toward (.inr (.inl rfl))
      exact FullyStaffed.of_same complete (leave_same (by simp [old]))

/-- Entering Standby, switched on or with the team that is there. -/
theorem enter_standby (manned : m.Manned) (alive : m.life = .running)
    (toward : m.target t.command = some .Standby_s) (staffs : ¬m.Understaffs t)
    (ready : (m.leave .Standby_s t).Ready m.state_ .Standby_s) :
    Meets (fun m' => m' = (m.leave .Standby_s t).moveTo .Standby_s)
      (BMDStandby.whenEnteringStateDo t.entering m.state_) (fun _ m => m.FullyStaffed)
      (fun x m => x ≠ .undefined ∧ (x = .returned → m.next_ ≠ none)) := by
  by_cases idle : m.state_ = .Idle_s
  · have left := leave_idle idle (s := .Standby_s) (by simp) t
    rw [idle]
    have vacant : m.staff.workers = [] := by
      have suits := manned.suits alive
      rwa [idle] at suits
    have foreseen : ∀ e, firstThrow t.entering (BMDStandby.hiringPlan t.entering
        (m.ctx.devs_.map UFEDevice.device_descr_) m.ctx.bm_config_doc_ m.staff.hires) = some e →
        e.severity ≠ .other :=
      fun e threw other => staffs ⟨alive, idle, toward, e, threw, other⟩
    apply (turnOn_staffed vacant foreseen).pre
    intro m' same
    subst same
    rw [left]
    exact ⟨rfl, rfl, rfl⟩
  · cases ready with
    | inl here => exact absurd here idle
    | inr complete =>
        apply (return_staffed (n := (m.leave .Standby_s t).ctx.devs_.length) idle).pre
        intro m' same
        subst same
        exact complete.underway

/-- What the entering hook of `s` leaves behind. -/
theorem enter_suits (manned : m.Manned) (alive : m.life = .running)
    (toward : m.target t.command = some s) (other : s ≠ m.state_) (staffs : ¬m.Understaffs t)
    (survived : (m.leave s t).life = .running) :
    let m' := ((m.leave s t).moveTo s).execute
      (BMDaq.whenEnteringStateDo t.entering s m.state_)
    m'.life ≠ .undefined ∧ (m'.life = .running → m'.Suits s) := by
  intro m'
  have ready := leave_ready manned alive toward other survived
  have life : (BMDaq.whenEnteringStateDo t.entering s m.state_
      ((m.leave s t).moveTo s)).state.life = .running :=
    (entering_steady ..).life.trans survived
  by_cases standby : s = .Standby_s
  · subst standby
    have met := enter_standby manned alive toward staffs ready
    constructor
    · exact execute_defined met rfl life fun _ h => h.1 rfl
    · intro alive'
      cases execute_meets met rfl alive' with
      | inl complete => exact .inl complete
      | inr returned => exact .inr (returned.2 rfl)
  · have within : Within definedFrame (BMDaq.whenEnteringStateDo t.entering s m.state_) :=
      whenEnteringStateDo_within definedFrame_admits m.state_ (fun _ => trivial) (fun _ => trivial)
        (fun here => absurd here standby) fun _ _ _ => trivial
    refine ⟨execute_safe within life, fun _ => ?_⟩
    cases s with
    | Standby_s => exact absurd rfl standby
    | Failure_s => exact trivial
    | FatalError_s => exact trivial
    | Undefined_s => exact ready
    | Active_s =>
        have within : Within staffFrame (BMDActive.whenEnteringStateDo t.entering) :=
          BMDActive.whenEnteringStateDo_within staffFrame_admits trivial
        have moved := execute_same (m := (m.leave .Active_s t).moveTo .Active_s) within
        exact FullyStaffed.of_same (m := (m.leave .Active_s t).moveTo .Active_s) ready moved
    | Idle_s =>
        have within : Within workersFrame (BMDIdle.whenEnteringStateDo t.entering m.state_) :=
          BMDIdle.whenEnteringStateDo_within workersFrame_admits trivial workersFrame_resize m.state_
        have moved := within.rel ((m.leave .Idle_s t).moveTo .Idle_s)
        have staff := (execute_staff _ _).trans moved
        exact (congrArg Staff.workers staff).trans ready

theorem turn_manned (manned : m.Manned) (staffs : ¬m.Understaffs t) : (m.turn t).Manned := by
  have pending := turn_pending t manned.pending
  have turned := turned m t
  generalize m.turn t = m' at turned pending
  cases turned with
  | ignored => exact manned
  | repeated alive toward =>
      have state := repeated_state_ t.entering m.state_ { m with next_ := none }
      have suits := manned.suits alive
      by_cases standby : m.state_ = .Standby_s
      · have complete := manned.complete alive standby toward (.inl standby)
        have both := repeat_standby (m := { m with next_ := none }) t.entering complete alive
        have hook : BMDaq.whenSameStateDo t.entering m.state_ =
            BMDStandby.whenSameStateDo t.entering := by
          rw [standby]
          rfl
        refine ⟨pending, ?_, fun survived => ?_⟩
        · rw [hook]
          exact both.1
        · rw [state]
          rw [hook] at survived ⊢
          simpa only [standby] using both.2 survived
      · have within {F : Frame Exit Machine} (admits : Admits F fun _ => True) :
            Within F (BMDaq.whenSameStateDo t.entering m.state_) :=
          whenSameStateDo_within admits (fun _ => trivial) fun here => absurd here standby
        refine ⟨pending, execute_safe (within definedFrame_admits) ?_, fun _ => ?_⟩
        · exact (same_steady ..).life.trans alive
        · rw [state]
          have called : Suits { m with next_ := none } m.state_ :=
            Suits.of_same suits standby ⟨rfl, rfl⟩
          exact called.of_same standby (execute_same (within staffFrame_admits))
  | @died s alive toward other dead =>
      exact ⟨pending, leave_defined alive, fun survived => absurd survived dead⟩
  | @changed s alive toward other survived =>
      have entered := enter_suits manned alive toward other staffs survived
      have state := entered_state_ t.entering s m.state_ (m.leave s t)
      exact ⟨pending, entered.1, fun alive' => state.symm ▸ entered.2 alive'⟩

end Machine

open Machine in
/-- In a run that is never left with half a team, a machine at rest has the complete team in
    Standby and Active and nobody in Idle, and no hook dereferences a null pointer or one to a
    dismissed worker. -/
theorem standby_staffed {turns : List Turn}
    (staffs : ∀ p t, p ++ [t] <+: turns → ¬(after p).Understaffs t) {p : List Turn}
    (inside : p <+: turns) :
    (after p).life ≠ .undefined ∧ ((after p).AtRest →
      ((after p).state_ = .Standby_s ∨ (after p).state_ = .Active_s → (after p).FullyStaffed) ∧
      ((after p).state_ = .Idle_s → (after p).staff.workers = [])) := by
  have manned := after_invariant Manned Understaffs boot_manned (fun _ _ => turn_manned) staffs
    inside
  refine ⟨manned.defined, fun rests => ⟨fun inside => ?_, fun idle => ?_⟩⟩
  · have suits := manned.suits rests.1
    cases inside with
    | inl standby =>
        rw [standby] at suits
        cases suits with
        | inl complete => exact complete
        | inr pending => exact absurd rests.2 pending
    | inr active => rwa [active] at suits
  · have suits := manned.suits rests.1
    rwa [idle] at suits

theorem firstThrow_smooth (ids : List Int) (plan : List (Option Call)) :
    firstThrow (.smooth ids) plan = none := by
  induction plan with
  | nil => rfl
  | cons c rest ih =>
      cases c with
      | none => rfl
      | some c => exact ih

theorem firstThrow_threw {env : Answers} {plan : List (Option Call)} {e : UFEError}
    (threw : firstThrow env plan = some e) : ∃ c, env.throws c = some e := by
  induction plan with
  | nil => cases threw
  | cons c rest ih =>
      cases c with
      | none => cases threw
      | some c =>
          unfold firstThrow at threw
          split at threw
          · next e' here =>
              obtain rfl := Option.some.inj threw
              exact ⟨c, here⟩
          · exact ih threw

/-- The second readout worker cannot be hired, and the machine has gone to Failure. -/
def sampleFailure : List Turn :=
  [.own (.smooth [3, 5]),
    .to .Standby_s ((Answers.smooth [3, 5]).failing (.addWorker .BMDReadoutWorker (some 1)) .SERIOUS),
    .own (.smooth [3, 5])]

/-- `sampleFailure`, and the machine is turned off and on again. -/
def sampleRecovery : List Turn :=
  sampleFailure ++ [.to .Idle_s (.smooth [3, 5]), .to .Standby_s (.smooth [3, 5])]

theorem standby_staffed_recovery :
    (Machine.after sampleRecovery).life ≠ .undefined ∧ (Machine.after sampleRecovery).AtRest ∧
      (Machine.after sampleRecovery).state_ = .Standby_s ∧
      (Machine.after sampleRecovery).FullyStaffed := by
  have rests : (Machine.after sampleRecovery).AtRest := by constructor <;> decide +kernel
  have standby : (Machine.after sampleRecovery).state_ = .Standby_s := by decide +kernel
  have staffs : ∀ p t, p ++ [t] <+: sampleRecovery → ¬(Machine.after p).Understaffs t := by
    intro p t inside short
    obtain ⟨-, -, -, e, threw, other⟩ := short
    have member := inside.subset (List.mem_append_right p List.mem_cons_self)
    simp only [sampleRecovery, sampleFailure, List.cons_append, List.nil_append, List.mem_cons,
      List.not_mem_nil, or_false] at member
    obtain ⟨c, threw⟩ := firstThrow_threw threw
    obtain rfl | rfl | rfl | rfl | rfl := member
    · cases threw
    · -- the only call that throws does so seriously
      simp only [Turn.to, Answers.failing, Answers.smooth] at threw
      split at threw
      · obtain rfl := Option.some.inj threw
        cases other
      · cases threw
    · cases threw
    · cases threw
    · cases threw
  obtain ⟨defined, manned⟩ := standby_staffed staffs List.prefix_rfl
  exact ⟨defined, rests, standby, (manned rests).1 (.inl standby)⟩

open Machine in
/-- A configuration that fails neither seriously nor fatally leaves the machine at rest in
    Standby without any worker, and the next command for Standby calls through a null pointer. -/
theorem standby_understaffed :
    let short := after [.own (.smooth [3]), .to .Standby_s ((Answers.smooth [3]).failing
      (.configFromJson 0 0 3 "/conf/GTrig_only_config2.json") .other)]
    short.AtRest ∧ short.state_ = .Standby_s ∧ short.staff.workers = [] ∧
      short.staff.rec_proc_ptr_ = none ∧
      (short.turn (.to .Standby_s (.smooth [3]))).life = .undefined := by
  refine ⟨⟨?_, ?_⟩, ?_, ?_, ?_, ?_⟩ <;> decide +kernel

end BMDaq
