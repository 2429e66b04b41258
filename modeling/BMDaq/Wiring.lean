import BMDaq.Staffing
import BMDaq.Pipeline

/-! # The wiring of the team

The hiring hook connects the fifos of the workers one by one, between calls that may throw.
Whatever has been thrown, and however often the machine has been switched, a team that is
complete is also connected: its fifos form the ring that the pipeline runs on.
-/

namespace BMDaq

open Block

/-- The workers hired so far: the scanner, the event builder and `k` readout workers. -/
def crew (h k : Nat) (recorderIn : Fifo) : List Worker :=
  ⟨h, .BMDDataScannerWorker, none, .inFifo h, .outFifo h⟩ ::
    ⟨h + 1, .BMDEventBuilderWorker, none, recorderIn, .outFifo (h + 1)⟩ ::
      (List.range k).map fun i =>
        ⟨h + 2 + i, .BMDReadoutWorker, some i, .outFifo (h + 1), .inFifo h⟩

theorem crew_succ (h k : Nat) (recorderIn : Fifo) :
    crew h (k + 1) recorderIn = crew h k recorderIn ++
      [⟨h + 2 + k, .BMDReadoutWorker, some k, .outFifo (h + 1), .inFifo h⟩] := by
  simp [crew, List.range_succ]

theorem crew_length (h k : Nat) (recorderIn : Fifo) : (crew h k recorderIn).length = k + 2 := by
  simp [crew]

/-- The nodes in the order in which they are added. -/
def ringFifos (h : Nat) : List Fifo := [.outFifo (h + 1), .outFifo h, .inFifo h]

/-- The staff of `n` devices, connected; the scanner is worker number `h`. -/
structure Staff.Wired (staff : Staff) (h n : Nat) : Prop where
  workers : staff.workers = crew h n (.outFifo h)
  recycled : staff.recycled_containers_fifo_ = some (.outFifo (h + 1))
  recorder : staff.rec_proc_ptr_ = some (h + 1)
  nodes : ringFifos h <:+ staff.nodes

/-- The readout workers of a connected team. -/
def readoutWorkers (h n : Nat) : List Worker :=
  (List.range n).map fun i => ⟨h + 2 + i, .BMDReadoutWorker, some i, .outFifo (h + 1), .inFifo h⟩

theorem Staff.Wired.ring {staff : Staff} {h n : Nat} (wired : staff.Wired h n) :
    staff.Ring h (h + 1) (readoutWorkers h n) where
  workers := wired.workers
  filling := by
    intro w member
    obtain ⟨i, -, rfl⟩ := List.mem_map.mp member
    exact ⟨rfl, rfl, rfl⟩
  ids := by
    have distinct : ((readoutWorkers h n).map Worker.id).Nodup := by
      rw [readoutWorkers, List.map_map]
      apply List.Nodup.map _ List.nodup_range
      intro i j same
      simpa using same
    simp only [List.nodup_cons, List.mem_cons, List.mem_map, readoutWorkers] at distinct ⊢
    grind

/-- A complete team of some devices is connected. -/
def Machine.Ringed (m : Machine) : Prop :=
  m.FullyStaffed → m.ctx.devs_.length ≠ 0 → ∃ h, m.staff.Wired h m.ctx.devs_.length

section Ringed

variable {m m' : Machine}

theorem Machine.FullyStaffed.length (complete : m.FullyStaffed) :
    m.staff.workers.length = m.ctx.devs_.length + 2 := by
  have positions := congrArg List.length complete.workers
  simpa [team] using positions

/-- A team that is too small need not be connected. -/
theorem ringed_of_short {n k : Nat} (devices : m.ctx.devs_.length = n)
    (few : m.staff.workers.length = k) (short : n ≠ 0 → k < n + 2) : m.Ringed := by
  intro complete some
  have whole := complete.length
  have fewer := short (devices ▸ some)
  omega

theorem Machine.Ringed.of_same (ringed : m.Ringed) (moved : staffFrame.Rel m m') : m'.Ringed := by
  unfold Machine.Ringed Machine.FullyStaffed
  rw [moved.1, moved.2]
  exact ringed

/-- Statements that leave the staff alone keep it connected. -/
theorem ringed_stays {α : Type} {p : Hook α} (within : Within staffFrame p) :
    Meets Machine.Ringed p (fun _ => Machine.Ringed) (fun _ => Machine.Ringed) :=
  within.stays fun _ _ moved ringed => ringed.of_same moved

end Ringed

/-! ## Hiring -/

/-- The number of devices, and a condition on the staff. -/
def Stage (n : Nat) (S : Staff → Prop) (m : Machine) : Prop := m.ctx.devs_.length = n ∧ S m.staff

/-- The team is being put together: `k` readout workers have been hired, and the fifos `later`
    are still to be made nodes. The event builder has the fifos it was hired with. -/
structure Staff.Assembling (h k : Nat) (later : List Fifo) (staff : Staff) : Prop where
  workers : staff.workers = crew h k (.inFifo (h + 1))
  hires : staff.hires = h + 2 + k
  recycled : staff.recycled_containers_fifo_ = some (.outFifo (h + 1))
  recorder : staff.rec_proc_ptr_ = some (h + 1)
  nodes : ringFifos h <:+ staff.nodes ++ later

section Hiring

variable {env : Answers} {h n : Nat} {S : Staff → Prop}

/-- Fewer workers than a team of `n` devices has. -/
def Short (n : Nat) (S : Staff → Prop) : Prop :=
  ∀ staff, S staff → n ≠ 0 → staff.workers.length < n + 2

theorem Short.ringed {m : Machine} (short : Short n S) (stage : Stage n S m) : m.Ringed :=
  ringed_of_short stage.1 rfl (short m.staff stage.2)

/-- Statements that leave the staff alone, while the team is short. -/
theorem stage_stays {α : Type} {p : Hook α} (within : Within staffFrame p) (short : Short n S) :
    Meets (Stage n S) p (fun _ => Stage n S) (fun _ => Machine.Ringed) := by
  have stays := within.stays (P := Stage n S) fun m m' moved stage =>
    ⟨moved.2.trans stage.1, moved.1.symm ▸ stage.2⟩
  exact stays.conseq (fun _ h => h) (fun _ _ h => h) fun _ _ stage => short.ringed stage

theorem stage_update {T : Staff → Prop} {f : Staff → Staff} (next : ∀ staff, S staff → T (f staff)) :
    Meets (Stage n S) (update fun m => { m with staff := f m.staff } : Hook Unit)
      (fun _ => Stage n T) (fun _ => Machine.Ringed) :=
  Meets.update fun m stage => ⟨stage.1, next m.staff stage.2⟩

theorem stage_rewire {T : Staff → Prop} {id : Nat} {f : Worker → Worker}
    (next : ∀ staff, S staff →
      T { staff with workers := staff.workers.map fun w => if w.id = id then f w else w }) :
    Meets (Stage n S) (rewire id f) (fun _ => Stage n T) (fun _ => Machine.Ringed) :=
  Meets.update fun m stage => ⟨stage.1, next m.staff stage.2⟩

/-- A worker is hired, or nothing has changed. -/
theorem stage_addWorker {T : Nat → Staff → Prop} {kind : WorkerKind} {device : Option Nat}
    (short : Short n S) (next : ∀ staff, S staff → T staff.hires (staff.hire kind device)) :
    Meets (Stage n S) (addWorker env kind device) (fun id => Stage n (T id))
      (fun _ => Machine.Ringed) := by
  apply Meets.bind (stage_stays (call_within staffFrame_admits.toLogs (.inl rfl)) short)
  intro _
  apply Meets.bind (Q := fun id m => Stage n S m ∧ id = m.staff.hires)
  · exact Meets.read fun m stage => ⟨stage, rfl⟩
  intro id
  apply Meets.bind (Q := fun _ => Stage n (T id))
  · apply Meets.update
    intro m here
    obtain ⟨⟨devices, holds⟩, rfl⟩ := here
    exact ⟨devices, next m.staff holds⟩
  intro _
  exact Meets.pure fun _ stage => stage

theorem assembling_short {k : Nat} (later : List Fifo) (missing : n ≠ 0 → k < n) :
    Short n (Staff.Assembling h k later) := by
  intro staff assembling some
  have fewer := missing some
  rw [assembling.workers, crew_length]
  omega

/-- Connecting a worker that has just been hired. -/
theorem rewire_last {ws : List Worker} {w : Worker} {f : Worker → Worker}
    (fresh : ∀ w' ∈ ws, w'.id ≠ w.id) :
    (ws ++ [w]).map (fun w' => if w'.id = w.id then f w' else w') = ws ++ [f w] := by
  have others : ws.map (fun w' => if w'.id = w.id then f w' else w') = ws := by
    conv_rhs => rw [← List.map_id ws]
    apply List.map_congr_left
    intro w' member
    exact if_neg (fresh w' member)
  rw [List.map_append, others, List.map_singleton, if_pos rfl]

theorem crew_ids {h k : Nat} {recorderIn : Fifo} {w : Worker} (member : w ∈ crew h k recorderIn) :
    w.id < h + 2 + k := by
  simp only [crew, List.mem_cons, List.mem_map, List.mem_range] at member
  obtain rfl | rfl | ⟨i, before, rfl⟩ := member
  · show h < h + 2 + k
    omega
  · show h + 1 < h + 2 + k
    omega
  · show h + 2 + i < h + 2 + k
    omega

/-- One more readout worker, connected. -/
theorem hireReadout_meets {k : Nat} (missing : k < n) :
    Meets (Stage n (Staff.Assembling h k []))
      (BMDStandby.hireReadout env (.outFifo (h + 1)) (.inFifo h) k)
      (fun _ => Stage n (Staff.Assembling h (k + 1) [])) (fun _ => Machine.Ringed) := by
  apply Meets.bind (stage_addWorker (T := fun id staff => id = h + 2 + k ∧
    ∃ before : Staff, before.Assembling h k [] ∧ staff = before.hire .BMDReadoutWorker (some k))
    (assembling_short [] fun _ => missing)
    fun staff assembling => ⟨assembling.hires, staff, assembling, rfl⟩)
  intro id
  apply stage_rewire
  intro staff hired
  obtain ⟨rfl, before, assembling, rfl⟩ := hired
  obtain ⟨workers, hires, recycled, recorder, nodes⟩ := assembling
  refine ⟨?_, by simp only [Staff.hire, hires]; rfl, recycled, recorder, nodes⟩
  simp only [Staff.hire, hires, workers]
  rw [crew_succ]
  exact rewire_last (w := ⟨h + 2 + k, .BMDReadoutWorker, some k, .inFifo (h + 2 + k),
    .outFifo (h + 2 + k)⟩) fun w member => (crew_ids member).ne

theorem addNode_meets {k : Nat} {fifo : Fifo} {later : List Fifo} (missing : n ≠ 0 → k < n) :
    Meets (Stage n (Staff.Assembling h k (fifo :: later))) (addNode env fifo)
      (fun _ => Stage n (Staff.Assembling h k later)) (fun _ => Machine.Ringed) := by
  have short := assembling_short (h := h) (fifo :: later) missing
  apply Meets.bind (stage_stays (call_within staffFrame_admits.toLogs (.inl rfl)) short)
  intro _
  apply stage_update (f := fun staff => { staff with nodes := staff.nodes ++ [fifo] })
  intro staff assembling
  obtain ⟨workers, hires, recycled, recorder, nodes⟩ := assembling
  exact ⟨workers, hires, recycled, recorder, by rwa [List.append_assoc]⟩

/-- The event builder is connected last. -/
theorem rewire_recorder (h n : Nat) :
    (crew h n (.inFifo (h + 1))).map
      (fun w => if w.id = h + 1 then { w with inFifo := .outFifo h } else w) =
      crew h n (.outFifo h) := by
  have readouts : ∀ i, ¬h + 2 + i = h + 1 := fun i => by omega
  simp [crew, readouts]

/-- The rest of the hiring, from the fifos on. -/
theorem connect_meets :
    Meets (Stage n (Staff.Assembling h 0 (ringFifos h)))
      (do
        each [.inFifo h, .outFifo h, .outFifo (h + 1)] fun fifo =>
          call env (.setMaxSize fifo BMDStandby.maxSize)
        each [.outFifo (h + 1), .outFifo h, .inFifo h] (addNode env)
        eachDevice (BMDStandby.hireReadout env (.outFifo (h + 1)) (.inFifo h))
        rewire (h + 1) fun w => { w with inFifo := .outFifo h }
        let stats ← verbose
        call env (.enableStats stats))
      (fun _ => Machine.Ringed) (fun _ => Machine.Ringed) := by
  have none : n ≠ 0 → 0 < n := Nat.pos_of_ne_zero
  apply Meets.bind
  · apply stage_stays (Within.each fun _ _ => call_within staffFrame_admits.toLogs (.inl rfl))
    exact assembling_short _ none
  intro _
  apply Meets.bind (Meets.each (I := fun later => Stage n (Staff.Assembling h 0 later))
    fun fifo later _ => addNode_meets none)
  intro _
  apply Meets.bind (Q := fun _ => Stage n (Staff.Assembling h n []))
  · -- the loop has hired a worker for every device that is not among those to come
    apply eachDevice_meets (n := n)
      (I := fun later => Stage n (Staff.Assembling h (n - later.length) []))
    · intro m stage
      exact ⟨stage.1, by simpa using stage⟩
    · intro i later inside
      obtain ⟨done, whole⟩ := inside
      have counted := congrArg List.length whole
      simp only [List.length_append, List.length_cons, List.length_range] at counted
      have here : i = n - (later.length + 1) := by
        have found : (done ++ i :: later)[done.length]? = some i := by simp
        rw [whole, List.getElem?_range (by omega)] at found
        simp only [Option.some.injEq] at found
        omega
      have next : n - later.length = i + 1 := by omega
      simp only [List.length_cons, next, ← here]
      exact hireReadout_meets (by omega)
  intro _
  apply Meets.bind (Q := fun _ => Machine.Ringed)
  · apply (stage_rewire (T := fun staff => staff.Wired h n) ?_).conseq (fun _ h => h) ?_
      (fun _ _ h => h)
    · intro staff assembling
      obtain ⟨workers, hires, recycled, recorder, nodes⟩ := assembling
      refine ⟨?_, recycled, recorder, by rwa [List.append_nil] at nodes⟩
      simp only [workers]
      exact rewire_recorder h n
    · intro _ m stage _ _
      exact ⟨h, by rw [stage.1]; exact stage.2⟩
  intro _
  apply ringed_stays
  apply Within.bind (verbose_within staffFrame_admits.toLogs)
  intro stats
  exact call_within staffFrame_admits.toLogs (.inl rfl)

theorem hire_meets {old : Staff} (vacant : old.workers = []) :
    Meets (Stage n (· = old)) (BMDStandby.hire env) (fun _ => Machine.Ringed)
      (fun _ => Machine.Ringed) := by
  let scannerHired := old.hire .BMDDataScannerWorker none
  let builderHired := scannerHired.hire .BMDEventBuilderWorker none
  have few (staff : Staff) (k : Nat) (small : k < 3) (size : staff.workers.length = k) :
      Short n (· = staff) := by
    intro staff' same some
    subst same
    omega
  apply Meets.bind (stage_addWorker (T := fun id staff => id = old.hires ∧ staff = scannerHired)
    (few old 0 (by omega) (by simp [vacant])) fun staff same => by subst same; exact ⟨rfl, rfl⟩)
  intro scanner
  apply Meets.bind (Q := fun id => Stage n fun staff =>
    scanner = old.hires ∧ id = old.hires + 1 ∧ staff = builderHired)
  · apply stage_addWorker
    · intro staff hired some
      obtain ⟨-, rfl⟩ := hired
      simp [scannerHired, Staff.hire, vacant]
    · intro staff hired
      obtain ⟨first, rfl⟩ := hired
      exact ⟨first, rfl, rfl⟩
  intro recorder_ptr
  apply Meets.bind (stage_update (f := fun staff => { staff with rec_proc_ptr_ := some recorder_ptr })
    (T := fun staff => scanner = old.hires ∧ recorder_ptr = old.hires + 1 ∧
      staff = { builderHired with rec_proc_ptr_ := some (old.hires + 1) }) ?_)
  · intro _
    apply Meets.bind (stage_stays (BMDStandby.instruct_within staffFrame_admits trivial) ?_)
    · intro _
      refine Meets.bind (stage_update
        (f := fun staff => { staff with recycled_containers_fifo_ := some (.outFifo recorder_ptr) })
        (T := fun staff => scanner = old.hires ∧ recorder_ptr = old.hires + 1 ∧
          staff.Assembling old.hires 0 (ringFifos old.hires)) ?_) ?_
      · intro staff ready
        obtain ⟨rfl, rfl, rfl⟩ := ready
        refine ⟨rfl, rfl, ?_, rfl, rfl, rfl, List.suffix_append _ _⟩
        simp [builderHired, scannerHired, Staff.hire, vacant, crew]
      · intro _ m stage
        obtain ⟨devices, rfl, rfl, assembling⟩ := stage
        exact connect_meets m ⟨devices, assembling⟩
    · intro staff ready some
      obtain ⟨-, -, rfl⟩ := ready
      simp [builderHired, scannerHired, Staff.hire, vacant]
      omega
  · intro staff ready
    obtain ⟨first, rfl, rfl⟩ := ready
    exact ⟨first, rfl, rfl⟩

/-- Coming back to Standby hires nobody. -/
theorem enter_standby_away {old_state : fsm_state_t} (away : old_state ≠ .Idle_s) :
    Within staffFrame (BMDStandby.whenEnteringStateDo env old_state) := by
  apply Within.attempt
  · apply Within.bind (Within.whenever fun on => absurd on away)
    intro _
    exact BMDStandby.prepare_within staffFrame_admits trivial trivial
  · exact bySeverity_within staffFrame_admits (Within.pure ())

/-- Whatever happens while the machine is switched on, a complete team is connected. -/
theorem enter_standby_ringed {old : Staff} (vacant : old.workers = []) (old_state : fsm_state_t) :
    Meets (fun m => Stage n (· = old) m)
      (BMDStandby.whenEnteringStateDo env old_state) (fun _ => Machine.Ringed)
      (fun _ => Machine.Ringed) := by
  have short : Short n (· = old) := by
    intro staff same some
    subst same
    simp [vacant]
  have prepared : Within staffFrame (do
      each (List.range BMDStandby.maxSize) (BMDStandby.provide env)
      recorder env .getDataSize
      call env .standbyEntering) :=
    BMDStandby.prepare_within staffFrame_admits trivial trivial
  apply Meets.attempt (R := fun _ => Machine.Ringed)
  · apply Meets.bind (Q := fun _ => Machine.Ringed)
    · apply Meets.whenever
      · intro on
        apply Meets.bind (stage_stays
          (eachDevice_within (BMDStandby.configureDevice_within staffFrame_admits)) short)
        intro _
        exact hire_meets vacant
      · exact fun off m stage => short.ringed stage
    · exact fun _ => ringed_stays prepared
  · intro x e caught
    exact ringed_stays (bySeverity_within staffFrame_admits (Within.pure ()) e)
  · exact fun x uncaught m ringed => ringed

end Hiring

/-! ## Runs -/

namespace Machine

variable {m : Machine} {t : Turn} {s : fsm_state_t}

/-- The invariant: outside of a session there are no workers. -/
structure Laid (m : Machine) : Prop where
  pending : m.Pending
  vacant : m.life = .running → m.state_ = .Idle_s ∨ m.state_ = .Undefined_s →
    m.staff.workers = []

theorem boot_laid : boot.Laid := ⟨boot_pending, fun _ _ => rfl⟩

/-- Idle and the end are entered without workers. -/
theorem Laid.leave_vacant (laid : m.Laid) (alive : m.life = .running)
    (toward : m.target t.command = some s) (other : s ≠ m.state_)
    (survived : (m.leave s t).life = .running) (outside : s = .Idle_s ∨ s = .Undefined_s) :
    (m.leave s t).staff.workers = [] := by
  have route := laid.pending.route toward other
  have vacant := laid.vacant alive
  generalize old : m.state_ = s' at route vacant
  cases route with
  | failure => simp at outside
  | fatal => simp at outside
  | on => simp at outside
  | run => simp at outside
  | stop => simp at outside
  | start => exact (congrArg Staff.workers (leave_same (by simp [old])).1).trans (vacant (.inr rfl))
  | exit => exact (congrArg Staff.workers (leave_same (by simp [old])).1).trans (vacant (.inl rfl))
  | off => exact leave_dismissed (.inr ⟨old, rfl⟩) survived
  | recover => exact leave_dismissed (.inl old) survived

/-- Nobody is hired where Idle or the end is entered. -/
theorem enter_vacant (vacant : m.staff.workers = []) (outside : s = .Idle_s ∨ s = .Undefined_s)
    (env : Answers) (old_state : fsm_state_t) :
    (m.execute (BMDaq.whenEnteringStateDo env s old_state)).staff.workers = [] := by
  have within : Within workersFrame (BMDaq.whenEnteringStateDo env s old_state) := by
    obtain rfl | rfl := outside
    · exact BMDIdle.whenEnteringStateDo_within workersFrame_admits trivial workersFrame_resize _
    · exact Within.pure ()
  have moved := (execute_staff _ _).trans (within.rel m)
  exact (congrArg Staff.workers moved).trans vacant

theorem turn_laid (laid : m.Laid) (t : Turn) : (m.turn t).Laid := by
  have pending := turn_pending t laid.pending
  have turned := turned m t
  generalize m.turn t = m' at turned pending
  refine ⟨pending, fun alive' outside => ?_⟩
  cases turned with
  | ignored => exact laid.vacant alive' outside
  | died alive toward other dead => exact absurd alive' dead
  | repeated alive toward =>
      have within : Within staffFrame (BMDaq.whenSameStateDo t.entering m.state_) :=
        whenSameStateDo_within staffFrame_admits (fun _ => trivial) fun _ => trivial
      have moved := execute_same (m := { m with next_ := none }) within
      rw [repeated_state_] at outside
      exact (congrArg Staff.workers moved.1).trans (laid.vacant alive outside)
  | @changed s alive toward other survived =>
      rw [entered_state_] at outside
      have vacant : ((m.leave s t).moveTo s).staff.workers = [] :=
        laid.leave_vacant alive toward other survived outside
      exact enter_vacant vacant outside t.entering m.state_

theorem after_laid (turns : List Turn) : (after turns).Laid :=
  run_invariant (Q := fun _ => True) boot_laid
    (fun m t m' _ laid stepped => by cases stepped; exact turn_laid laid t)
    (fun _ _ => trivial) (run_step boot turns)

/-- The leaving hooks that turn the system off. -/
theorem off_hook (off : m.state_ = .Failure_s ∨ (m.state_ = .Standby_s ∧ s = .Idle_s)) :
    BMDaq.whenLeavingStateDo t.leaving m.state_ s = BMDaq.dismissAll t.leaving := by
  cases off with
  | inl failure =>
      rw [failure]
      rfl
  | inr standby =>
      rw [standby.1, standby.2]
      rfl

/-- A property of the staff and the number of devices that holds without workers, and whatever
    happens while the machine is turned on. -/
structure OfStaff (P : Machine → Prop) : Prop where
  same : ∀ m m', staffFrame.Rel m m' → P m → P m'
  vacant : ∀ m : Machine, m.staff.workers = [] → P m
  turnOn : ∀ (env : Answers) (m : Machine), m.staff.workers = [] →
    P (m.execute (BMDStandby.whenEnteringStateDo env .Idle_s))

namespace OfStaff

variable {P : Machine → Prop} (rule : OfStaff P)
include rule

/-- Dismissing: the workers go first. -/
theorem dismissAll {env : Answers} : Meets P (dismissAll env) (fun _ => P) (fun _ => P) := by
  have calls (c : Call) : Meets P (call env c) (fun _ => P) (fun _ => P) :=
    (call_within staffFrame_admits.toLogs (.inr trivial)).stays rule.same
  have vacant {c : Call} : Meets (fun m => m.staff.workers = []) (call env c)
      (fun _ m => m.staff.workers = []) (fun _ => P) := by
    apply call_meets
    · exact fun _ _ holds => holds
    · exact fun _ _ _ holds => rule.vacant _ holds
  apply Meets.bind (calls _)
  intro _
  apply Meets.bind (Q := fun _ m => m.staff.workers = [])
  · exact Meets.update fun _ _ => rfl
  intro _
  apply Meets.bind vacant
  intro _
  exact Meets.update fun m vacant => rule.vacant _ vacant

theorem leave (holds : P m) (s : fsm_state_t) (t : Turn) : P (m.leave s t) := by
  have called : P { m with next_ := none } := rule.same m _ ⟨rfl, rfl⟩ holds
  by_cases off : m.state_ = .Failure_s ∨ (m.state_ = .Standby_s ∧ s = .Idle_s)
  · unfold Machine.leave
    rw [off_hook off]
    exact execute_keeps rule.dismissAll called fun m _ holds => rule.same m _ ⟨rfl, rfl⟩ holds
  · rw [not_or] at off
    exact rule.same m _ (leave_same off) holds

/-- The second half of a change, towards a state of a session. -/
theorem enter (holds : P m) {old_state : fsm_state_t}
    (idle : old_state = .Idle_s → m.staff.workers = []) (env : Answers) (s : fsm_state_t)
    (inside : ¬(s = .Idle_s ∨ s = .Undefined_s)) :
    P (m.execute (BMDaq.whenEnteringStateDo env s old_state)) := by
  have quiet {hook : Hook Unit} (within : Within staffFrame hook) : P (m.execute hook) :=
    rule.same m _ (execute_same within) holds
  cases s with
  | Idle_s => simp at inside
  | Undefined_s => simp at inside
  | Failure_s => exact quiet (Within.pure ())
  | Active_s => exact quiet (BMDActive.whenEnteringStateDo_within staffFrame_admits trivial)
  | FatalError_s => exact quiet (BMDFatalError.whenEnteringStateDo_within staffFrame_admits trivial)
  | Standby_s =>
      by_cases on : old_state = .Idle_s
      · rw [on]
        exact rule.turnOn env m (idle on)
      · exact quiet (enter_standby_away on)

theorem turn (laid : m.Laid) (holds : P m) (t : Turn) : P (m.turn t) := by
  have turned := turned m t
  generalize m.turn t = m' at turned
  cases turned with
  | ignored => exact holds
  | repeated alive toward =>
      have within : Within staffFrame (BMDaq.whenSameStateDo t.entering m.state_) :=
        whenSameStateDo_within staffFrame_admits (fun _ => trivial) fun _ => trivial
      have called : P { m with next_ := none } := rule.same m _ ⟨rfl, rfl⟩ holds
      exact rule.same _ _ (execute_same within) called
  | died alive toward other dead => exact rule.leave holds _ t
  | @changed s alive toward other survived =>
      by_cases outside : s = .Idle_s ∨ s = .Undefined_s
      · have vacant : ((m.leave s t).moveTo s).staff.workers = [] :=
          laid.leave_vacant alive toward other survived outside
        exact rule.vacant _ (enter_vacant vacant outside t.entering m.state_)
      · have left : P ((m.leave s t).moveTo s) := rule.same (m.leave s t) _ ⟨rfl, rfl⟩ (rule.leave holds s t)
        apply rule.enter left _ t.entering s outside
        intro idle
        have away : s ≠ .Undefined_s := fun ended => outside (.inr ended)
        rw [leave_idle idle away]
        exact laid.vacant alive (.inl idle)

/-- Such a property holds throughout every run. -/
theorem after (turns : List Turn) : P (after turns) := by
  have both : (Machine.after turns).Laid ∧ P (Machine.after turns) := by
    apply run_invariant (P := fun m => m.Laid ∧ P m) (Q := fun _ => True)
      ⟨boot_laid, rule.vacant boot rfl⟩ _ (fun _ _ => trivial) (run_step boot turns)
    intro m t m' _ both stepped
    cases stepped
    exact ⟨turn_laid both.1 t, rule.turn both.1 both.2 t⟩
  exact both.2

end OfStaff

theorem ringed_ofStaff : OfStaff Ringed where
  same _ _ moved ringed := ringed.of_same moved
  vacant m vacant := ringed_of_short (k := 0) rfl (by simp [vacant]) fun _ => by omega
  turnOn env m vacant :=
    execute_keeps (enter_standby_ringed (n := m.ctx.devs_.length) vacant .Idle_s) ⟨rfl, rfl⟩
      fun _ _ ringed => ringed.of_same ⟨rfl, rfl⟩

end Machine

/-- Two devices are turned on. -/
def sampleSession : List Turn := [.own (.smooth [3, 5]), .to .Standby_s (.smooth [3, 5])]

theorem sampleSession_staffs (p : List Turn) (t : Turn) (inside : p ++ [t] <+: sampleSession) :
    ¬(Machine.after p).Understaffs t := by
  rintro ⟨-, -, -, e, threw, -⟩
  have member := inside.subset (List.mem_append_right p List.mem_cons_self)
  simp only [sampleSession, List.mem_cons, List.not_mem_nil, or_false] at member
  have entering : t.entering = .smooth [3, 5] := by
    obtain rfl | rfl := member <;> rfl
  rw [entering, firstThrow_smooth] at threw
  cases threw

open Machine in
/-- A machine at rest in Standby or Active, in a run that is never left with half a team. -/
theorem wired_at_rest {turns : List Turn}
    (staffs : ∀ p t, p ++ [t] <+: turns → ¬(after p).Understaffs t) {p : List Turn}
    (inside : p <+: turns) (rests : (after p).AtRest)
    (on : (after p).state_ = .Standby_s ∨ (after p).state_ = .Active_s)
    (devices : (after p).ctx.devs_ ≠ []) :
    ∃ h, (after p).staff.Wired h (after p).ctx.devs_.length := by
  have manned := after_invariant Manned Understaffs boot_manned (fun _ _ => turn_manned) staffs
    inside
  have complete : (after p).FullyStaffed := by
    have suits := manned.suits rests.1
    cases on with
    | inl standby =>
        rw [standby] at suits
        exact suits.resolve_right fun pending => pending rests.2
    | inr active => rwa [active] at suits
  have some : (after p).ctx.devs_.length ≠ 0 := by
    intro none
    exact devices (List.length_eq_zero_iff.mp none)
  exact ringed_ofStaff.after p complete some

open Machine in
/-- In a run that is never left with half a team, the workers of a machine at rest in Standby
    or Active form the ring of the pipeline: the scanner and the event builder, one readout
    worker for each device, and the recycled containers in front of them. -/
theorem standby_forms_ring {turns : List Turn}
    (staffs : ∀ p t, p ++ [t] <+: turns → ¬(after p).Understaffs t) {p : List Turn}
    (inside : p <+: turns) (rests : (after p).AtRest)
    (on : (after p).state_ = .Standby_s ∨ (after p).state_ = .Active_s)
    (devices : (after p).ctx.devs_ ≠ []) :
    ∃ s e readouts, (after p).staff.Ring s e readouts ∧
      readouts.map Worker.device_ = (List.range (after p).ctx.devs_.length).map some ∧
      (after p).staff.recycled_containers_fifo_ = some (.outFifo e) ∧
      (after p).staff.rec_proc_ptr_ = some e ∧
      [.outFifo e, .outFifo s, .inFifo s] <:+ (after p).staff.nodes := by
  obtain ⟨h, wired⟩ := wired_at_rest staffs inside rests on devices
  refine ⟨h, h + 1, readoutWorkers h (after p).ctx.devs_.length, wired.ring, ?_, wired.recycled,
    wired.recorder, wired.nodes⟩
  simp [readoutWorkers]

open Machine in
theorem standby_forms_ring_smooth :
    ∃ s e readouts, (after sampleSession).staff.Ring s e readouts ∧
      readouts.map Worker.device_ = (List.range (after sampleSession).ctx.devs_.length).map some ∧
      (after sampleSession).staff.recycled_containers_fifo_ = some (.outFifo e) ∧
      (after sampleSession).staff.rec_proc_ptr_ = some e ∧
      [.outFifo e, .outFifo s, .inFifo s] <:+ (after sampleSession).staff.nodes := by
  have devices : (after sampleSession).ctx.devs_.length = 2 := by decide +kernel
  apply standby_forms_ring sampleSession_staffs List.prefix_rfl
  · constructor <;> decide +kernel
  · left
    decide +kernel
  · intro none
    rw [none] at devices
    cases devices

end BMDaq
