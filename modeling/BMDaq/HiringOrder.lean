import BMDaq.Wiring

/-! # The order of hiring

Workers are hired one after the other and dismissed together. So whatever is thrown on the
way, and however the machine has been switched, the workers that are there are an initial
part of the team: a readout worker points to a device that exists, and no device has two.
-/

namespace BMDaq

open Block

/-- The workers are the first ones of a team for the devices that there are. -/
def Machine.PartOfTeam (m : Machine) : Prop :=
  m.staff.workers.map Worker.position <+: team m.ctx.devs_.length

/-- With `n` devices, workers at the positions `done` have been hired. -/
structure Hired (n : Nat) (done : List (WorkerKind × Option Nat)) (m : Machine) : Prop where
  devices : m.ctx.devs_.length = n
  workers : m.staff.workers.map Worker.position = done

/-- Neither the positions of the workers nor the number of devices change. -/
def positionsFrame : Frame Exit Machine where
  Rel m m' := m'.staff.workers.map Worker.position = m.staff.workers.map Worker.position ∧
    m'.ctx.devs_.length = m.ctx.devs_.length
  refl _ := ⟨rfl, rfl⟩
  trans first second := ⟨second.1.trans first.1, second.2.trans first.2⟩
  Exits _ := True

theorem positionsFrame_admits : Admits positionsFrame fun _ => True where
  exits _ _ _ := trivial
  returns := trivial
  log _ _ _ := ⟨rfl, rfl⟩
  request _ _ _ := ⟨rfl, rfl⟩
  load _ _ := ⟨rfl, rfl⟩
  devices _ _ same := ⟨rfl, same⟩

/-- Connecting a worker does not move it. -/
theorem rewire_positions (id : Nat) {f : Worker → Worker}
    (keeps : ∀ w, (f w).position = w.position) : Within positionsFrame (rewire id f) := by
  apply Within.update
  intro m
  refine ⟨?_, rfl⟩
  rw [List.map_map]
  apply List.map_congr_left
  intro w _
  show (if w.id = id then f w else w).position = w.position
  split
  · exact keeps w
  · rfl

section Hiring

variable {env : Answers} {n : Nat} {done : List (WorkerKind × Option Nat)} {m m' : Machine}

theorem Hired.part (hired : Hired n done m) (start : done <+: team n) : m.PartOfTeam := by
  unfold Machine.PartOfTeam
  rwa [hired.workers, hired.devices]

theorem Machine.PartOfTeam.of_positions (part : m.PartOfTeam) (moved : positionsFrame.Rel m m') :
    m'.PartOfTeam := by
  unfold Machine.PartOfTeam
  rw [moved.1, moved.2]
  exact part

theorem part_stays {α : Type} {p : Hook α} (within : Within positionsFrame p) :
    Meets Machine.PartOfTeam p (fun _ => Machine.PartOfTeam) (fun _ => Machine.PartOfTeam) :=
  within.stays fun _ _ moved part => part.of_positions moved

theorem hired_stays {α : Type} {p : Hook α} (within : Within positionsFrame p)
    (start : done <+: team n) :
    Meets (Hired n done) p (fun _ => Hired n done) (fun _ => Machine.PartOfTeam) := by
  have stays := within.stays (P := Hired n done) fun m m' moved hired =>
    ⟨moved.2.trans hired.devices, moved.1.trans hired.workers⟩
  exact stays.conseq (fun _ h => h) (fun _ _ h => h) fun _ _ hired => hired.part start

/-- The next worker is hired, or the call has thrown. -/
theorem addWorker_hired (kind : WorkerKind) (device : Option Nat) (start : done <+: team n) :
    Meets (Hired n done) (addWorker env kind device) (fun _ => Hired n (done ++ [(kind, device)]))
      (fun _ => Machine.PartOfTeam) := by
  apply Meets.bind (hired_stays (call_within positionsFrame_admits.toLogs (.inr trivial)) start)
  intro _
  apply Meets.bind (hired_stays (Within.read _) start)
  intro id
  apply Meets.bind (Q := fun _ => Hired n (done ++ [(kind, device)]))
  · apply Meets.update
    intro m hired
    refine ⟨hired.devices, ?_⟩
    rw [← hired.workers]
    simp [Staff.hire, Worker.position]
  intro _
  exact Meets.pure fun _ hired => hired

/-- The readout workers of the devices `later` are still to come. -/
theorem hireReadout_hired (recycled raw : Fifo) (i : Nat) (later : List Nat) :
    Meets (fun m => ∃ done, done ++ (i :: later).map (fun i => (.BMDReadoutWorker, some i)) = team n ∧
        Hired n done m)
      (BMDStandby.hireReadout env recycled raw i)
      (fun _ m => ∃ done, done ++ later.map (fun i => (.BMDReadoutWorker, some i)) = team n ∧
        Hired n done m)
      (fun _ => Machine.PartOfTeam) := by
  rintro m ⟨done, whole, hired⟩
  have start : done <+: team n := ⟨_, whole⟩
  have next : done ++ [(.BMDReadoutWorker, some i)] ++
      later.map (fun i => (WorkerKind.BMDReadoutWorker, some i)) = team n := by
    rw [← whole, List.map_cons, List.append_assoc, List.singleton_append]
  have met : Meets (Hired n done) (BMDStandby.hireReadout env recycled raw i)
      (fun _ => Hired n (done ++ [(.BMDReadoutWorker, some i)])) (fun _ => Machine.PartOfTeam) := by
    apply Meets.bind (addWorker_hired _ _ start)
    intro id
    exact hired_stays (rewire_positions id fun _ => rfl) ⟨_, next⟩
  exact met.conseq (fun _ h => h) (fun _ _ hired => ⟨_, next, hired⟩) (fun _ _ h => h) m hired

theorem addNode_positions (fifo : Fifo) : Within positionsFrame (addNode env fifo) := by
  apply Within.bind (call_within positionsFrame_admits.toLogs (.inr trivial))
  intro _
  apply Within.update
  exact fun _ => ⟨rfl, rfl⟩

theorem hire_part :
    Meets (Hired n []) (BMDStandby.hire env) (fun _ => Machine.PartOfTeam)
      (fun _ => Machine.PartOfTeam) := by
  have logs := positionsFrame_admits.toLogs
  have two : [(.BMDDataScannerWorker, none), (.BMDEventBuilderWorker, none)] <+: team n :=
    List.prefix_append _ _
  have first : [(.BMDDataScannerWorker, none)] <+: team n := (List.prefix_append _ _).trans two
  apply Meets.bind (addWorker_hired .BMDDataScannerWorker none List.nil_prefix)
  intro scanner
  apply Meets.bind (addWorker_hired .BMDEventBuilderWorker none first)
  intro recorder_ptr
  apply Meets.bind (Q := fun _ =>
    Hired n [(.BMDDataScannerWorker, none), (.BMDEventBuilderWorker, none)])
  · apply hired_stays _ two
    exact Within.update fun _ => ⟨rfl, rfl⟩
  intro _
  apply Meets.bind (hired_stays (BMDStandby.instruct_within positionsFrame_admits trivial) two)
  intro _
  apply Meets.bind (Q := fun _ =>
    Hired n [(.BMDDataScannerWorker, none), (.BMDEventBuilderWorker, none)])
  · apply hired_stays _ two
    exact Within.update fun _ => ⟨rfl, rfl⟩
  intro _
  apply Meets.bind (hired_stays (Within.each fun _ _ => call_within logs (.inr trivial)) two)
  intro _
  apply Meets.bind (hired_stays (Within.each fun fifo _ => addNode_positions fifo) two)
  intro _
  apply Meets.bind (Q := fun _ => Machine.PartOfTeam)
  · have loop : Meets (Hired n [(.BMDDataScannerWorker, none), (.BMDEventBuilderWorker, none)])
        (eachDevice (BMDStandby.hireReadout env (.outFifo recorder_ptr) (.inFifo scanner)))
        (fun _ m => ∃ done, done ++ [] = team n ∧ Hired n done m)
        (fun _ => Machine.PartOfTeam) := by
      apply eachDevice_meets (n := n) (I := fun later m => ∃ done,
        done ++ later.map (fun i => (.BMDReadoutWorker, some i)) = team n ∧ Hired n done m)
      · exact fun m hired => ⟨hired.devices, _, rfl, hired⟩
      · exact fun i later _ => hireReadout_hired _ _ i later
    apply loop.conseq (fun _ h => h) _ (fun _ _ h => h)
    rintro _ m ⟨done, whole, hired⟩
    exact hired.part ⟨[], whole⟩
  intro _
  apply part_stays
  apply Within.bind
  · exact rewire_positions recorder_ptr fun _ => rfl
  intro _
  apply Within.bind (verbose_within logs)
  intro stats
  exact call_within logs (.inr trivial)

/-- Turning the machine on hires a part of the team, whatever is thrown. -/
theorem turnOn_part (vacant : m.staff.workers = []) :
    (m.execute (BMDStandby.whenEnteringStateDo env .Idle_s)).PartOfTeam := by
  have hired : Hired m.ctx.devs_.length [] m := ⟨rfl, by rw [vacant, List.map_nil]⟩
  have met : Meets (Hired m.ctx.devs_.length []) (BMDStandby.whenEnteringStateDo env .Idle_s)
      (fun _ => Machine.PartOfTeam) (fun _ => Machine.PartOfTeam) := by
    apply Meets.attempt (R := fun _ => Machine.PartOfTeam)
    · apply Meets.bind (Q := fun _ => Machine.PartOfTeam)
      · apply Meets.whenever _ fun off => absurd rfl off
        intro _
        apply Meets.bind (hired_stays (eachDevice_within
          (BMDStandby.configureDevice_within positionsFrame_admits)) List.nil_prefix)
        intro _
        exact hire_part
      intro _
      exact part_stays (BMDStandby.prepare_within positionsFrame_admits trivial trivial)
    · intro x e _
      exact part_stays (bySeverity_within positionsFrame_admits (Within.pure ()) e)
    · exact fun _ _ _ part => part
  exact Machine.execute_keeps met hired fun _ _ part => part

end Hiring

namespace Machine

theorem partOfTeam_ofStaff : OfStaff PartOfTeam where
  same _ _ moved part := part.of_positions ⟨by rw [moved.1], moved.2⟩
  vacant m vacant := by
    unfold PartOfTeam
    rw [vacant]
    exact List.nil_prefix
  turnOn env m vacant := turnOn_part vacant

variable {m : Machine}

theorem PartOfTeam.device (part : m.PartOfTeam) {w : Worker} (hired : w ∈ m.staff.workers)
    (readout : w.kind = .BMDReadoutWorker) : ∃ i < m.ctx.devs_.length, w.device_ = some i := by
  have member : w.position ∈ team m.ctx.devs_.length :=
    part.subset (List.mem_map_of_mem hired)
  simp only [team, Worker.position, readout, List.mem_cons, List.mem_map, List.mem_range] at member
  obtain other | other | ⟨i, below, same⟩ := member
  · simp at other
  · simp at other
  · exact ⟨i, below, (congrArg Prod.snd same).symm⟩

/-- The devices of a team, in their order. -/
theorem team_devices (n : Nat) : (team n).filterMap Prod.snd = List.range n := by
  simp [team, List.filterMap_map]

theorem PartOfTeam.devices (part : m.PartOfTeam) :
    m.staff.workers.filterMap Worker.device_ <+: List.range m.ctx.devs_.length := by
  have devices := part.filterMap Prod.snd
  rwa [team_devices, List.filterMap_map] at devices

end Machine

open Machine in
/-- Whatever was thrown while the machine was switched, the workers are an initial part of the
    team, and the readout workers are those of the first devices, one for each. -/
theorem workers_part_of_team (turns : List Turn) :
    (after turns).PartOfTeam ∧
      (∀ w ∈ (after turns).staff.workers, w.kind = .BMDReadoutWorker →
        ∃ i < (after turns).ctx.devs_.length, w.device_ = some i) ∧
      (after turns).staff.workers.filterMap Worker.device_ <+:
        List.range (after turns).ctx.devs_.length := by
  have part : (after turns).PartOfTeam := partOfTeam_ofStaff.after turns
  exact ⟨part, fun _ => part.device, part.devices⟩

end BMDaq
