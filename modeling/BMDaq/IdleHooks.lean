import BMDaq.DeviceDescription

/-! # Start-up and reload when nothing fails

With every call into the libraries succeeding, what the start-up hook and the reload hook of
Idle do depends on the connected boards and the document alone. The start-up hook counts the
entries of `Devices` and then describes the devices; the reload hook only describes them.
-/

namespace BMDaq

open Json Block

/-- The document that a hook loads, without an exception. -/
structure Loads (env : Answers) (doc : Value) : Prop where
  loaded : env.throws .loadBMConfig = none
  document : env.bm_config_doc_ = doc

/-- The session opens, and the connected devices, once initialised, have the given boards. -/
structure Connects (env : Answers) (boards : List (List Int)) : Prop where
  session : 0 ≤ env.init_status
  devices : env.nFebDevs = boards.length
  initialised : ∀ i < boards.length, env.throws (.init i 0) = none
  boards : ∀ i b, boards[i]? = some b → env.boards i = b

/-- What start-up asks of the document: there are devices, as many entries as devices, and an
    entry for each. -/
structure Startable (doc : Value) (boards : List (List Int)) : Prop where
  connected : boards ≠ []
  counted : ∃ devices, doc.get "Devices" = some devices ∧ devices.elements.length = boards.length
  described : ∀ b ∈ boards, Described doc b

/-- A fatal error is asked for, or the document could not be read and the program ends. -/
def Machine.Rejected (doc : Value) (m : Machine) : Prop :=
  m.life = .running ∧ m.next_ = some .FatalError_s ∨
    m.life = .terminated ∧ ∃ dev, setDeviceDescription dev doc = none

/-- At rest in Idle. -/
def Machine.IdleAtRest (m : Machine) : Prop := m.AtRest ∧ m.state_ = .Idle_s

/-- How a start ends: past the description of the devices, where only the leds can still
    fail, or before it. -/
inductive StartEnds (doc : Value) (boards : List (List Int)) (led_status : Int) (m : Machine) :
    Prop where
  | passed (startable : Startable doc boards) (lit : .led_off ∈ m.log)
      (running : m.life = .running) (state : m.state_ = .Idle_s)
      (next : m.next_ = if led_status = 0 then none else some .FatalError_s)
      (assigned : Assigned doc boards m.ctx.devs_)
  | rejected (unstartable : ¬Startable doc boards) (dark : .led_off ∉ m.log)
      (why : m.Rejected doc)

section Rules

variable {P : Machine → Prop} {R : Exit → Machine → Prop}

/-- `sm->changeState(s); return;` leaves the hook. -/
theorem returnTo_meets {s : fsm_state_t} {Q : Unit → Machine → Prop}
    (exits : ∀ m, P m → R .returned { m with next_ := some s }) : Meets P (returnTo s) Q R := exits

/-- A `try` block that nothing is thrown in. -/
theorem attempt_quiet {p : Hook Unit} {handler : UFEError → Hook Unit} {Q : Unit → Machine → Prop}
    (met : Meets P p Q R) (quiet : ∀ e m, ¬R (.threw e) m) :
    Meets P (attempt p Exit.UFEError? handler) Q R := by
  refine met.attempt ?_ (fun _ _ _ holds => holds)
  intro x e caught m holds
  rw [UFEError?_eq_some] at caught
  exact (quiet e m (caught ▸ holds)).elim

end Rules

section Hooks

variable {doc : Value} {boards : List (List Int)} {K : Call → Prop} {rest : List Nat} {i : Nat}
  {env : Answers} {m : Machine}

theorem GivesUp.rejected {x : Exit} (gaveUp : GivesUp doc boards K x m) :
    (x.ended m).Rejected doc := by
  obtain ⟨rfl, running, fatal⟩ | ⟨rfl, unreadable⟩ := gaveUp.exit
  · exact .inl ⟨running, fatal⟩
  · exact .inr ⟨rfl, unreadable⟩

theorem GivesUp.dark {x : Exit} {c : Call} (gaveUp : GivesUp doc boards (· ≠ c) x m) :
    c ∉ (x.ended m).log := by
  have same : (x.ended m).log = m.log := by cases x <;> rfl
  rw [same]
  exact fun member => gaveUp.log c member rfl

theorem GivesUp.quiet {e : UFEError} : ¬GivesUp doc boards K (.threw e) m := by
  intro gaveUp
  obtain ⟨wrong, _⟩ | ⟨wrong, _⟩ := gaveUp.exit <;> cases wrong

/-- At the start of the loop no device has to be described yet. -/
theorem describing_start (running : m.life = .running) (calm : m.next_ = none)
    (state : m.state_ = .Idle_s) (log : ∀ c ∈ m.log, K c) (document : m.ctx.bm_config_doc_ = doc)
    (length : m.ctx.devs_.length = boards.length) :
    Describing doc boards K (List.range boards.length) m where
  running := running
  calm := calm
  state := state
  log := log
  document := document
  length := length
  done := by
    intro i dev outside there
    have small := (List.getElem?_eq_some_iff.mp there).1
    rw [length] at small
    exact (outside (List.mem_range.mpr small)).elim

theorem Describing.log_append (described : Describing doc boards K rest m) {c : Call}
    (allowed : K c) : Describing doc boards K rest { m with log := m.log ++ [c] } := by
  refine { described with log := ?_ }
  intro c' member
  rcases List.mem_append.mp member with before | last
  · exact described.log c' before
  · rw [List.mem_singleton.mp last]
    exact allowed

/-- `init` tells a device its boards. -/
theorem initDevice_meets (connects : Connects env boards) (small : i < boards.length)
    (allowed : K (.init i 0)) :
    Meets (Describing doc boards K (i :: rest)) (initDevice env i 0)
      (fun _ m => Describing doc boards K (i :: rest) m ∧
        ∃ dev, m.ctx.devs_[i]? = some dev ∧ boards[i]? = some dev.boards)
      (GivesUp doc boards K) := by
  apply Meets.bind (Q := fun _ => Describing doc boards K (i :: rest))
  · apply call_meets
    · exact fun _ m described => described.log_append allowed
    · intro e threw
      rw [connects.initialised i small] at threw
      cases threw
  intro _
  apply Meets.update
  intro m described
  constructor
  · refine { described with length := ?_, done := ?_ }
    · rw [List.length_modify]
      exact described.length
    · intro j dev outside there
      have ne : i ≠ j := fun same => outside (same ▸ List.mem_cons_self)
      have before : m.ctx.devs_[j]? = some dev := (List.getElem?_modify_ne _ _ ne).symm.trans there
      exact described.done j dev outside before
  · have inside : i < m.ctx.devs_.length := described.length ▸ small
    refine ⟨{ m.ctx.devs_[i] with boards := env.boards i }, ?_, ?_⟩
    · rw [List.getElem?_modify_eq, List.getElem?_eq_getElem inside]
      rfl
    · rw [connects.boards i boards[i] (List.getElem?_eq_getElem small)]
      exact List.getElem?_eq_getElem small

/-- The `try` block of the start-up hook, after the resize. -/
theorem describeConnected_meets (connects : Connects env boards) (allowed : ∀ i, K (.init i 0)) :
    Meets (Describing doc boards K (List.range boards.length))
      (eachDevice fun xDev => do initDevice env xDev 0; describeDevice xDev)
      (fun _ => Describing doc boards K []) (GivesUp doc boards K) := by
  apply eachDevice_meets
  · exact fun m described => ⟨described.length, described⟩
  intro i rest inside
  have small : i < boards.length := List.mem_range.mp (inside.subset List.mem_cons_self)
  apply Meets.bind (initDevice_meets connects small (allowed i))
  intro _ m ⟨described, dev, there, place⟩
  have met := describeDevice_meets doc K rest there place
  exact met.conseq (fun _ h => h) (fun _ _ h => h.1) (fun _ _ h => h) m ⟨described, rfl⟩

/-- The loop of the reload hook: the devices know their boards already. -/
theorem describeKnown_meets :
    Meets (fun m => Describing doc boards K (List.range boards.length) m ∧
        m.ctx.devs_.map UFEDevice.boards = boards)
      (eachDevice describeDevice) (fun _ => Describing doc boards K []) (GivesUp doc boards K) := by
  have loop : Meets (fun m => Describing doc boards K (List.range boards.length) m ∧
      m.ctx.devs_.map UFEDevice.boards = boards) (eachDevice describeDevice)
      (fun _ m => Describing doc boards K [] m ∧ m.ctx.devs_.map UFEDevice.boards = boards)
      (GivesUp doc boards K) := by
    apply eachDevice_meets (I := fun rest m =>
      Describing doc boards K rest m ∧ m.ctx.devs_.map UFEDevice.boards = boards)
    · exact fun m h => ⟨h.1.length, h⟩
    intro i rest inside m ⟨described, known⟩
    have small : i < m.ctx.devs_.length := by
      rw [described.length]
      exact List.mem_range.mp (inside.subset List.mem_cons_self)
    have there : m.ctx.devs_[i]? = some m.ctx.devs_[i] := List.getElem?_eq_getElem small
    have place : boards[i]? = some m.ctx.devs_[i].boards := by
      rw [← known, List.getElem?_map, there, Option.map_some]
    have met := describeDevice_meets doc K rest there place
    refine met.conseq (fun _ h => h) ?_ (fun _ _ h => h) m ⟨described, rfl⟩
    rintro _ m' ⟨described', d, devs⟩
    refine ⟨described', ?_⟩
    have inside' : i < (m.ctx.devs_.map UFEDevice.boards).length := by rwa [List.length_map]
    have still := @List.set_getElem_self _ (m.ctx.devs_.map UFEDevice.boards) i inside'
    rw [List.getElem_map] at still
    rw [devs, List.map_set, still, known]
  exact loop.conseq (fun _ h => h) (fun _ _ h => h.1) (fun _ _ h => h)

theorem loadBMConfig_meets (loads : Loads env doc) {P : Machine → Prop} {R : Exit → Machine → Prop} :
    Meets P (loadBMConfig env)
      (fun _ m' => ∃ m, P m ∧
        m' = { m with
          ctx := { m.ctx with bm_config_doc_ := doc }
          log := m.log ++ [.loadBMConfig] }) R := by
  apply Meets.bind (Q := fun _ m' =>
    ∃ m, P m ∧ m' = { m with ctx := { m.ctx with bm_config_doc_ := doc } })
  · exact Meets.update fun m holds => ⟨m, holds, by rw [loads.document]⟩
  intro _
  apply call_meets
  · rintro _ _ ⟨m, holds, rfl⟩
    exact ⟨m, holds, rfl⟩
  · intro e threw
    rw [loads.loaded] at threw
    cases threw

theorem Assigned.described {devs : List UFEDevice} (assigned : Assigned doc boards devs) :
    ∀ b ∈ boards, Described doc b := by
  intro b member
  rw [← assigned.boards, List.mem_map] at member
  obtain ⟨dev, member, rfl⟩ := member
  exact ⟨_, assigned.entries dev member⟩

theorem GivesUp.unstartable {x : Exit} (gaveUp : GivesUp doc boards K x m) :
    ¬Startable doc boards := by
  intro startable
  obtain ⟨b, member, fails⟩ := gaveUp.undescribed
  exact fails (startable.described b member)

/-! ## The hooks -/

theorem whenSameStateDo_meets (loads : Loads env doc) :
    Meets (fun m => m.IdleAtRest ∧ m.ctx.devs_.map UFEDevice.boards = boards)
      (BMDIdle.whenSameStateDo env)
      (fun _ m => m.IdleAtRest ∧ Assigned doc boards m.ctx.devs_)
      (GivesUp doc boards fun _ => True) := by
  apply attempt_quiet _ fun _ _ => GivesUp.quiet
  apply Meets.bind (loadBMConfig_meets loads)
  rintro _ _ ⟨m, ⟨⟨⟨running, calm⟩, state⟩, known⟩, rfl⟩
  have length : m.ctx.devs_.length = boards.length := by rw [← known, List.length_map]
  refine Meets.conseq describeKnown_meets (fun _ h => h) ?_ (fun _ _ h => h) _
    ⟨describing_start running calm state (fun _ _ => trivial) rfl length, known⟩
  intro _ m' described
  exact ⟨⟨⟨described.running, described.calm⟩, described.state⟩, described.assigned⟩

/-- Before the devices are described. -/
structure Opening (doc : Value) (m : Machine) : Prop where
  rests : m.IdleAtRest
  dark : .led_off ∉ m.log
  document : m.ctx.bm_config_doc_ = doc

theorem note_opening {c : Call} (other : c ≠ .led_off) {R : Exit → Machine → Prop} :
    Meets (Opening doc) (note c) (fun _ => Opening doc) R := by
  apply Meets.update
  intro m opening
  refine { opening with dark := fun lit => ?_ }
  rcases List.mem_append.mp lit with before | last
  · exact opening.dark before
  · exact other (List.mem_singleton.mp last).symm

/-- A check of start-up that fails. -/
theorem fatal_opening {led_status : Int} {Q : Unit → Machine → Prop}
    (unstartable : ¬Startable doc boards) :
    Meets (Opening doc) (returnTo .FatalError_s) Q
      fun x m => StartEnds doc boards led_status (x.ended m) := by
  apply returnTo_meets
  intro m opening
  exact .rejected unstartable opening.dark (.inl ⟨opening.rests.1.1, rfl⟩)

theorem load_meets (loads : Loads env doc) {handler : UFEError → Hook Unit}
    {R : Exit → Machine → Prop} :
    Meets (fun m => m.IdleAtRest ∧ .led_off ∉ m.log)
      (attempt (loadBMConfig env) Exit.UFEError? handler) (fun _ => Opening doc) R := by
  have quiet : Meets (fun m => m.IdleAtRest ∧ .led_off ∉ m.log)
      (attempt (loadBMConfig env) Exit.UFEError? handler) (fun _ => Opening doc) fun _ _ => False := by
    apply attempt_quiet _ fun _ _ => id
    apply (loadBMConfig_meets loads).conseq (fun _ h => h) _ (fun _ _ h => h)
    rintro _ _ ⟨m, ⟨rests, dark⟩, rfl⟩
    exact ⟨rests, by simpa using dark, rfl⟩
  exact quiet.conseq (fun _ h => h) (fun _ _ h => h) fun _ _ h => h.elim

/-- Reading the entries: where that throws, the document is not startable. -/
theorem devices_meets {led_status : Int} :
    Meets (Opening doc) (checked (doc.get "Devices"))
      (fun devices m => doc.get "Devices" = some devices ∧ Opening doc m)
      fun x m => StartEnds doc boards led_status (x.ended m) := by
  cases present : doc.get "Devices" with
  | some devices => exact Meets.pure fun m opening => ⟨rfl, opening⟩
  | none =>
      apply Meets.leave
      intro m opening
      refine .rejected (fun startable => ?_) opening.dark (.inr ⟨rfl, default, ?_⟩)
      · obtain ⟨devices, there, -⟩ := startable.counted
        rw [present] at there
        cases there
      · rw [setDeviceDescription, present]
        rfl

/-- The `try` block of start-up. -/
theorem describeAll_meets {led_status : Int} {handler : UFEError → Hook Unit}
    (connects : Connects env boards) :
    Meets (Opening doc)
      (attempt
        (do
          update fun m =>
            { m with ctx := { m.ctx with devs_ := m.ctx.devs_.takeD env.nFebDevs default } }
          eachDevice fun xDev => do
            initDevice env xDev 0
            describeDevice xDev)
        Exit.UFEError? handler)
      (fun _ => Describing doc boards (· ≠ .led_off) [])
      fun x m => StartEnds doc boards led_status (x.ended m) := by
  apply Meets.conseq _ (fun _ h => h) (fun _ _ h => h)
    fun x m (gaveUp : GivesUp doc boards (· ≠ .led_off) x m) =>
      .rejected gaveUp.unstartable gaveUp.dark gaveUp.rejected
  apply attempt_quiet _ fun _ _ => GivesUp.quiet
  apply Meets.bind _ fun _ => describeConnected_meets connects (by simp)
  apply Meets.update
  intro m opening
  have rests := opening.rests
  refine describing_start rests.1.1 rests.1.2 rests.2 ?_ opening.document ?_
  · exact fun c member same => opening.dark (same ▸ member)
  · rw [List.takeD_length, connects.devices]

/-- The end of start-up, where only the leds can fail. -/
theorem leds_meets (connected : boards ≠ []) {devices : Value}
    (present : doc.get "Devices" = some devices)
    (counted : devices.elements.length = boards.length) :
    Meets (Describing doc boards (· ≠ .led_off) [])
      (do
        note .led_off
        whenever (env.led_status ≠ 0) (returnTo .FatalError_s))
      (fun _ => StartEnds doc boards env.led_status)
      fun x m => StartEnds doc boards env.led_status (x.ended m) := by
  have passed {m : Machine} (described : Describing doc boards (fun _ => True) [] m)
      (lit : .led_off ∈ m.log) {next : Option fsm_state_t}
      (decided : next = if env.led_status = 0 then none else some .FatalError_s) :
      StartEnds doc boards env.led_status { m with next_ := next } := by
    have assigned := described.assigned
    exact .passed ⟨connected, ⟨devices, present, counted⟩, assigned.described⟩ lit
      described.running described.state decided assigned
  apply Meets.bind (Q := fun _ m => Describing doc boards (fun _ => True) [] m ∧ .led_off ∈ m.log)
  · apply Meets.update
    intro m described
    exact ⟨{ described with log := fun _ _ => trivial }, by simp⟩
  intro _
  apply Meets.whenever
  · intro failed
    apply returnTo_meets
    rintro m ⟨described, lit⟩
    exact passed described lit (if_neg failed).symm
  · rintro fine m ⟨described, lit⟩
    rw [not_not] at fine
    have decided := passed described lit (if_pos fine).symm
    rwa [← described.calm] at decided

theorem startUp_meets (loads : Loads env doc) (connects : Connects env boards) :
    Meets (fun m => m.IdleAtRest ∧ .led_off ∉ m.log) (BMDIdle.startUp env)
      (fun _ => StartEnds doc boards env.led_status)
      (fun x m => StartEnds doc boards env.led_status (x.ended m)) := by
  apply Meets.bind (load_meets loads)
  intro _
  apply Meets.bind (note_opening (by simp))
  intro _
  apply Meets.bind (Q := fun _ => Opening doc)
  · apply Meets.whenever
    · exact fun negative => absurd connects.session (not_le.mpr negative)
    · exact fun _ _ opening => opening
  intro _
  apply Meets.bind (note_opening (by simp))
  intro _
  apply Meets.bind (Q := fun _ m => boards ≠ [] ∧ Opening doc m)
  · apply Meets.whenever
    · intro none_
      apply fatal_opening
      intro startable
      exact startable.connected (List.length_eq_zero_iff.mp (connects.devices ▸ none_))
    · intro some_ m opening
      refine ⟨fun empty => some_ ?_, opening⟩
      rw [connects.devices, empty, List.length_nil]
  intro _
  apply Meets.given
  intro connected
  apply Meets.bind (Q := fun doc' m => doc' = doc ∧ Opening doc m)
  · exact Meets.read fun m opening => ⟨opening.document, opening⟩
  intro doc'
  apply Meets.given
  rintro rfl
  apply Meets.bind devices_meets
  intro devices
  apply Meets.given
  intro present
  apply Meets.bind (Q := fun _ m => devices.elements.length = boards.length ∧ Opening doc' m)
  · apply Meets.whenever
    · intro different
      apply fatal_opening
      intro startable
      obtain ⟨devices', there, counted⟩ := startable.counted
      rw [present, Option.some.injEq] at there
      rw [connects.devices, devices.size_eq, there, counted] at different
      exact different rfl
    · intro same m opening
      rw [connects.devices, devices.size_eq, not_not] at same
      exact ⟨same.symm, opening⟩
  intro _
  apply Meets.given
  intro counted
  apply Meets.bind (describeAll_meets connects)
  intro _
  exact leds_meets connected present counted

theorem Machine.Rejected.restless (rejected : m.Rejected doc) : ¬m.IdleAtRest := by
  intro ⟨⟨running, calm⟩, _⟩
  obtain ⟨_, fatal⟩ | ⟨dead, _⟩ := rejected
  · rw [calm] at fatal
    cases fatal
  · rw [running] at dead
    cases dead

/-! ## The turns -/

/-- The first turn of the program. -/
theorem started (loads : Loads env doc) (connects : Connects env boards) :
    StartEnds doc boards env.led_status (Machine.boot.turn (.own env)) := by
  have left : Machine.boot.leave .Idle_s (.own env) = { Machine.boot with next_ := none } :=
    Machine.leave_undefined rfl _
  rw [Machine.turn_changed rfl rfl (by decide) (by rw [left]; rfl), left]
  exact Machine.execute_ended (startUp_meets loads connects) ⟨⟨⟨rfl, rfl⟩, rfl⟩, by decide⟩

/-- The command `Idle` to a machine at rest in Idle. -/
theorem reloaded (loads : Loads env doc) (rests : m.IdleAtRest)
    (known : m.ctx.devs_.map UFEDevice.boards = boards) :
    (m.turn (.to .Idle_s env)).IdleAtRest ∧
        Assigned doc boards (m.turn (.to .Idle_s env)).ctx.devs_ ∨
      ¬(m.turn (.to .Idle_s env)).IdleAtRest ∧ ∃ b ∈ boards, ¬Described doc b := by
  obtain ⟨⟨running, calm⟩, state⟩ := rests
  have toward : m.target (some .Idle_s) = some m.state_ := by
    simp only [Machine.target, calm, state, true_or, if_true]
  rw [Machine.turn_repeated running toward, state]
  refine Machine.execute_ended (T := fun m' : Machine => m'.IdleAtRest ∧ Assigned doc boards m'.ctx.devs_ ∨
      ¬m'.IdleAtRest ∧ ∃ b ∈ boards, ¬Described doc b)
    ((whenSameStateDo_meets loads).conseq (fun _ h => h) (fun _ _ kept => .inl kept) ?_)
    ⟨⟨⟨running, rfl⟩, rfl⟩, known⟩
  exact fun x m' gaveUp => .inr ⟨gaveUp.rejected.restless, gaveUp.undescribed⟩

end Hooks

theorem smooth_connects (ids : List Int) :
    Connects (Answers.smooth ids) (ids.map fun id => [id]) where
  session := le_refl _
  devices := (List.length_map _).symm
  initialised _ _ := rfl
  boards i b place := by
    rw [List.getElem?_map, Option.map_eq_some_iff] at place
    obtain ⟨id, there, rfl⟩ := place
    show ids[i]?.toList = [id]
    rw [there, Option.toList_some]

theorem smooth_loads (ids : List Int) : Loads (Answers.smooth ids) (Answers.sampleConfig ids) :=
  ⟨rfl, rfl⟩

end BMDaq
