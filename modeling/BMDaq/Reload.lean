import BMDaq.DeviceMatching

/-! # Start-up and reload compared

Both paths describe the devices by the same search, so they differ only in what start-up
asks for besides: that there are devices, and as many entries as devices. A reload makes
neither check.
-/

namespace BMDaq

open Json

/-- The reload is accepted if and only if the start is, and then both assign the same
    entries. -/
def Agree (started reloaded : Machine) : Prop :=
  (reloaded.IdleAtRest ↔ started.IdleAtRest) ∧
    (reloaded.IdleAtRest → started.IdleAtRest →
      reloaded.ctx.devs_.map UFEDevice.device_descr_ = started.ctx.devs_.map UFEDevice.device_descr_)

section Reload

variable {doc : Value} {boards : List (List Int)} {m : Machine} {devs devs' : List UFEDevice}

theorem Assigned.unique (assigned : Assigned doc boards devs) (assigned' : Assigned doc boards devs') :
    devs = devs' := by
  induction devs generalizing boards devs' with
  | nil =>
      have none_ := assigned'.boards.trans assigned.boards.symm
      exact (List.map_eq_nil_iff.mp none_).symm
  | cons dev rest ih =>
      have same := assigned'.boards.trans assigned.boards.symm
      cases devs' with
      | nil => cases same
      | cons dev' rest' =>
          obtain ⟨known, later⟩ := List.cons.inj same
          have first := assigned.entries dev List.mem_cons_self
          have first' := assigned'.entries dev' List.mem_cons_self
          rw [known] at first'
          have head : dev = dev' := by
            obtain ⟨b, d⟩ := dev
            obtain ⟨b', d'⟩ := dev'
            obtain rfl : b' = b := known
            obtain rfl : d = d' := first.unique first'
            rfl
          have tail : Assigned doc (rest.map UFEDevice.boards) rest :=
            ⟨rfl, fun d member => assigned.entries d (List.mem_cons_of_mem _ member)⟩
          have tail' : Assigned doc (rest.map UFEDevice.boards) rest' :=
            ⟨later, fun d member => assigned'.entries d (List.mem_cons_of_mem _ member)⟩
          rw [head, ih tail tail']

/-- A start is accepted where the document is startable and the leds answer. -/
theorem StartEnds.accepted_iff (ends : StartEnds doc boards 0 m) :
    m.IdleAtRest ↔ Startable doc boards := by
  cases ends with
  | passed startable _ running state next _ => exact ⟨fun _ => startable, fun _ => ⟨⟨running, next⟩, state⟩⟩
  | rejected unstartable _ why => exact ⟨fun rests => (why.restless rests).elim, fun h => (unstartable h).elim⟩

/-- Start-up and reload agree on a document exactly where the two checks of start-up make no
    difference: some device has no entry anyway, or there are devices and as many entries. -/
theorem reload_agrees_iff {start reload : Answers} (starts : Loads start doc)
    (connects : Connects start boards) (lights : start.led_status = 0) (reloads : Loads reload doc)
    (rests : m.IdleAtRest) (known : m.ctx.devs_.map UFEDevice.boards = boards) :
    Agree (Machine.boot.turn (.own start)) (m.turn (.to .Idle_s reload)) ↔
      (∃ b ∈ boards, ¬Described doc b) ∨
        boards ≠ [] ∧
          ∃ devices, doc.get "Devices" = some devices ∧ devices.elements.length = boards.length := by
  have ends := started starts connects
  rw [lights] at ends
  have accepted := ends.accepted_iff
  obtain ⟨kept, assigned⟩ | ⟨left, undescribed⟩ := reloaded reloads rests known
  · -- every device has its entry, so that only the counts decide about the start
    constructor
    · intro agree
      have startable := accepted.mp (agree.1.mp kept)
      exact .inr ⟨startable.connected, startable.counted⟩
    · rintro (⟨b, member, fails⟩ | ⟨connected, counted⟩)
      · exact (fails (assigned.described b member)).elim
      · have startable : Startable doc boards := ⟨connected, counted, assigned.described⟩
        refine ⟨⟨fun _ => accepted.mpr startable, fun _ => kept⟩, fun _ _ => ?_⟩
        cases ends with
        | passed _ _ _ _ _ assigned' => rw [assigned.unique assigned']
        | rejected unstartable _ _ => exact (unstartable startable).elim
  · refine ⟨fun _ => .inl undescribed, fun _ => ⟨⟨fun kept => (left kept).elim, fun accepts => ?_⟩, ?_⟩⟩
    · obtain ⟨b, member, fails⟩ := undescribed
      exact (fails ((accepted.mp accepts).described b member)).elim
    · exact fun kept => (left kept).elim

end Reload

/-- A machine that has been started with the devices `ids`, of one board each. -/
def startedWith (ids : List Int) : Machine := Machine.boot.turn (.own (.smooth ids))

/-- The devices are started in one order and reloaded from a document in the other. -/
theorem reload_agrees_crossed :
    Agree (Machine.boot.turn (.own crossed)) ((startedWith [3, 5]).turn (.to .Idle_s crossed)) := by
  have rests : (startedWith [3, 5]).IdleAtRest := by
    refine ⟨⟨?_, ?_⟩, ?_⟩ <;> decide +kernel
  have connects : Connects crossed [[3], [5]] := { smooth_connects [3, 5] with }
  exact (reload_agrees_iff ⟨rfl, rfl⟩ connects rfl ⟨rfl, rfl⟩ rests (by decide +kernel)).mpr
    (.inr ⟨by decide, _, rfl, rfl⟩)

/-- One device with the board 3, and a document that also describes a board 5. -/
def surplusEntry : Answers := { Answers.smooth [3] with bm_config_doc_ := Answers.sampleConfig [3, 5] }

/-- The reload of a document with an entry too many is accepted, a start with it is not. -/
theorem surplus_entry_reloads :
    ¬∀ (doc : Value) (boards : List (List Int)) (start reload : Answers) (m : Machine),
      boards.Nodup → Loads start doc → Connects start boards → start.led_status = 0 →
      Loads reload doc → m.IdleAtRest → m.ctx.devs_.map UFEDevice.boards = boards →
      Agree (Machine.boot.turn (.own start)) (m.turn (.to .Idle_s reload)) := by
  intro agree
  have rests : (startedWith [3]).IdleAtRest := by
    refine ⟨⟨?_, ?_⟩, ?_⟩ <;> decide +kernel
  have kept : ((startedWith [3]).turn (.to .Idle_s surplusEntry)).IdleAtRest := by
    refine ⟨⟨?_, ?_⟩, ?_⟩ <;> decide +kernel
  have refused : (Machine.boot.turn (.own surplusEntry)).next_ = some .FatalError_s := by
    decide +kernel
  have connects : Connects surplusEntry [[3]] := { smooth_connects [3] with }
  have agrees := agree (Answers.sampleConfig [3, 5]) [[3]] surplusEntry surplusEntry (startedWith [3])
    (by decide) ⟨rfl, rfl⟩ connects rfl ⟨rfl, rfl⟩ rests (by decide +kernel)
  have accepted := agrees.1.mp kept
  rw [accepted.1.2] at refused
  cases refused

end BMDaq
