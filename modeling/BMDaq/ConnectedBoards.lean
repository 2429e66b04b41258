import BMDaq.BoardSetup
import BMDaq.DeviceDescription
import BMDaq.SessionDiscipline

/-! # The boards that are set up

The settings follow the descriptions of the devices, and a device is described by the entry
that lists its boards. So the boards that are configured before the readout are those that the
devices have told, as long as a device that is initialised again has the boards it had. A
device whose initialisation has failed has told none.
-/

namespace BMDaq

open Block BMDStandby

/-! ## The boards in the settings -/

/-- The board of device `i` that a call configures. -/
def Call.configures (i : Nat) : Call → Option Int
  | .configFromBinary j _ board_id _ => if j = i then some board_id else none
  | .configFromJson j _ board_id _ => if j = i then some board_id else none
  | _ => none

def boardsConfigured (i : Nat) (calls : List Call) : List Int :=
  calls.filterMap (Call.configures i)

@[simp] theorem boardsConfigured_append (i : Nat) (calls calls' : List Call) :
    boardsConfigured i (calls ++ calls') = boardsConfigured i calls ++ boardsConfigured i calls' :=
  List.filterMap_append ..

/-- Among the settings of one device, those that configure the boards of device `j`. -/
def Configures (i : Nat) (ids : List Int) (calls : List Call) : Prop :=
  ∀ j, boardsConfigured j calls = if i = j then ids else []

section Settings

variable {i : Nat} {calls : List Call}

theorem binary_configures (entry : Nat) (id : Int) (file : String) (params : Nat) :
    Configures i [id] [.configFromBinary i entry id file, .setDirectParams i entry id params] := by
  intro j
  by_cases own : i = j <;> simp [boardsConfigured, Call.configures, own]

theorem json_configures (entry : Nat) (id : Int) (file : String) :
    Configures i [id] [.configFromJson i entry id file] := by
  intro j
  by_cases own : i = j <;> simp [boardsConfigured, Call.configures, own]

/-- The settings of an entry configure its board. -/
theorem boardSettings_configures {board : Json.Value} {entry : Nat}
    (made : boardSettings i board entry = some calls) :
    ∃ id, (board.get "Id").bind (·.asInt) = some id ∧ Configures i [id] calls := by
  unfold boardSettings at made
  cases named : (board.get "Id").bind (·.asInt) with
  | none => simp [named] at made
  | some id =>
      refine ⟨id, rfl, ?_⟩
      simp only [named, Option.bind_eq_bind, Option.bind_some] at made
      cases binary : configurationFile board "ConfigurationBinary" with
      | none => simp [binary] at made
      | some file =>
          simp only [binary, Option.bind_some] at made
          cases file with
          | some file =>
              cases made
              exact binary_configures entry id _ _
          | none =>
              cases josn : configurationFile board "ConfigurationJosn" with
              | none => simp [josn] at made
              | some file =>
                  cases file with
                  | none => simp [josn] at made
                  | some file =>
                      simp only [josn, Option.bind_some, Option.some.injEq] at made
                      subst made
                      exact json_configures entry id _

theorem entries_configure {entries : List Json.Value} {k : Nat}
    (made : collect (fun board => boardSettings i board.1 board.2) (entries.zipIdx k) = some calls) :
    ∃ ids, entries.mapM (fun b => (b.get "Id").bind (·.asInt)) = some ids ∧
      Configures i ids calls := by
  induction entries generalizing k calls with
  | nil =>
      cases made
      exact ⟨[], rfl, fun j => by simp [boardsConfigured]⟩
  | cons board rest ih =>
      obtain ⟨first, later, here, there, rfl⟩ := joined_eq_some.mp made
      obtain ⟨id, named, configures⟩ := boardSettings_configures here
      obtain ⟨ids, known, configures'⟩ := ih there
      refine ⟨id :: ids, by simp [named, known], fun j => ?_⟩
      rw [boardsConfigured_append, configures, configures']
      split <;> rfl

/-- The settings of a device configure the boards that its description lists. -/
theorem deviceSettings_configures {device_descr_ : Json.Value}
    (made : deviceSettings i device_descr_ = some calls) :
    ∃ ids, boardIds device_descr_ = some ids ∧ Configures i ids calls := by
  unfold deviceSettings at made
  cases listed : device_descr_.get "Boards" with
  | none => simp [listed] at made
  | some boards =>
      simp only [listed, Option.bind_eq_bind, Option.bind_some] at made
      obtain ⟨ids, known, configures⟩ := entries_configure made
      refine ⟨ids, ?_, configures⟩
      rw [boardIds, listed]
      exact known

/-- The instructions of the recorder configure no board. -/
theorem recorderSettings_configures {doc : Json.Value} (made : recorderSettings doc = some calls)
    (j : Nat) : boardsConfigured j calls = [] := by
  rw [recorderSettings_eq] at made
  simp only [Option.bind_eq_some_iff, joined_eq_some, Option.some.injEq] at made
  obtain ⟨path, _, _, _, rfl, ⟨run, _, _, _, rfl, ⟨limit, _, rfl⟩, rfl⟩, rfl⟩ := made
  simp [boardsConfigured, Call.configures]

/-- In the settings of several devices, each device has its own. -/
theorem collected_configure {f : Nat → Option (List Call)} {xs : List Nat} {out : List Call}
    (distinct : xs.Nodup)
    (own : ∀ i calls, f i = some calls → ∃ ids, Configures i ids calls)
    (made : collect f xs = some out) :
    (∀ i ∈ xs, ∃ calls, f i = some calls ∧ boardsConfigured i out = boardsConfigured i calls) ∧
      ∀ i ∉ xs, boardsConfigured i out = [] := by
  induction xs generalizing out with
  | nil =>
      cases made
      exact ⟨fun _ member => (nomatch member), fun _ _ => rfl⟩
  | cons x rest ih =>
      obtain ⟨first, later, here, there, rfl⟩ := joined_eq_some.mp made
      obtain ⟨fresh, distinct⟩ := List.nodup_cons.mp distinct
      obtain ⟨inside, outside⟩ := ih distinct there
      obtain ⟨ids, configures⟩ := own x first here
      constructor
      · intro i member
        cases member with
        | head => exact ⟨first, here, by rw [boardsConfigured_append, outside x fresh, List.append_nil]⟩
        | tail _ member =>
            obtain ⟨calls, made, same⟩ := inside i member
            have other : x ≠ i := fun same => fresh (same ▸ member)
            exact ⟨calls, made, by rw [boardsConfigured_append, configures, if_neg other, same]; rfl⟩
      · intro i absent
        rw [List.mem_cons, not_or] at absent
        rw [boardsConfigured_append, configures, if_neg (Ne.symm absent.1), outside i absent.2]
        rfl

/-- The prescribed settings configure the boards that the description of a device lists. -/
theorem prescribed_configures {ctx : UFEContext} {dev : UFEDevice} (made : prescribed ctx = some calls)
    (there : ctx.devs_[i]? = some dev) (lists : Lists dev.device_descr_ dev.boards) :
    (boardsConfigured i calls).Perm dev.boards := by
  obtain ⟨boards, instructions, here, rest, rfl⟩ := joined_eq_some.mp made
  have small : i < ctx.devs_.length := (List.getElem?_eq_some_iff.mp there).1
  have found : ctx.devs_.getD i default = dev := by
    rw [List.getD_eq_getElem?_getD, there, Option.getD_some]
  have own (i : Nat) (calls : List Call)
      (made : deviceSettings i (ctx.devs_.getD i default).device_descr_ = some calls) :
      ∃ ids, Configures i ids calls := by
    obtain ⟨ids, _, configures⟩ := deviceSettings_configures made
    exact ⟨ids, configures⟩
  obtain ⟨calls, settings, same⟩ :=
    (collected_configure List.nodup_range own here).1 i (List.mem_range.mpr small)
  rw [found] at settings
  obtain ⟨ids, listed, configures⟩ := deviceSettings_configures settings
  obtain ⟨ids', listed', perm, _⟩ := lists
  rw [listed, Option.some.injEq] at listed'
  subst listed'
  rw [boardsConfigured_append, same, configures i, if_pos rfl, recorderSettings_configures rest i,
    List.append_nil]
  exact perm

end Settings

/-! ## The boards of the devices -/

/-- The device at place `i` has an entry that lists its boards. If it has any, they are those
    it is initialised with. -/
structure UFEDevice.Known (boards : Nat → List Int) (i : Nat) (dev : UFEDevice) : Prop where
  lists : Lists dev.device_descr_ dev.boards
  initialised : dev.boards ≠ [] → dev.boards = boards i

/-- All devices are known, besides those at the places in `except`. -/
def KnownBut (except : Nat → Prop) (boards : Nat → List Int) (ctx : UFEContext) : Prop :=
  ∀ i dev, ¬except i → ctx.devs_[i]? = some dev → dev.Known boards i

def AllKnown (boards : Nat → List Int) : UFEContext → Prop := KnownBut (fun _ => False) boards

def Machine.Known (boards : Nat → List Int) (m : Machine) : Prop := AllKnown boards m.ctx

/-- A device that has not been initialised: no boards, and no description. -/
theorem default_known (boards : Nat → List Int) (i : Nat) : (default : UFEDevice).Known boards i where
  lists := ⟨[], rfl, .refl _, .nil⟩
  initialised some := absurd rfl some

/-- Initialising a device once more changes nothing. -/
theorem AllKnown.reinit {boards : Nat → List Int} {env : Answers} (keeps : env.boards = boards) :
    Reinit (AllKnown boards) env := by
  intro ctx i known described
  have same : (ctx.devs_.modify i fun d => { d with boards := env.boards i }) = ctx.devs_ := by
    apply List.ext_getElem?
    intro j
    rw [List.getElem?_modify]
    by_cases here : i = j
    · subst here
      cases there : ctx.devs_[i]? with
      | none => simp
      | some dev =>
          have device := known i dev id there
          rw [List.getD_eq_getElem?_getD, there, Option.getD_some] at described
          obtain ⟨entries, listed, some⟩ := described
          have occupied : dev.boards ≠ [] := by
            intro none
            obtain ⟨ids, read, perm, _⟩ := device.lists
            rw [none] at perm
            have length := boardIds_length listed read
            rw [perm.eq_nil, entries.size_eq] at length
            exact some (List.length_eq_zero_iff.mp length.symm)
          simp [keeps, ← device.initialised occupied]
    · simp [here]
  rw [same]
  exact known

/-! ## The hooks of Idle -/

/-- The devices stay as they are. -/
def sameDevices : Frame Exit Machine where
  Rel m m' := m'.ctx.devs_ = m.ctx.devs_
  refl _ := rfl
  trans first second := second.trans first
  Exits _ := True

theorem sameDevices_passive : Passive sameDevices := ⟨fun _ => trivial, fun _ _ _ => rfl, fun _ _ => rfl⟩

/-- How a hook is left early: with all devices known, or where one cannot be described, by the
    end of the program or a request. -/
def LeavesKnown (boards : Nat → List Int) (x : Exit) (m : Machine) : Prop :=
  m.Known boards ∨ x = .escaped ∨ x = .returned ∧ m.next_ = some .FatalError_s

section Idle

variable {boards : Nat → List Int} {env : Answers} {except : Nat → Prop} {i : Nat}

theorem known_stays {α : Type} {p : Hook α} (inside : Within sameDevices p) :
    Meets (Machine.Known boards) p (fun _ => Machine.Known boards)
      (LeavesKnown boards) := by
  have kept := inside.stays (P := Machine.Known boards) fun m m' moved known => by
    unfold Machine.Known AllKnown KnownBut at known ⊢
    rwa [show m'.ctx.devs_ = m.ctx.devs_ from moved]
  exact kept.conseq (fun _ h => h) (fun _ _ h => h) fun _ _ known => .inl known

theorem eachDevice_known {body : Nat → Hook Unit}
    (every : ∀ i, Meets (Machine.Known boards) (body i) (fun _ => Machine.Known boards)
      (LeavesKnown boards)) :
    Meets (Machine.Known boards) (eachDevice body) (fun _ => Machine.Known boards)
      (LeavesKnown boards) := by
  apply Meets.bind (Q := fun _ => Machine.Known boards) (known_stays (Within.read _))
  intro n
  apply Meets.each (I := fun _ => Machine.Known boards)
  exact fun i _ _ => every i

theorem loadBMConfig_devices : Within sameDevices (loadBMConfig env) := by
  apply Within.bind
  · apply Within.update
    exact fun _ => rfl
  intro _
  exact sameDevices_passive.call rfl

theorem note_devices {c : Call} : Within sameDevices (note c) := by
  apply Within.update
  exact fun _ => rfl

/-- After `init` a device has its boards, and its description has to be looked up. -/
theorem initDevice_known (keeps : env.boards = boards) :
    Meets (Machine.Known boards) (initDevice env i 0)
      (fun _ m => KnownBut (· = i) boards m.ctx ∧
        ∀ dev, m.ctx.devs_[i]? = some dev → dev.boards ≠ [] → dev.boards = boards i)
      (LeavesKnown boards) := by
  apply Meets.bind (known_stays (sameDevices_passive.call rfl))
  intro _
  apply Meets.update
  intro m known
  constructor
  · intro j dev other there
    have kept : m.ctx.devs_[j]? = some dev :=
      (List.getElem?_modify_ne _ _ (Ne.symm other)).symm.trans there
    exact known j dev id kept
  · intro dev there _
    rw [List.getElem?_modify_eq] at there
    obtain ⟨_, _, rfl⟩ := Option.map_eq_some_iff.mp there
    exact congrFun keeps i

/-- The device at place `i` gets a description, or the hook is left. -/
theorem describeDevice_known :
    Meets (fun m => KnownBut (· = i) boards m.ctx ∧
        ∀ dev, m.ctx.devs_[i]? = some dev → dev.boards ≠ [] → dev.boards = boards i)
      (describeDevice i) (fun _ => Machine.Known boards) (LeavesKnown boards) := by
  rintro m ⟨others, initialised⟩
  unfold describeDevice
  simp only [bind_run, Block.read]
  cases found : setDeviceDescription (m.ctx.devs_.getD i default) m.ctx.bm_config_doc_ with
  | none => exact .inr (.inl rfl)
  | some result =>
      obtain ⟨verdict, dev⟩ := result
      cases verdict with
      | false => exact .inr (.inr ⟨rfl, rfl⟩)
      | true =>
          obtain ⟨d, first, rfl⟩ := setDeviceDescription_eq_true.mp found
          obtain ⟨_, _, _, _, _, lists, _⟩ := first
          intro j dev _ there
          by_cases here : i = j
          · subst here
            have small : i < m.ctx.devs_.length := by
              have inside := (List.getElem?_eq_some_iff.mp there).1
              rwa [List.length_set] at inside
            have now := List.getElem?_eq_getElem small
            rw [List.getD_eq_getElem?_getD, now, Option.getD_some] at lists there
            have same : _ = dev := Option.some.inj ((List.getElem?_set_self small).symm.trans there)
            subst same
            exact ⟨lists, initialised m.ctx.devs_[i] now⟩
          · exact others j dev (Ne.symm here) ((List.getElem?_set_ne here).symm.trans there)

/-- A `try` block with one of the handlers. -/
theorem attempt_known {p onFatal : Hook Unit} (quiet : Within sameDevices onFatal)
    (tried : Meets (Machine.Known boards) p (fun _ => Machine.Known boards)
      (LeavesKnown boards)) :
    Meets (Machine.Known boards) (attempt p Exit.UFEError? (bySeverity onFatal))
      (fun _ => Machine.Known boards) (LeavesKnown boards) := by
  have passive := sameDevices_passive
  apply Meets.attempt tried
  · intro x e caught
    rw [UFEError?_eq_some] at caught
    subst caught
    have handler : Within sameDevices (bySeverity onFatal e) := by
      apply Within.ite fun _ => passive.returnTo _
      intro _
      apply Within.whenever
      intro _
      exact Within.bind quiet fun _ => passive.returnTo _
    apply (known_stays handler).pre
    intro m left
    simpa [LeavesKnown] using left
  · exact fun _ _ _ left => left

/-- What a resized list holds. -/
theorem takeD_place {devs : List UFEDevice} {n : Nat} {dev : UFEDevice}
    (there : (devs.takeD n default)[i]? = some dev) : devs[i]? = some dev ∨ dev = default := by
  induction n generalizing devs i with
  | zero => simp at there
  | succ n ih =>
      cases devs with
      | nil =>
          rw [List.takeD_nil] at there
          exact .inr (List.eq_of_mem_replicate (List.mem_of_getElem? there))
      | cons d rest =>
          cases i with
          | zero => exact .inl there
          | succ i =>
              have later : (rest.takeD n default)[i]? = some dev := there
              have place : rest[i]? = some dev ∨ dev = default := ih later
              exact place

theorem startUp_known (keeps : env.boards = boards) :
    Meets (Machine.Known boards) (BMDIdle.startUp env) (fun _ => Machine.Known boards)
      (LeavesKnown boards) := by
  have passive := sameDevices_passive
  have stops {c : Prop} [Decidable c] :
      Within sameDevices (whenever c (returnTo .FatalError_s)) :=
    Within.whenever fun _ => passive.returnTo _
  apply Meets.bind (attempt_known note_devices (known_stays loadBMConfig_devices))
  intro _
  apply Meets.bind (known_stays note_devices)
  intro _
  apply Meets.bind (known_stays stops)
  intro _
  apply Meets.bind (known_stays note_devices)
  intro _
  apply Meets.bind (known_stays stops)
  intro _
  apply Meets.bind (known_stays (Within.read _))
  intro doc
  apply Meets.bind (known_stays (passive.checked _))
  intro devices
  apply Meets.bind (known_stays stops)
  intro _
  apply Meets.bind (Q := fun _ => Machine.Known boards)
  · apply attempt_known (Within.pure ())
    apply Meets.bind (Q := fun _ => Machine.Known boards)
    · -- the devices that are added have no boards yet
      apply Meets.update
      intro m known i dev _ there
      cases takeD_place there with
      | inl old => exact known i dev id old
      | inr fresh =>
          subst fresh
          exact default_known boards i
    intro _
    apply eachDevice_known
    intro i
    exact Meets.bind (initDevice_known keeps) fun _ => describeDevice_known
  intro _
  apply Meets.bind (known_stays note_devices)
  intro _
  exact known_stays stops

theorem reload_known :
    Meets (Machine.Known boards) (BMDIdle.whenSameStateDo env)
      (fun _ => Machine.Known boards) (LeavesKnown boards) := by
  apply attempt_known note_devices
  apply Meets.bind (known_stays loadBMConfig_devices)
  intro _
  apply eachDevice_known
  intro i
  apply describeDevice_known.pre
  intro m known
  exact ⟨fun j dev _ => known j dev id, fun dev there => (known i dev id there).initialised⟩

theorem leaveIdle_devices (new_state : fsm_state_t) :
    Within sameDevices (BMDIdle.whenLeavingStateDo env new_state) := by
  have passive := sameDevices_passive
  apply Within.whenever
  intro _
  apply Within.bind (eachDevice_within fun _ => Within.whenever fun _ => passive.call rfl)
  intro _
  apply Within.bind note_devices
  intro _
  apply Within.bind (Within.whenever fun _ => passive.returnTo _)
  intro _
  apply Within.bind note_devices
  intro _
  apply Within.bind note_devices
  intro _
  exact passive.call rfl

end Idle

/-! ## Runs -/

namespace Machine

variable {m : Machine} {t : Turn} {boards : Nat → List Int}

/-- A device could not be described, and there are no workers: only a fatal error can follow. -/
def Undescribed (m : Machine) : Prop :=
  m.staff.workers = [] ∧ (m.state_ = .Idle_s ∧ m.next_ = some .FatalError_s ∨
    m.state_ = .FatalError_s ∧ m.next_ = none)

/-- All devices are known, unless the machine is on its way to the end. -/
def Labelled (boards : Nat → List Int) (m : Machine) : Prop :=
  m.life = .running → m.Known boards ∨ m.Undescribed

theorem Known.of_same {m' : Machine} (known : m.Known boards) (same : m'.ctx = m.ctx) :
    m'.Known boards := by
  unfold Known
  rwa [same]

/-- The start, and a reload, leave a machine labelled. -/
theorem idle_labelled {hook : Hook Unit} (known : m.Known boards)
    (met : Meets (Known boards) hook (fun _ => Known boards) (LeavesKnown boards))
    (vacant : (m.execute hook).staff.workers = []) (state : (m.execute hook).state_ = .Idle_s) :
    (m.execute hook).Labelled boards := by
  intro alive
  cases execute_meets met known alive with
  | inl known => exact .inl known
  | inr left =>
      obtain known | escaped | ⟨_, fatal⟩ := left
      · exact .inl known
      · cases escaped
      · exact .inr ⟨vacant, .inl ⟨state, fatal⟩⟩

theorem execute_devices {hook : Hook Unit} (known : m.Known boards)
    (within : Within sameDevices hook) : (m.execute hook).Known boards := by
  have same : (hook m).state.ctx.devs_ = m.ctx.devs_ := within.rel m
  unfold Known AllKnown KnownBut at known ⊢
  rwa [execute_ctx, same]

/-- No leaving hook touches the devices. -/
theorem leave_known (known : m.Known boards) (s : fsm_state_t) (t : Turn) :
    (m.leave s t).Known boards := by
  have called : Known boards { m with next_ := none } := known
  by_cases idle : m.state_ = .Idle_s
  · unfold leave
    rw [idle]
    exact execute_devices called (leaveIdle_devices s)
  · exact known.of_same (leave_unhired t fun here => absurd here idle).1.2

/-- After a failed description only `FatalError_s` is entered, and nothing is requested there. -/
theorem Undescribed.entered (undescribed : m.Undescribed) {s : fsm_state_t}
    (toward : m.target t.command = some s) (other : s ≠ m.state_) (env : Answers) :
    (((m.leave s t).moveTo s).execute (whenEnteringStateDo env s m.state_)).Undescribed := by
  obtain ⟨vacant, ⟨idle, fatal⟩ | ⟨state, calm⟩⟩ := undescribed
  · cases target_eq toward with
    | inl requested =>
        rw [fatal] at requested
        cases requested
        rw [leave_idle idle (by simp)]
        have silent : Within requestFrame (BMDFatalError.whenEnteringStateDo env) := by
          apply Within.bind (closeDevices_within requestFrame_logs)
          intro _
          apply Within.bind (note_within requestFrame_logs (.inr trivial))
          intro _
          exact closeSession_within requestFrame_logs trivial
        have unmanned : Within staffFrame (BMDFatalError.whenEnteringStateDo env) :=
          BMDFatalError.whenEnteringStateDo_within staffFrame_admits trivial
        have staff := (execute_same (m := moveTo { m with next_ := none } .FatalError_s) unmanned).1
        refine ⟨?_, .inr ⟨entered_state_ env .FatalError_s m.state_ { m with next_ := none }, ?_⟩⟩
        · exact (congrArg Staff.workers staff).trans vacant
        · rw [execute_next_]
          exact silent.rel (moveTo { m with next_ := none } .FatalError_s)
    | inr commanded =>
        rw [fatal] at commanded
        cases commanded.1
  · cases target_eq toward with
    | inl requested =>
        rw [calm] at requested
        cases requested
    | inr commanded =>
        obtain ⟨_, _, same | permitted⟩ := commanded
        · exact absurd same other
        · simp [state, allowed] at permitted

/-- The state is repeated only where it stays as it is. -/
theorem Undescribed.repeated (undescribed : m.Undescribed)
    (toward : m.target t.command = some m.state_) (env : Answers) :
    ({ m with next_ := none }.execute (whenSameStateDo env m.state_)).Undescribed := by
  obtain ⟨vacant, ⟨idle, fatal⟩ | ⟨state, calm⟩⟩ := undescribed
  · -- the pending error comes before any command
    cases target_eq toward with
    | inl requested =>
        rw [idle, fatal] at requested
        cases requested
    | inr commanded =>
        rw [fatal] at commanded
        cases commanded.1
  · rw [state]
    exact ⟨vacant, .inr ⟨rfl, rfl⟩⟩

theorem turn_labelled (laid : m.Laid) (labelled : m.Labelled boards)
    (keeps : t.entering.boards = boards) : (m.turn t).Labelled boards := by
  have laid' := turn_laid laid t
  have turned := turned m t
  generalize m.turn t = m' at turned laid'
  intro alive'
  cases turned with
  | ignored => exact labelled alive'
  | died alive toward other dead => exact absurd alive' dead
  | repeated alive toward =>
      cases labelled alive with
      | inr undescribed => exact .inr (undescribed.repeated toward t.entering)
      | inl known =>
          have called : Known boards { m with next_ := none } := known
          have state := repeated_state_ t.entering m.state_ { m with next_ := none }
          by_cases idle : m.state_ = .Idle_s
          · have vacant := laid'.vacant alive' (.inl (state.trans idle))
            rw [idle] at vacant state alive' ⊢
            exact idle_labelled called reload_known vacant state alive'
          · exact .inl (called.of_same (execute_unhired (same_unhired idle)).1.2)
  | @changed s alive toward other survived =>
      cases labelled alive with
      | inr undescribed => exact .inr (undescribed.entered toward other t.entering)
      | inl known =>
          have left : ((m.leave s t).moveTo s).Known boards := leave_known known s t
          have state := entered_state_ t.entering s m.state_ (m.leave s t)
          by_cases idle : s = .Idle_s
          · subst idle
            have vacant := laid'.vacant alive' (.inl state)
            have started : Meets (Known boards)
                (BMDIdle.whenEnteringStateDo t.entering m.state_) (fun _ => Known boards)
                (LeavesKnown boards) :=
              Meets.whenever (fun _ => startUp_known keeps) fun _ _ known => known
            exact idle_labelled left started vacant state alive'
          by_cases on : s = .Standby_s ∧ m.state_ = .Idle_s
          · obtain ⟨rfl, old⟩ := on
            have nobody : ¬((m.leave .Standby_s t).moveTo .Standby_s).ReadsOut := by
              rw [leave_idle old (by simp)]
              exact fun reads => reads.staffed (laid.vacant alive (.inl old))
            rw [old]
            have configured := execute_keeps (turnOn_configured (AllKnown.reinit keeps))
              ⟨nobody, left⟩ fun _ _ configured => ⟨configured.setUp, configured.context⟩
            exact .inl configured.context
          · have entered : Within unhiredFrame (whenEnteringStateDo t.entering s m.state_) :=
              entering_unhired idle fun standby old => on ⟨standby, old⟩
            exact .inl (left.of_same (execute_unhired entered).1.2)

theorem after_labelled {turns : List Turn} (keeps : ∀ t ∈ turns, t.entering.boards = boards) :
    (after turns).Labelled boards := by
  have started : boot.Labelled boards := fun _ => .inl fun _ _ _ there => nomatch there
  have both : (after turns).Laid ∧ (after turns).Labelled boards := by
    apply run_invariant (P := fun m => m.Laid ∧ m.Labelled boards)
      (Q := fun t => t.entering.boards = boards) ⟨boot_laid, started⟩ _ keeps (run_step boot turns)
    intro m t m' keeps both stepped
    cases stepped
    exact ⟨turn_laid both.1 t, turn_labelled both.1 both.2 keeps⟩
  exact both.2

end Machine

end BMDaq
