import BMDaq.IdleHooks
import BMDaq.Lib.Matching

/-! # Devices and entries correspond one to one

Start-up compares two counts and searches an entry for each device. For devices with
different boards that is a matching: each device gets the one entry with its boards, each
entry goes to one device, and the order in which the document lists them is of no account.
-/

namespace BMDaq

open Json Matching

/-- The document has these entries of `Devices`, and the ids of their boards are integers. -/
structure Describes (doc : Value) (entries : List Value) : Prop where
  devices : ∃ devices, doc.get "Devices" = some devices ∧ devices.elements = entries
  readable : ∀ d ∈ entries, ∃ ids, boardIds d = some ids

/-- The boards of the entry and those of the device have the same ids, each as often. -/
def SameBoards (d : Value) (b : List Int) : Prop := ∃ ids, boardIds d = some ids ∧ ids.Perm b

/-- The same entry with its boards listed in another order. -/
structure Reordered (d d' : Value) : Prop where
  boards : ∃ v v', d.get "Boards" = some v ∧ d'.get "Boards" = some v' ∧
    v.elements.Perm v'.elements
  others : ∀ key, key ≠ "Boards" → d'.get key = d.get key

/-- Start-up has gone past the description of the devices: it calls for the leds. -/
def PastDescription (m : Machine) : Prop := .led_off ∈ m.log

/-- Two starts that come to the same, with entries that are related by `S`. -/
structure SameOutcome (S : Value → Value → Prop) (m m' : Machine) : Prop where
  past : PastDescription m ↔ PastDescription m'
  life : m'.life = m.life
  next : m'.next_ = m.next_
  devices : PastDescription m → List.Forall₂
    (fun dev dev' => dev'.boards = dev.boards ∧ S dev.device_descr_ dev'.device_descr_)
    m.ctx.devs_ m'.ctx.devs_

section Matching

variable {doc doc' : Value} {entries entries' : List Value} {boards : List (List Int)} {b : List Int}
  {d d' : Value}

theorem lists_functional : Functional Lists := by
  rintro d b b' ⟨ids, known, same, sorted⟩ ⟨ids', known', same', sorted'⟩
  rw [known, Option.some.injEq] at known'
  subst known'
  exact (same.symm.trans same').eq_of_pairwise' sorted sorted'

theorem lists_iff (sorted : b.Pairwise (· ≥ ·)) : Lists d b ↔ SameBoards d b :=
  ⟨fun ⟨ids, known, same, _⟩ => ⟨ids, known, same⟩, fun ⟨ids, known, same⟩ => ⟨ids, known, same, sorted⟩⟩

theorem corresponds_iff (sorted : ∀ b ∈ boards, b.Pairwise (· ≥ ·))
    {σ : Fin boards.length ≃ Fin entries.length} :
    Corresponds Lists boards entries σ ↔ Corresponds SameBoards boards entries σ :=
  forall_congr' fun i => lists_iff (sorted _ (List.get_mem boards i))

theorem boardIds_reordered (reordered : Reordered d d') {ids : List Int}
    (known : boardIds d = some ids) : ∃ ids', boardIds d' = some ids' ∧ ids.Perm ids' := by
  obtain ⟨v, v', listed, listed', moved⟩ := reordered.boards
  rw [boardIds, listed] at known
  obtain ⟨ids', read, same⟩ := List.perm_comp_forall₂ moved.symm (mapM_eq_some.mp known)
  refine ⟨ids', ?_, same.symm⟩
  rw [boardIds, listed']
  exact mapM_eq_some.mpr read

theorem Reordered.symm (reordered : Reordered d d') : Reordered d' d where
  boards := by
    obtain ⟨v, v', listed, listed', moved⟩ := reordered.boards
    exact ⟨v', v, listed', listed, moved.symm⟩
  others key other := (reordered.others key other).symm

theorem Reordered.lists_iff (reordered : Reordered d d') : Lists d b ↔ Lists d' b := by
  have forward {d d' : Value} (reordered : Reordered d d') (lists : Lists d b) : Lists d' b := by
    obtain ⟨ids, known, same, sorted⟩ := lists
    obtain ⟨ids', known', moved⟩ := boardIds_reordered reordered known
    exact ⟨ids', known', moved.symm.trans same, sorted⟩
  exact ⟨forward reordered, forward reordered.symm⟩

theorem describedBy_readable {dev : UFEDevice} {ids : List Int} (known : boardIds d = some ids) :
    dev.describedBy d ≠ none := by
  cases listed : d.get "Boards" with
  | none => simp [boardIds, listed] at known
  | some boards =>
      rw [describedBy_eq listed, known]
      split <;> simp

theorem Describes.describe_ne_none (describes : Describes doc entries) (dev : UFEDevice) :
    dev.describe entries ≠ none := by
  obtain ⟨_, _, _, _, _, _, is⟩ | ⟨⟨d, member, unreadable⟩, _⟩ | ⟨_, is⟩ := describe_cases dev entries
  · rw [is]
    nofun
  · obtain ⟨ids, known⟩ := describes.readable d member
    exact (describedBy_readable known unreadable).elim
  · rw [is]
    nofun

theorem Describes.setDeviceDescription_ne_none (describes : Describes doc entries)
    (dev : UFEDevice) : setDeviceDescription dev doc ≠ none := by
  obtain ⟨devices, present, rfl⟩ := describes.devices
  rw [setDeviceDescription, present]
  exact describes.describe_ne_none dev

/-- In a readable document, boards are described as soon as some entry lists them. -/
theorem Describes.described_iff (describes : Describes doc entries) :
    Described doc b ↔ ∃ d ∈ entries, Lists d b := by
  obtain ⟨devices, present, rfl⟩ := describes.devices
  constructor
  · rintro ⟨d, devices', before, after, present', split, lists, -⟩
    rw [present, Option.some.injEq] at present'
    subst present'
    exact ⟨d, by simp [split], lists⟩
  · intro ⟨d, member, lists⟩
    obtain ⟨before, e, after, split, listed, passed, -⟩ | ⟨_, is⟩ | ⟨passed, _⟩ :=
      describe_cases ⟨b, .null⟩ devices.elements
    · exact ⟨e, devices, before, after, present, split, listed, passed⟩
    · exact (describes.describe_ne_none _ is).elim
    · have verdict : UFEDevice.describedBy ⟨b, .null⟩ d = some true := describedBy_true.mpr lists
      rw [describedBy_false.mpr (passed d member)] at verdict
      cases verdict

theorem Describes.listed (describes : Describes doc entries) (first : FirstEntry doc b d) :
    d ∈ entries ∧ Lists d b := by
  obtain ⟨devices, present, rfl⟩ := describes.devices
  obtain ⟨devices', before, after, present', split, lists, -⟩ := first
  rw [present, Option.some.injEq] at present'
  subst present'
  exact ⟨by simp [split], lists⟩

/-- What start-up checks is that devices and entries correspond one to one. -/
theorem Describes.startable_iff (describes : Describes doc entries) (connected : boards ≠ [])
    (distinct : boards.Nodup) :
    Startable doc boards ↔ ∃ σ, Corresponds Lists boards entries σ := by
  rw [exists_corresponds_iff lists_functional distinct]
  obtain ⟨devices, present, same⟩ := describes.devices
  constructor
  · intro startable
    obtain ⟨devices', present', counted⟩ := startable.counted
    rw [present, Option.some.injEq] at present'
    subst present'
    exact ⟨by rw [← counted, same], fun b member =>
      describes.described_iff.mp (startable.described b member)⟩
  · intro ⟨counted, found⟩
    exact ⟨connected, ⟨devices, present, by rw [same, counted]⟩, fun b member =>
      describes.described_iff.mpr (found b member)⟩

/-- The devices after a start that got past their description. -/
theorem Assigned.devices_eq {devs : List UFEDevice} (assigned : Assigned doc boards devs)
    (describes : Describes doc entries) (distinct : boards.Nodup)
    {σ : Fin boards.length ≃ Fin entries.length} (corresponds : Corresponds Lists boards entries σ) :
    devs = List.ofFn fun i => ⟨boards.get i, entries.get (σ i)⟩ := by
  have length : devs.length = boards.length := by rw [← assigned.boards, List.length_map]
  apply List.ext_getElem
  · rw [length, List.length_ofFn]
  · intro i inside inside'
    have small : i < boards.length := length ▸ inside
    have place : devs[i].boards = boards.get ⟨i, small⟩ := by
      simp only [← assigned.boards, List.get_eq_getElem, List.getElem_map]
    obtain ⟨member, lists⟩ := describes.listed (assigned.entries _ (List.getElem_mem inside))
    rw [place] at lists
    have entry := corresponds.eq_get lists_functional distinct member lists
    rw [List.getElem_ofFn, ← entry, ← place]

/-- What a start comes to, in terms of the correspondence. -/
theorem StartEnds.past_iff {led_status : Int} {m : Machine}
    (ends : StartEnds doc boards led_status m) : PastDescription m ↔ Startable doc boards := by
  cases ends with
  | passed startable lit _ _ _ _ => exact ⟨fun _ => startable, fun _ => lit⟩
  | rejected unstartable dark _ => exact ⟨fun lit => (dark lit).elim, fun h => (unstartable h).elim⟩

theorem StartEnds.assigned {led_status : Int} {m : Machine}
    (ends : StartEnds doc boards led_status m) (past : PastDescription m) :
    Assigned doc boards m.ctx.devs_ := by
  cases ends with
  | passed _ _ _ _ _ assigned => exact assigned
  | rejected _ dark _ => exact (dark past).elim

/-- With a readable document the machine goes on running, with the next change decided. -/
theorem StartEnds.next_of_readable {led_status : Int} {m : Machine}
    (ends : StartEnds doc boards led_status m) (describes : Describes doc entries) :
    m.life = .running ∧
      (PastDescription m → m.next_ = if led_status = 0 then none else some .FatalError_s) ∧
      (¬PastDescription m → m.next_ = some .FatalError_s) := by
  cases ends with
  | passed _ lit running _ next _ => exact ⟨running, fun _ => next, fun dark => (dark lit).elim⟩
  | rejected _ dark why =>
      obtain ⟨running, fatal⟩ | ⟨_, dev, unreadable⟩ := why
      · exact ⟨running, fun lit => (dark lit).elim, fun _ => fatal⟩
      · exact (describes.setDeviceDescription_ne_none dev unreadable).elim

/-- Relisting the entries, each along a relation that keeps its boards, does not change what
    a start comes to. -/
theorem sameOutcome_of_relisted {S : Value → Value → Prop} {led_status : Int} {m m' : Machine}
    (ends : StartEnds doc boards led_status m) (ends' : StartEnds doc' boards led_status m')
    (describes : Describes doc entries) (describes' : Describes doc' entries')
    (connected : boards ≠ []) (distinct : boards.Nodup) (relisted : Relisted S entries entries')
    (keeps : ∀ d d' b, S d d' → (Lists d b ↔ Lists d' b)) : SameOutcome S m m' := by
  have past : PastDescription m ↔ PastDescription m' := by
    rw [ends.past_iff, ends'.past_iff, describes.startable_iff connected distinct,
      describes'.startable_iff connected distinct, exists_corresponds_iff lists_functional distinct,
      exists_corresponds_iff lists_functional distinct, relisted.length_eq]
    simp only [relisted.found_iff keeps]
  obtain ⟨running, next, fatal⟩ := ends.next_of_readable describes
  obtain ⟨running', next', fatal'⟩ := ends'.next_of_readable describes'
  refine ⟨past, running'.trans running.symm, ?_, fun gone => ?_⟩
  · by_cases gone : PastDescription m
    · rw [next gone, next' (past.mp gone)]
    · rw [fatal gone, fatal' (fun gone' => gone (past.mpr gone'))]
  · obtain ⟨σ, corresponds⟩ :=
      (describes.startable_iff connected distinct).mp (ends.past_iff.mp gone)
    obtain ⟨σ', corresponds'⟩ :=
      (describes'.startable_iff connected distinct).mp (ends'.past_iff.mp (past.mp gone))
    rw [(ends.assigned gone).devices_eq describes distinct corresponds,
      (ends'.assigned (past.mp gone)).devices_eq describes' distinct corresponds',
      List.forall₂_iff_get]
    refine ⟨by rw [List.length_ofFn, List.length_ofFn], fun i inside inside' => ?_⟩
    simp only [List.get_eq_getElem, List.getElem_ofFn]
    exact ⟨trivial, corresponds.related lists_functional distinct relisted keeps corresponds' _⟩

end Matching

/-- Start-up gets past the description of the devices exactly where devices and entries
    correspond one to one, each entry with the ids of its device. Each device is then given
    the entry that corresponds to it, there is no other correspondence, and no entry is given
    twice or left over. The order of the entries, and of the boards in an entry, does not
    change what the start comes to. -/
theorem devices_matched {env : Answers} {doc : Value} {entries : List Value}
    {boards : List (List Int)} (loads : Loads env doc) (connects : Connects env boards)
    (describes : Describes doc entries) (connected : boards ≠ [])
    (sorted : ∀ b ∈ boards, b.Pairwise (· ≥ ·)) (distinct : boards.Nodup) :
    (PastDescription (Machine.boot.turn (.own env)) ↔
      ∃ σ, Corresponds SameBoards boards entries σ) ∧
    (∀ σ, Corresponds SameBoards boards entries σ →
      (Machine.boot.turn (.own env)).ctx.devs_ =
          (List.ofFn fun i => ⟨boards.get i, entries.get (σ i)⟩) ∧
        ((Machine.boot.turn (.own env)).ctx.devs_.map UFEDevice.device_descr_).Perm entries ∧
        ∀ σ', Corresponds SameBoards boards entries σ' → σ' = σ) ∧
    ∀ doc' entries', Describes doc' entries' →
      (entries.Perm entries' → SameOutcome (· = ·) (Machine.boot.turn (.own env))
        (Machine.boot.turn (.own { env with bm_config_doc_ := doc' }))) ∧
      (Relisted Reordered entries entries' → SameOutcome Reordered (Machine.boot.turn (.own env))
        (Machine.boot.turn (.own { env with bm_config_doc_ := doc' }))) := by
  have ends := started loads connects
  have matched : PastDescription (Machine.boot.turn (.own env)) ↔
      ∃ σ, Corresponds SameBoards boards entries σ := by
    rw [ends.past_iff, describes.startable_iff connected distinct]
    exact exists_congr fun σ => corresponds_iff sorted
  refine ⟨matched, ?_, ?_⟩
  · intro σ corresponds
    have assigned := ends.assigned (matched.mpr ⟨σ, corresponds⟩)
    rw [← corresponds_iff sorted] at corresponds
    have devices := assigned.devices_eq describes distinct corresponds
    refine ⟨devices, ?_, fun σ' corresponds' => ?_⟩
    · rw [devices, List.map_ofFn]
      exact corresponds.perm
    · rw [← corresponds_iff sorted] at corresponds'
      exact corresponds.unique lists_functional distinct corresponds'
  · intro doc' entries' describes'
    have loads' : Loads { env with bm_config_doc_ := doc' } doc' := ⟨loads.loaded, rfl⟩
    have connects' : Connects { env with bm_config_doc_ := doc' } boards := { connects with }
    have ends' := started loads' connects'
    constructor
    · intro reordered
      refine sameOutcome_of_relisted ends ends' describes describes' connected distinct
        ⟨entries, List.forall₂_refl entries, reordered⟩ ?_
      rintro d _ b rfl
      rfl
    · intro relisted
      exact sameOutcome_of_relisted ends ends' describes describes' connected distinct relisted
        fun d d' b reordered => reordered.lists_iff

/-- Two devices, described in the other order. -/
def crossed : Answers := { Answers.smooth [3, 5] with bm_config_doc_ := Answers.sampleConfig [5, 3] }

theorem crossed_matched : ∃ σ, Corresponds SameBoards [[3], [5]]
    [Answers.sampleConfig.device 5, Answers.sampleConfig.device 3] σ := by
  have connects : Connects crossed [[3], [5]] := { smooth_connects [3, 5] with }
  have describes : Describes (Answers.sampleConfig [5, 3])
      [Answers.sampleConfig.device 5, Answers.sampleConfig.device 3] := by
    refine ⟨⟨_, rfl, rfl⟩, ?_⟩
    simp only [List.forall_mem_cons, List.not_mem_nil, false_implies, implies_true, and_true]
    exact ⟨⟨[5], by decide +kernel⟩, ⟨[3], by decide +kernel⟩⟩
  have past : PastDescription (Machine.boot.turn (.own crossed)) := by
    unfold PastDescription
    decide +kernel
  exact (devices_matched ⟨rfl, rfl⟩ connects describes (by decide) (by decide) (by decide)).1.mp past

/-- Without any device, the empty correspondence is there, but start-up does not go past the
    description: it asks for a fatal error before. -/
theorem no_device_stops :
    ¬∀ (env : Answers) (doc : Value) (entries : List Value) (boards : List (List Int)),
      Loads env doc → Connects env boards → Describes doc entries →
      (∀ b ∈ boards, b.Pairwise (· ≥ ·)) → boards.Nodup →
      (PastDescription (Machine.boot.turn (.own env)) ↔
        ∃ σ, Corresponds SameBoards boards entries σ) := by
  intro matched
  have empty : Corresponds SameBoards [] [] (Equiv.refl (Fin 0)) := fun i => i.elim0
  have stops : ¬PastDescription (Machine.boot.turn (.own (.smooth []))) := by
    unfold PastDescription
    decide +kernel
  have claimed := matched (.smooth []) (Answers.sampleConfig []) [] [] (smooth_loads [])
    (smooth_connects []) ⟨⟨_, rfl, rfl⟩, nofun⟩ nofun List.nodup_nil
  exact stops (claimed.mpr ⟨_, empty⟩)

end BMDaq
