import BMDaq.HookFrames

/-! # Describing the devices

`setDeviceDescription` searches the entries of `Devices` for the first one that lists the
boards of a device. What it finds is stated here of the document alone. Start-up and a
reload in Idle both run it over the devices, one after the other, and either each device
ends with its entry or the loop is left at the first device without one.
-/

namespace BMDaq

open Json Block

/-- The ids of the boards an entry lists, in its order; none where reading them throws. -/
def boardIds (d : Value) : Option (List Int) := do
  let boards ← d.get "Boards"
  boards.elements.mapM fun b => do (← b.get "Id").asInt

/-- The entry lists the boards `b`, which the search takes to be in descending order. -/
def Lists (d : Value) (b : List Int) : Prop :=
  ∃ ids, boardIds d = some ids ∧ ids.Perm b ∧ b.Pairwise (· ≥ ·)

/-- The entry does not list them, and what the search reads of it can be read: the number of
    boards, and their ids when the number is right. -/
def PassedOver (d : Value) (b : List Int) : Prop :=
  ∃ boards, d.get "Boards" = some boards ∧
    (boards.size ≠ b.length ∨ (∃ ids, boardIds d = some ids) ∧ ¬Lists d b)

/-- The document describes the boards `b` by its entry `d`, the first to list them. -/
def FirstEntry (doc : Value) (b : List Int) (d : Value) : Prop :=
  ∃ devices before after, doc.get "Devices" = some devices ∧
    devices.elements = before ++ d :: after ∧ Lists d b ∧ ∀ e ∈ before, PassedOver e b

/-- The document describes the boards `b`. -/
def Described (doc : Value) (b : List Int) : Prop := ∃ d, FirstEntry doc b d

section Search

variable {dev dev' : UFEDevice} {d : Value} {entries : List Value} {ids b : List Int}

theorem Json.Value.size_eq (v : Value) : v.size = v.elements.length := by
  cases v <;> simp [Value.size, Value.elements]

theorem mapM_eq_some {α β : Type} {f : α → Option β} {xs : List α} {ys : List β} :
    xs.mapM f = some ys ↔ List.Forall₂ (fun x y => f x = some y) xs ys := by
  induction xs generalizing ys with
  | nil => simp [List.forall₂_nil_left_iff, eq_comm]
  | cons x rest ih =>
      simp only [List.mapM_cons, List.forall₂_cons_left_iff, Option.bind_eq_bind,
        Option.bind_eq_some_iff, Option.pure_def, Option.some.injEq, ← ih]
      constructor
      · rintro ⟨y, here, later, there, rfl⟩
        exact ⟨y, later, here, there, rfl⟩
      · rintro ⟨y, later, here, there, rfl⟩
        exact ⟨y, here, later, there, rfl⟩

theorem boardIds_length {boards : Value} (listed : d.get "Boards" = some boards)
    (known : boardIds d = some ids) : ids.length = boards.size := by
  rw [boardIds, listed] at known
  rw [boards.size_eq]
  exact (mapM_eq_some.mp known).length_eq.symm

theorem insertionSort_eq_iff : ids.insertionSort (· ≥ ·) = b ↔ ids.Perm b ∧ b.Pairwise (· ≥ ·) := by
  constructor
  · rintro rfl
    exact ⟨(ids.perm_insertionSort _).symm, ids.pairwise_insertionSort _⟩
  · intro ⟨same, sorted⟩
    exact ((ids.perm_insertionSort _).trans same).eq_of_pairwise' (ids.pairwise_insertionSort _) sorted

/-- What the comparison with one entry comes to, once the entry can be read. -/
theorem describedBy_eq {boards : Value} (listed : d.get "Boards" = some boards) :
    dev.describedBy d =
      if boards.size ≠ dev.boards.length then some false
      else (boardIds d).map fun ids => decide (ids.insertionSort (· ≥ ·) = dev.boards) := by
  unfold UFEDevice.describedBy boardIds
  rw [listed]
  simp only [Option.bind_eq_bind, Option.bind_some]
  split
  · rfl
  · exact (Option.map_eq_bind ..).symm

theorem describedBy_unlisted (unlisted : d.get "Boards" = none) : dev.describedBy d = none := by
  rw [UFEDevice.describedBy, unlisted]
  rfl

theorem describedBy_true : dev.describedBy d = some true ↔ Lists d dev.boards := by
  cases listed : d.get "Boards" with
  | none =>
      rw [describedBy_unlisted listed]
      simp [Lists, boardIds, listed]
  | some boards =>
      rw [describedBy_eq listed]
      constructor
      · intro found
        split at found
        · cases found
        · obtain ⟨ids, known, same⟩ := Option.map_eq_some_iff.mp found
          exact ⟨ids, known, insertionSort_eq_iff.mp (of_decide_eq_true same)⟩
      · intro ⟨ids, known, same, sorted⟩
        have right : boards.size = dev.boards.length :=
          (boardIds_length listed known).symm.trans same.length_eq
        rw [if_neg (not_not.mpr right), known, Option.map_some,
          decide_eq_true (insertionSort_eq_iff.mpr ⟨same, sorted⟩)]

theorem describedBy_false : dev.describedBy d = some false ↔ PassedOver d dev.boards := by
  cases listed : d.get "Boards" with
  | none =>
      rw [describedBy_unlisted listed]
      simp [PassedOver, listed]
  | some boards =>
      have found : dev.describedBy d = some true ↔ Lists d dev.boards := describedBy_true
      rw [describedBy_eq listed] at found ⊢
      constructor
      · intro passed
        refine ⟨boards, listed, ?_⟩
        split at passed
        · exact .inl ‹_›
        · obtain ⟨ids, known, -⟩ := Option.map_eq_some_iff.mp passed
          refine .inr ⟨⟨ids, known⟩, fun lists => ?_⟩
          rw [if_neg ‹_›, passed] at found
          cases found.mpr lists
      · rintro ⟨_, listed', wrong | ⟨⟨ids, known⟩, fails⟩⟩
        · rw [listed, Option.some.injEq] at listed'
          rw [if_pos (listed' ▸ wrong)]
        · split
          · rfl
          · rw [if_neg ‹_›, known] at found
            rw [known]
            cases verdict : decide (ids.insertionSort (· ≥ ·) = dev.boards) with
            | false => simp [verdict]
            | true => exact (fails (found.mp (by simp [verdict]))).elim

theorem describe_cons_found (lists : Lists d dev.boards) :
    dev.describe (d :: entries) = some (true, { dev with device_descr_ := d }) := by
  rw [UFEDevice.describe, describedBy_true.mpr lists]
  rfl

theorem describe_cons_passed (passed : PassedOver d dev.boards) :
    dev.describe (d :: entries) = dev.describe entries := by
  rw [UFEDevice.describe, describedBy_false.mpr passed]
  rfl

theorem describe_cons_unreadable (unreadable : dev.describedBy d = none) :
    dev.describe (d :: entries) = none := by
  rw [UFEDevice.describe, unreadable]
  rfl

/-- The search over the entries, as a case analysis: it stops at an entry that lists the
    boards or cannot be read, and otherwise passes over all of them. -/
theorem describe_cases (dev : UFEDevice) (entries : List Value) :
    (∃ before d after, entries = before ++ d :: after ∧ Lists d dev.boards ∧
      (∀ e ∈ before, PassedOver e dev.boards) ∧
      dev.describe entries = some (true, { dev with device_descr_ := d })) ∨
    ((∃ d ∈ entries, dev.describedBy d = none) ∧ dev.describe entries = none) ∨
    ((∀ e ∈ entries, PassedOver e dev.boards) ∧ dev.describe entries = some (false, dev)) := by
  induction entries with
  | nil => exact .inr (.inr ⟨nofun, rfl⟩)
  | cons d rest ih =>
      cases verdict : dev.describedBy d with
      | none =>
          exact .inr (.inl ⟨⟨d, List.mem_cons_self, verdict⟩, describe_cons_unreadable verdict⟩)
      | some found =>
          cases found with
          | true =>
              have lists := describedBy_true.mp verdict
              exact .inl ⟨[], d, rest, rfl, lists, nofun, describe_cons_found lists⟩
          | false =>
              have passed := describedBy_false.mp verdict
              have front {before : List Value} (all : ∀ e ∈ before, PassedOver e dev.boards) :
                  ∀ e ∈ d :: before, PassedOver e dev.boards :=
                List.forall_mem_cons.mpr ⟨passed, all⟩
              rw [describe_cons_passed passed]
              obtain ⟨before, e, after, rfl, lists, all, is⟩ |
                ⟨⟨e, member, unreadable⟩, is⟩ | ⟨all, is⟩ := ih
              · exact .inl ⟨d :: before, e, after, rfl, lists, front all, is⟩
              · exact .inr (.inl ⟨⟨e, List.mem_cons_of_mem d member, unreadable⟩, is⟩)
              · exact .inr (.inr ⟨front all, is⟩)

theorem describe_found {before after : List Value} (lists : Lists d dev.boards)
    (passed : ∀ e ∈ before, PassedOver e dev.boards) :
    dev.describe (before ++ d :: after) = some (true, { dev with device_descr_ := d }) := by
  induction before with
  | nil => exact describe_cons_found lists
  | cons e before ih =>
      rw [List.cons_append, describe_cons_passed (passed e List.mem_cons_self)]
      exact ih fun e' member => passed e' (List.mem_cons_of_mem _ member)

theorem setDeviceDescription_found {doc : Value} (first : FirstEntry doc dev.boards d) :
    setDeviceDescription dev doc = some (true, { dev with device_descr_ := d }) := by
  obtain ⟨devices, before, after, present, split, lists, passed⟩ := first
  rw [setDeviceDescription, present]
  simp only [Option.bind_eq_bind, Option.bind_some, split]
  exact describe_found lists passed

theorem FirstEntry.unique {doc d' : Value} (first : FirstEntry doc b d) (first' : FirstEntry doc b d') :
    d = d' := by
  have found : setDeviceDescription ⟨b, .null⟩ doc = some (true, ⟨b, d⟩) :=
    setDeviceDescription_found first
  have found' : setDeviceDescription ⟨b, .null⟩ doc = some (true, ⟨b, d'⟩) :=
    setDeviceDescription_found first'
  rw [found] at found'
  injection found' with both
  injection both with _ same
  injection same

/-- `setDeviceDescription` finds the first entry, and nothing else. -/
theorem setDeviceDescription_eq_true {doc : Value} :
    setDeviceDescription dev doc = some (true, dev') ↔
      ∃ d, FirstEntry doc dev.boards d ∧ dev' = { dev with device_descr_ := d } := by
  constructor
  · intro found
    rw [setDeviceDescription, Option.bind_eq_bind, Option.bind_eq_some_iff] at found
    obtain ⟨devices, present, found⟩ := found
    obtain ⟨before, d, after, split, lists, passed, is⟩ | ⟨_, is⟩ | ⟨_, is⟩ :=
      describe_cases dev devices.elements
    · rw [is] at found
      injection found with both
      injection both with _ same
      exact ⟨d, ⟨devices, before, after, present, split, lists, passed⟩, same.symm⟩
    · rw [is] at found
      cases found
    · rw [is] at found
      injection found with both
      injection both with wrong
      cases wrong
  · rintro ⟨d, first, rfl⟩
    exact setDeviceDescription_found first

end Search

/-! ## The loop over the devices -/

/-- Each device has the boards of its place and the first entry that lists them. -/
structure Assigned (doc : Value) (boards : List (List Int)) (devs : List UFEDevice) : Prop where
  boards : devs.map UFEDevice.boards = boards
  entries : ∀ dev ∈ devs, FirstEntry doc dev.boards dev.device_descr_

/-- In the middle of the loop: the devices in `rest` are still to come, and only calls in
    `K` have been made. -/
structure Describing (doc : Value) (boards : List (List Int)) (K : Call → Prop) (rest : List Nat)
    (m : Machine) : Prop where
  running : m.life = .running
  calm : m.next_ = none
  state : m.state_ = .Idle_s
  log : ∀ c ∈ m.log, K c
  document : m.ctx.bm_config_doc_ = doc
  length : m.ctx.devs_.length = boards.length
  done : ∀ i dev, i ∉ rest → m.ctx.devs_[i]? = some dev →
    boards[i]? = some dev.boards ∧ FirstEntry doc dev.boards dev.device_descr_

/-- The loop was left at a device without an entry: a fatal error is asked for, or the
    document could not be read and the program ends. -/
structure GivesUp (doc : Value) (boards : List (List Int)) (K : Call → Prop) (x : Exit)
    (m : Machine) : Prop where
  undescribed : ∃ b ∈ boards, ¬Described doc b
  log : ∀ c ∈ m.log, K c
  exit : x = .returned ∧ m.life = .running ∧ m.next_ = some .FatalError_s ∨
    x = .escaped ∧ ∃ dev, setDeviceDescription dev doc = none

section Loop

variable {doc : Value} {boards : List (List Int)} {K : Call → Prop} {rest : List Nat} {i : Nat}
  {m : Machine} {dev : UFEDevice} {devs : List UFEDevice}

theorem Describing.assigned (described : Describing doc boards K [] m) :
    Assigned doc boards m.ctx.devs_ := by
  constructor
  · apply List.ext_getElem?
    intro i
    rw [List.getElem?_map]
    cases there : m.ctx.devs_[i]? with
    | some dev => exact (described.done i dev List.not_mem_nil there).1.symm
    | none =>
        rw [List.getElem?_eq_none_iff, described.length] at there
        exact (List.getElem?_eq_none there).symm
  · intro dev member
    obtain ⟨i, there⟩ := List.getElem?_of_mem member
    exact (described.done i dev List.not_mem_nil there).2

/-- What the machine holds after the assignment of an entry to device `i`. -/
theorem Describing.next (described : Describing doc boards K (i :: rest) m)
    (place : boards[i]? = some dev.boards) (first : FirstEntry doc dev.boards dev.device_descr_) :
    Describing doc boards K rest
      { m with ctx := { m.ctx with devs_ := m.ctx.devs_.set i dev } } := by
  refine { described with length := ?_, done := ?_ }
  · rw [List.length_set]
    exact described.length
  · intro j dev' outside there
    rcases eq_or_ne j i with rfl | ne
    · rw [List.getElem?_set_self'] at there
      obtain ⟨_, _, rfl⟩ := Option.map_eq_some_iff.mp there
      exact ⟨place, first⟩
    · rw [List.getElem?_set_ne ne.symm] at there
      refine described.done j dev' ?_ there
      exact List.not_mem_cons_of_ne_of_not_mem ne outside

/-- One device is described, or the loop gives up. -/
theorem describeDevice_meets (doc : Value) (K : Call → Prop) (rest : List Nat)
    (there : devs[i]? = some dev) (place : boards[i]? = some dev.boards) :
    Meets (fun m => Describing doc boards K (i :: rest) m ∧ m.ctx.devs_ = devs) (describeDevice i)
      (fun _ m => Describing doc boards K rest m ∧
        ∃ d, m.ctx.devs_ = devs.set i { dev with device_descr_ := d })
      (GivesUp doc boards K) := by
  rintro m ⟨described, rfl⟩
  have here : m.ctx.devs_.getD i default = dev := by
    rw [List.getD_eq_getElem?_getD, there, Option.getD_some]
  have member : dev.boards ∈ boards := List.mem_of_getElem? place
  unfold describeDevice
  simp only [bind_run, Block.read, here, described.document]
  cases found : setDeviceDescription dev doc with
  | none =>
      refine ⟨⟨_, member, ?_⟩, described.log, .inr ⟨rfl, dev, found⟩⟩
      intro ⟨d, first⟩
      rw [setDeviceDescription_found first] at found
      cases found
  | some result =>
      obtain ⟨verdict, dev'⟩ := result
      cases verdict with
      | true =>
          obtain ⟨d, first, rfl⟩ := setDeviceDescription_eq_true.mp found
          exact ⟨described.next place first, d, rfl⟩
      | false =>
          refine ⟨⟨_, member, ?_⟩, described.log, .inl ⟨rfl, described.running, rfl⟩⟩
          intro ⟨d, first⟩
          rw [setDeviceDescription_found first] at found
          cases found

end Loop

end BMDaq
