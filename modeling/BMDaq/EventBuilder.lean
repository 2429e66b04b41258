import BMDaq.FragmentBuilder
import BMDaq.DataScanner

/-! # The event builder

`BMDEventBuilder` keeps one fragment builder per board and one event bank. A container
goes to the builder of its board; when the bank's fragment counter equals the number of
builders the event is stamped, handed to the recorder and the bank is cleared. The clock
and the recorder's verdict are inputs of a call. `process` never throws: it catches
`UFEError` and turns it into a status.
-/

namespace BMDaq

/-- What the recorder has been handed, in order, by `write()`. -/
structure UFEDataRecorder where
  written : List BMDEventMemBank

/-- `std::map<int, std::shared_ptr<DataFragmentBuilder>>`; a null pointer is `none`. -/
abbrev BoardMap := AList (fun _ : Int => Option DataFragmentBuilder)

namespace BoardMap

def size (m : BoardMap) : Nat := m.keys.length

/-- `operator[]`: a missing key is inserted with a null pointer. -/
def subscript (m : BoardMap) (b : Int) : BoardMap × Option DataFragmentBuilder :=
  match m.lookup b with
  | some builder => (m, builder)
  | none => (m.insert b none, none)

/-- The configured boards, each with a builder behind it, and no other key. -/
def Staffed (m : BoardMap) (boards : List Int) : Prop :=
  (∀ b, b ∈ m ↔ b ∈ boards) ∧ ∀ b ∈ boards, ∃ builder, m.lookup b = some (some builder)

theorem subscript_of_lookup {m : BoardMap} {b : Int} {builder : Option DataFragmentBuilder}
    (found : m.lookup b = some builder) : m.subscript b = (m, builder) := by
  simp only [subscript, found]

theorem subscript_of_missing {m : BoardMap} {b : Int} (missing : b ∉ m) :
    m.subscript b = (m.insert b none, none) := by
  simp only [subscript, AList.lookup_eq_none.mpr missing]

/-- Replacing the builder behind a present key leaves the number of keys alone. -/
theorem size_insert {m : BoardMap} {b : Int} {builder : Option DataFragmentBuilder}
    (present : b ∈ m) : size (m.insert b builder) = m.size := by
  have inKeys : b ∈ m.keys := AList.mem_keys.mp present
  have some : 0 < m.keys.length := List.length_pos_of_mem inKeys
  simp only [size, AList.keys_insert, List.length_cons, List.length_erase_of_mem inKeys]
  omega

theorem Staffed.insert {m : BoardMap} {boards : List Int} (staffed : m.Staffed boards) {b : Int}
    (present : b ∈ boards) (builder : DataFragmentBuilder) :
    Staffed (m.insert b (some builder)) boards := by
  refine ⟨fun k => ?_, fun k member => ?_⟩
  · rw [AList.mem_insert, staffed.1 k]
    exact ⟨fun either => either.elim (fun same => same ▸ present) id, .inr⟩
  · by_cases same : k = b
    · exact ⟨builder, same ▸ AList.lookup_insert m⟩
    · rw [AList.lookup_insert_ne same]
      exact staffed.2 k member

theorem Staffed.known {m : BoardMap} {boards : List Int} (staffed : m.Staffed boards) {b : Int}
    {builder : Option DataFragmentBuilder} (found : m.lookup b = some builder) : b ∈ boards :=
  (staffed.1 b).mp (AList.lookup_isSome.mp (by rw [found]; rfl))

theorem Staffed.size {m : BoardMap} {boards : List Int} (staffed : m.Staffed boards) :
    m.size = boards.dedup.length := by
  have perm : m.keys.Perm boards.dedup := by
    rw [List.perm_ext_iff_of_nodup m.keys_nodup boards.nodup_dedup]
    intro b
    rw [← AList.mem_keys, staffed.1, List.mem_dedup]
  exact perm.length_eq

end BoardMap

structure BMDEventBuilder where
  board_event_builders_ : BoardMap
  spill_mem_bank_ : Option BMDEventMemBank
  event_id_ : Nat
  recorder_ : UFEDataRecorder

/-- What a call to `process` meets outside: the clock, and what `recorder_.write` throws
    if it is called and fails. -/
structure Environment where
  now : Nat
  write : Option UFEError

/-- A container arriving at the event builder, and the environment it meets. -/
structure Arrival where
  container : UFEDataContainer
  env : Environment

/-- How a call to `process` ends. -/
structure Reply where
  status : proc_status_t
  builder : BMDEventBuilder
  output_ : UFEDataContainer

/-- Content of the memory that the bank constructors are given. -/
structure Memory where
  spill : Nat → UInt8
  board : Int → Nat → UInt8

namespace BMDEventBuilder

/-- Constructor; the event id keeps counting over later `close`/`init` pairs. -/
def new (event_id_ : Nat) : BMDEventBuilder := ⟨∅, none, event_id_, ⟨[]⟩⟩

/-- `init()`; `boards` are the boards of all connected devices. -/
def init (boards : List Int) (mem : Memory) (eb : BMDEventBuilder) : BMDEventBuilder :=
  { eb with
    spill_mem_bank_ := some (.fresh mem.spill)
    board_event_builders_ := boards.foldl
      (fun m b => m.insert b (some (.new b (mem.board b)))) eb.board_event_builders_ }

/-- `header_->time_` and `header_->event_id_` of a complete event. -/
def stamp (bank : BMDEventMemBank) (now event_id_ : Nat) : BMDEventMemBank :=
  (bank.setHeader .time_ now).setHeader .event_id_ event_id_

/-- The last two lines of `process`: the container is recycled. -/
def recycle (output_ : UFEDataContainer) (eb : BMDEventBuilder) : Reply :=
  ⟨.OK_s, eb, output_.clear⟩

/-- The catch block: errors below `SERIOUS` fall through to the normal end. -/
def caught (output_ : UFEDataContainer) (e : UFEError) (eb : BMDEventBuilder) : Reply :=
  match e.severity with
  | .SERIOUS => ⟨.Error_s, eb, output_⟩
  | .FATAL => ⟨.FatalError_s, eb, output_⟩
  | .other => recycle output_ eb

/-- Stamping, writing and clearing the complete event in `bank`. -/
def writeEvent (env : Environment) (output_ : UFEDataContainer) (bank : BMDEventMemBank)
    (eb : BMDEventBuilder) : Reply :=
  let event := stamp bank env.now eb.event_id_
  let eb := { eb with
    spill_mem_bank_ := some event
    event_id_ := (eb.event_id_ + 1) % 2 ^ 32
    recorder_ := ⟨eb.recorder_.written ++ [event]⟩ }
  match env.write with
  | none => recycle output_ { eb with spill_mem_bank_ := some event.clear }
  | some e => caught output_ e eb

/-- `BMDEventBuilder::process()` on the container at `*output_`. -/
def process (dw : MDdataWordBM) (env : Environment) (output_ : UFEDataContainer)
    (eb : BMDEventBuilder) : Except Fault Reply :=
  let boardId := output_.boardId
  match eb.board_event_builders_.subscript boardId, eb.spill_mem_bank_ with
  | (_, none), _ => .error .nullDereference
  | (_, some _), none => .error .nullDereference
  | (builders, some builder), some bank =>
    match DataFragmentBuilder.process dw output_ ⟨builder, bank⟩ with
    | .undefined f => .error f
    | .threw e s => .ok (caught output_ e { eb with
        board_event_builders_ := builders.insert boardId (some s.builder)
        spill_mem_bank_ := some s.out_data_ })
    | .done s =>
      let eb := { eb with
        board_event_builders_ := builders.insert boardId (some s.builder)
        spill_mem_bank_ := some s.out_data_ }
      if s.out_data_.header_ .n_fragments_ = eb.board_event_builders_.size then
        .ok (writeEvent env output_ s.out_data_ eb)
      else .ok (recycle output_ eb)

/-- `close()`. -/
def close (eb : BMDEventBuilder) : BMDEventBuilder :=
  { eb with board_event_builders_ := ∅, spill_mem_bank_ := none }

/-- One call that returns `OK_s`. -/
def okStep (dw : MDdataWordBM) (eb : BMDEventBuilder) (a : Arrival) : Option BMDEventBuilder :=
  match process dw a.env a.container eb with
  | .ok ⟨.OK_s, eb', _⟩ => some eb'
  | _ => none

/-- One call with defined behaviour, whatever its status. -/
def anyStep (dw : MDdataWordBM) (eb : BMDEventBuilder) (a : Arrival) : Option BMDEventBuilder :=
  match process dw a.env a.container eb with
  | .ok reply => some reply.builder
  | .error _ => none

/-! ## The stamped event -/

section Stamp

variable (bank : BMDEventMemBank) (now id : Nat)

@[simp] theorem stamp_size : (stamp bank now id).size = bank.size := by
  rw [stamp, BMDMemBank.setHeader_size, BMDMemBank.setHeader_size]

@[simp] theorem stamp_payload : (stamp bank now id).payload = bank.payload := by
  rw [stamp, BMDMemBank.setHeader_payload, BMDMemBank.setHeader_payload]

theorem stamp_event_id : (stamp bank now id).header_ .event_id_ = id % 2 ^ 32 :=
  BMDMemBank.header_setHeader _ _ _

/-- Members other than the two stamped ones keep their value. -/
theorem stamp_header {m : BMDEventHeader} (notTime : m ≠ .time_) (notId : m ≠ .event_id_) :
    (stamp bank now id).header_ m = bank.header_ m := by
  rw [stamp, BMDMemBank.header_setHeader_other _ _ _ _ notId.symm,
    BMDMemBank.header_setHeader_other _ _ _ _ notTime.symm]

theorem stamp_sizeRight (right : bank.SizeRight) : (stamp bank now id).SizeRight := by
  rw [BMDMemBank.SizeRight, stamp_size]
  exact (stamp_header bank now id (by decide) (by decide)).trans right

end Stamp

/-! ## Initialisation -/

theorem init_staffed (boards : List Int) (mem : Memory) (id : Nat) :
    ((new id).init boards mem).board_event_builders_.Staffed boards := by
  have grows (known : List Int) (m : BoardMap) (staffed : m.Staffed known) (rest : List Int) :
      (rest.foldl (fun m b => m.insert b (some (.new b (mem.board b)))) m : BoardMap).Staffed
        (known ++ rest) := by
    induction rest generalizing known m with
    | nil => rwa [List.append_nil]
    | cons b rest ih =>
        have one : BoardMap.Staffed (m.insert b (some (.new b (mem.board b)))) (known ++ [b]) := by
          refine ⟨fun k => ?_, fun k member => ?_⟩
          · rw [AList.mem_insert, staffed.1 k, List.mem_append, List.mem_singleton, or_comm]
          · by_cases same : k = b
            · exact ⟨_, by rw [same]; exact AList.lookup_insert m⟩
            · rw [AList.lookup_insert_ne same]
              refine staffed.2 k ((List.mem_append.mp member).resolve_right ?_)
              simpa using same
        simpa only [List.foldl_cons, List.append_assoc, List.singleton_append] using
          ih (known ++ [b]) _ one
  have empty : BoardMap.Staffed ∅ [] :=
    ⟨fun b => by simp, fun b member => (List.not_mem_nil member).elim⟩
  exact grows [] ∅ empty boards

theorem init_lookup (boards : List Int) (mem : Memory) (id : Nat) {b : Int} (present : b ∈ boards) :
    ((new id).init boards mem).board_event_builders_.lookup b =
      some (some (.new b (mem.board b))) := by
  have keeps (rest : List Int) (m : BoardMap)
      (known : b ∈ rest ∨ m.lookup b = some (some (.new b (mem.board b)))) :
      (rest.foldl (fun m b => m.insert b (some (.new b (mem.board b)))) m : BoardMap).lookup b =
        some (some (.new b (mem.board b))) := by
    induction rest generalizing m with
    | nil => exact known.resolve_left List.not_mem_nil
    | cons k rest ih =>
        apply ih
        by_cases same : b = k
        · exact .inr (same ▸ AList.lookup_insert m)
        · rw [AList.lookup_insert_ne same]
          exact known.imp_left fun member => (List.mem_cons.mp member).resolve_left same
  exact keeps boards ∅ (.inl present)

/-! ## One call -/

section Call

variable {dw : MDdataWordBM} {eb eb' : BMDEventBuilder} {env : Environment}
  {c : UFEDataContainer}

/-- The lookup of an unconfigured board yields the null pointer it has just inserted. -/
theorem process_unknown (dw : MDdataWordBM) (env : Environment) (unknown : c.boardId ∉ eb.board_event_builders_) :
    process dw env c eb = .error .nullDereference := by
  simp only [process, BoardMap.subscript_of_missing unknown]

/-- A call for a configured board, with the builder and the bank it works on named. -/
theorem process_known {builder : DataFragmentBuilder} {bank : BMDEventMemBank}
    (found : eb.board_event_builders_.lookup c.boardId = some (some builder))
    (ready : eb.spill_mem_bank_ = some bank) :
    process dw env c eb =
      match DataFragmentBuilder.process dw c ⟨builder, bank⟩ with
      | .undefined f => .error f
      | .threw e s => .ok (caught c e { eb with
          board_event_builders_ := eb.board_event_builders_.insert c.boardId (some s.builder)
          spill_mem_bank_ := some s.out_data_ })
      | .done s =>
        if s.out_data_.header_ .n_fragments_ = eb.board_event_builders_.size then
          .ok (writeEvent env c s.out_data_ { eb with
            board_event_builders_ := eb.board_event_builders_.insert c.boardId (some s.builder)
            spill_mem_bank_ := some s.out_data_ })
        else .ok (recycle c { eb with
          board_event_builders_ := eb.board_event_builders_.insert c.boardId (some s.builder)
          spill_mem_bank_ := some s.out_data_ }) := by
  have present : c.boardId ∈ eb.board_event_builders_ :=
    AList.lookup_isSome.mp (by rw [found]; rfl)
  simp only [process, BoardMap.subscript_of_lookup found, ready, BoardMap.size_insert present]

/-- Whatever happens to the error or to the write, the catch block keeps the object. -/
theorem caught_builder (e : UFEError) : (caught c e eb).builder = eb := by
  unfold caught
  cases e.severity <;> rfl

theorem writeEvent_builders (bank : BMDEventMemBank) :
    (writeEvent env c bank eb).builder.board_event_builders_ = eb.board_event_builders_ ∧
      ∃ bank', (writeEvent env c bank eb).builder.spill_mem_bank_ = some bank' := by
  unfold writeEvent
  cases env.write with
  | none => exact ⟨rfl, _, rfl⟩
  | some e =>
      dsimp only
      rw [caught_builder]
      exact ⟨rfl, _, rfl⟩

/-- An event takes the next id when it is handed to the recorder, written or not. -/
inductive IdsTaken (eb eb' : BMDEventBuilder) : Prop where
  | none : eb'.event_id_ = eb.event_id_ → eb'.recorder_ = eb.recorder_ → IdsTaken eb eb'
  | one (event) : eb'.event_id_ = (eb.event_id_ + 1) % 2 ^ 32 →
      eb'.recorder_.written = eb.recorder_.written ++ [event] → IdsTaken eb eb'

theorem writeEvent_ids (bank : BMDEventMemBank) {old : BMDEventBuilder}
    (id : old.event_id_ = eb.event_id_) (recorder : old.recorder_ = eb.recorder_) :
    IdsTaken old (writeEvent env c bank eb).builder := by
  unfold writeEvent
  cases env.write with
  | none => exact .one _ (by rw [id]; rfl) (by rw [recorder]; rfl)
  | some e =>
      dsimp only
      rw [caught_builder]
      exact .one _ (by rw [id]) (by rw [recorder])

theorem anyStep_eq_some {a : Arrival} :
    anyStep dw eb a = some eb' ↔
      ∃ reply, process dw a.env a.container eb = .ok reply ∧ reply.builder = eb' := by
  unfold anyStep
  cases process dw a.env a.container eb with
  | error f => simp
  | ok reply => simp

/-- A call with defined behaviour, whatever its status, goes to the builder behind the key
    of the container's board and replaces it; the event bank stays allocated. -/
theorem process_ok_builders {reply : Reply} (ends : process dw env c eb = .ok reply) :
    ∃ builder bank builder' bank',
      eb.board_event_builders_.lookup c.boardId = some (some builder) ∧
      eb.spill_mem_bank_ = some bank ∧
      reply.builder.board_event_builders_ =
        eb.board_event_builders_.insert c.boardId (some builder') ∧
      reply.builder.spill_mem_bank_ = some bank' ∧ IdsTaken eb reply.builder := by
  cases found : eb.board_event_builders_.lookup c.boardId with
  | none =>
      rw [process_unknown _ _ (AList.lookup_eq_none.mp found)] at ends
      cases ends
  | some pointer =>
  cases pointer with
  | none =>
      simp only [process, BoardMap.subscript_of_lookup found] at ends
      cases ends
  | some builder =>
  cases ready : eb.spill_mem_bank_ with
  | none =>
      simp only [process, BoardMap.subscript_of_lookup found, ready] at ends
      cases ends
  | some bank =>
  rw [process_known found ready] at ends
  cases called : DataFragmentBuilder.process dw c ⟨builder, bank⟩ with
  | undefined f =>
      rw [called] at ends
      cases ends
  | threw e s =>
      simp only [called, Except.ok.injEq] at ends
      subst ends
      rw [caught_builder]
      exact ⟨builder, bank, s.builder, s.out_data_, rfl, rfl, rfl, rfl, .none rfl rfl⟩
  | done s =>
      simp only [called] at ends
      split at ends
      · obtain rfl := Except.ok.inj ends
        obtain ⟨bank', kept⟩ := (writeEvent_builders s.out_data_).2
        exact ⟨builder, bank, s.builder, bank', rfl, rfl, (writeEvent_builders s.out_data_).1, kept,
          writeEvent_ids s.out_data_ rfl rfl⟩
      · obtain rfl := Except.ok.inj ends
        exact ⟨builder, bank, s.builder, s.out_data_, rfl, rfl, rfl, rfl, .none rfl rfl⟩

/-- The state after an error-free call: the builder of the board has moved on, and the
    bank is either kept or has just been written and cleared. -/
inductive Advanced (dw : MDdataWordBM) (c : UFEDataContainer) (now : Nat)
    (eb eb' : BMDEventBuilder) : Prop where
  | collected {builder bank s} :
      eb.board_event_builders_.lookup c.boardId = some (some builder) →
      eb.spill_mem_bank_ = some bank →
      DataFragmentBuilder.process dw c ⟨builder, bank⟩ = .done s →
      s.out_data_.header_ .n_fragments_ ≠ eb.board_event_builders_.size →
      eb' = ⟨eb.board_event_builders_.insert c.boardId (some s.builder), some s.out_data_,
        eb.event_id_, eb.recorder_⟩ → Advanced dw c now eb eb'
  | wrote {builder bank s} :
      eb.board_event_builders_.lookup c.boardId = some (some builder) →
      eb.spill_mem_bank_ = some bank →
      DataFragmentBuilder.process dw c ⟨builder, bank⟩ = .done s →
      s.out_data_.header_ .n_fragments_ = eb.board_event_builders_.size →
      eb' = ⟨eb.board_event_builders_.insert c.boardId (some s.builder),
        some (stamp s.out_data_ now eb.event_id_).clear, (eb.event_id_ + 1) % 2 ^ 32,
        ⟨eb.recorder_.written ++ [stamp s.out_data_ now eb.event_id_]⟩⟩ → Advanced dw c now eb eb'

/-- Inversion of a call that returns `OK_s`: a write that fails is reported. -/
theorem okStep_advanced {a : Arrival} (reported : ∀ e ∈ a.env.write, e.severity ≠ .other)
    (ok : okStep dw eb a = some eb') : Advanced dw a.container a.env.now eb eb' := by
  unfold okStep at ok
  split at ok
  case h_2 => cases ok
  next reply ends =>
  obtain rfl := Option.some.inj ok
  cases found : eb.board_event_builders_.lookup a.container.boardId with
  | none =>
      rw [process_unknown _ _ (AList.lookup_eq_none.mp found)] at ends
      cases ends
  | some pointer =>
  cases pointer with
  | none =>
      simp only [process, BoardMap.subscript_of_lookup found] at ends
      cases ends
  | some builder =>
  cases ready : eb.spill_mem_bank_ with
  | none =>
      simp only [process, BoardMap.subscript_of_lookup found, ready] at ends
      cases ends
  | some bank =>
  rw [process_known found ready] at ends
  cases called : DataFragmentBuilder.process dw a.container ⟨builder, bank⟩ with
  | undefined f =>
      rw [called] at ends
      cases ends
  | threw e s =>
      simp only [called, caught, (DataFragmentBuilder.process_threw called).fatal, Except.ok.injEq, Reply.mk.injEq] at ends
      cases ends.1
  | done s =>
      simp only [called] at ends
      split at ends
      · next complete =>
          cases wrote : a.env.write with
          | none =>
              simp only [writeEvent, wrote, recycle, Except.ok.injEq, Reply.mk.injEq] at ends
              exact .wrote found ready called complete ends.2.1.symm
          | some e =>
              have severe := reported e wrote
              simp only [writeEvent, wrote, caught, Except.ok.injEq] at ends
              cases severity : e.severity with
              | SERIOUS =>
                  simp only [severity, Reply.mk.injEq] at ends
                  cases ends.1
              | FATAL =>
                  simp only [severity, Reply.mk.injEq] at ends
                  cases ends.1
              | other => exact (severe severity).elim
      · next incomplete =>
          simp only [recycle, Except.ok.injEq, Reply.mk.injEq] at ends
          exact .collected found ready called incomplete ends.2.1.symm

end Call

end BMDEventBuilder

end BMDaq
