import BMDaq.TwoRuns

/-! # The memory under a new event bank

The constructors of a bank assign `size_` and nothing else; `clear()` assigns the other
members, but `init()` does not call it. The first event of a run therefore starts from
whatever the memory held, and the fragment counter in it decides when events are written.
-/

namespace BMDaq

section Memory

open BMDEventBuilder

variable {dw : MDdataWordBM} {boards : List Int} {id : Nat} {mem mem' : Memory}

/-- The header members of a new event bank that no constructor assigns. -/
theorem fresh_header (mem : Nat → UInt8) :
    (BMDMemBank.fresh mem : BMDEventMemBank).header_ .type_ = (mem 20).toNat ∧
      (BMDMemBank.fresh mem : BMDEventMemBank).header_ .n_subevents_ = (mem 21).toNat ∧
      (BMDMemBank.fresh mem : BMDEventMemBank).header_ .n_fragments_ =
        (mem 22).toNat + 256 * (mem 23).toNat := by
  refine ⟨?_, ?_, ?_⟩
  · rw [BMDMemBank.fresh, BMDMemBank.header_setHeader_other _ _ _ _ (by decide)]
    rfl
  · rw [BMDMemBank.fresh, BMDMemBank.header_setHeader_other _ _ _ _ (by decide)]
    rfl
  · rw [BMDMemBank.fresh, BMDMemBank.header_setHeader_other _ _ _ _ (by decide)]
    rfl

theorem fresh_sameContents {mem mem' : Nat → UInt8}
    (same : ∀ i, 20 ≤ i → i < 24 → mem i = mem' i) :
    SameContents (.fresh mem) (.fresh mem') where
  payload := by rw [BMDMemBank.fresh_payload, BMDMemBank.fresh_payload]
  spill_headers := rfl
  spill_trailers := rfl
  header := by
    intro m notTime notId
    obtain ⟨type, subevents, fragments⟩ := fresh_header mem
    obtain ⟨type', subevents', fragments'⟩ := fresh_header mem'
    cases m with
    | time_ => exact (notTime rfl).elim
    | event_id_ => exact (notId rfl).elim
    | size_ =>
        have right : (BMDMemBank.fresh mem : BMDEventMemBank).SizeRight :=
          BMDMemBank.fresh_sizeRight mem
        have right' : (BMDMemBank.fresh mem' : BMDEventMemBank).SizeRight :=
          BMDMemBank.fresh_sizeRight mem'
        rw [BMDMemBank.SizeRight, BMDMemBank.fresh_size] at right right'
        exact right.trans right'.symm
    | type_ => rw [type, type', same 20 (by decide) (by decide)]
    | n_subevents_ => rw [subevents, subevents', same 21 (by decide) (by decide)]
    | n_fragments_ =>
        rw [fragments, fragments', same 22 (by decide) (by decide), same 23 (by decide) (by decide)]

/-- What a new event bank is expected to look like. -/
structure FreshCleared (mem : Nat → UInt8) : Prop where
  n_fragments : (BMDMemBank.fresh mem : BMDEventMemBank).header_ .n_fragments_ = 0
  n_subevents : (BMDMemBank.fresh mem : BMDEventMemBank).header_ .n_subevents_ = 0
  type : (BMDMemBank.fresh mem : BMDEventMemBank).header_ .type_ = 0

/-- The bytes under the members that no constructor assigns. -/
def Zeroed (mem : Nat → UInt8) : Prop := ∀ i, 20 ≤ i → i < 24 → mem i = 0

theorem freshCleared_iff (mem : Nat → UInt8) : FreshCleared mem ↔ Zeroed mem := by
  obtain ⟨type, subevents, fragments⟩ := fresh_header mem
  have zero (b : UInt8) : b = 0 ↔ b.toNat = 0 := by
    rw [← UInt8.toNat_inj]
    rfl
  constructor
  · rintro ⟨noFragments, noSubevents, noType⟩
    intro i low high
    rw [zero]
    interval_cases i
    · omega
    · omega
    · omega
    · omega
  · intro zeroed
    have at20 := (zero _).mp (zeroed 20 (by decide) (by decide))
    have at21 := (zero _).mp (zeroed 21 (by decide) (by decide))
    have at22 := (zero _).mp (zeroed 22 (by decide) (by decide))
    have at23 := (zero _).mp (zeroed 23 (by decide) (by decide))
    exact ⟨by omega, by omega, by omega⟩

/-- Two events that differ in the time stamp and padding at most. -/
structure Identical (e e' : BMDEventMemBank) : Prop extends SameContents e e' where
  event_id : e.header_ .event_id_ = e'.header_ .event_id_

theorem SameEvent.identical {e e' : BMDEventMemBank} (same : SameEvent 0 e e') : Identical e e' where
  toSameContents := same.toSameContents
  event_id := by
    have small : e'.header_ .event_id_ < 2 ^ 32 := Bytes.Field.get_lt
    rw [same.event_id, Nat.add_zero, Nat.mod_eq_of_lt small]

/-- Whatever containers arrive, runs from the two initial memories return the same statuses
    and write the same events. -/
def RunsAgree (dw : MDdataWordBM) (boards : List Int) (id : Nat) (mem mem' : Memory) : Prop :=
  ∀ as as', List.Forall₂ SameCall as as' →
    (serve dw ((new id).init boards mem) as).statuses =
        (serve dw ((new id).init boards mem') as').statuses ∧
      (serve dw ((new id).init boards mem) as).fault =
        (serve dw ((new id).init boards mem') as').fault ∧
      List.Forall₂ Identical (serve dw ((new id).init boards mem) as).builder.recorder_.written
        (serve dw ((new id).init boards mem') as').builder.recorder_.written

/-- Memories that are alike under the unassigned members cannot be told apart. -/
theorem runs_agree (dw : MDdataWordBM) (boards : List Int) (id : Nat)
    (same : ∀ i, 20 ≤ i → i < 24 → mem.spill i = mem'.spill i) :
    RunsAgree dw boards id mem mem' := by
  intro as as' calls
  have ahead : (new id).event_id_ % 2 ^ 32 = (id + 0) % 2 ^ 32 := rfl
  have twins : Twins [] 0 ((new id).init boards mem) ((new id).init boards mem') :=
    init_twins (fresh_sameContents same) ahead boards
  obtain ⟨statuses, fault, later⟩ := twins.serve dw calls
  obtain ⟨written, rfl, events⟩ := later.written
  exact ⟨statuses, fault, events.imp fun _ _ event => event.identical⟩

end Memory

/-! ## What shows of other memories

A board that can deliver a whole spill in one container makes every difference visible:
the first event is written as soon as the counter meets the number of boards, and carries
the other two members as the memory had them.
-/

/-- The container delivers the fragment `f` to an idle builder of board `b` and leaves the
    builder idle. -/
structure OneSpill (dw : MDdataWordBM) (b : Int) (c : UFEDataContainer) (f : BMDBoardMemBank) :
    Prop where
  own : c.boardId = b
  call : ∀ mem out, DataFragmentBuilder.process dw c ⟨.new b mem, out⟩ =
    .done ⟨.new b mem, out.receive f⟩

/-- An event builder with an idle builder of board `b`, before the call that writes. -/
structure Waiting (b : Int) (mem : Nat → UInt8) (n : Nat) (eb : BMDEventBuilder)
    (bank : BMDEventMemBank) : Prop where
  idle : eb.board_event_builders_.lookup b = some (some (.new b mem))
  ready : eb.spill_mem_bank_ = some bank
  boards : eb.board_event_builders_.size = n

section Visible

open BMDEventBuilder

variable {dw : MDdataWordBM} {b : Int} {c : UFEDataContainer} {f : BMDBoardMemBank}
  {mem : Nat → UInt8} {n : Nat} {eb : BMDEventBuilder} {bank : BMDEventMemBank} {now : Nat}

/-- The event builder once the fragment is in its bank. -/
def received (eb : BMDEventBuilder) (b : Int) (mem : Nat → UInt8) (bank : BMDEventMemBank) :
    BMDEventBuilder :=
  { eb with
    board_event_builders_ := eb.board_event_builders_.insert b (some (.new b mem))
    spill_mem_bank_ := some bank }

theorem OneSpill.process (spill : OneSpill dw b c f) (waiting : Waiting b mem n eb bank)
    (env : Environment) :
    process dw env c eb = .ok (
      if (bank.header_ .n_fragments_ + 1) % 2 ^ 16 = n then
        writeEvent env c (bank.receive f) (received eb b mem (bank.receive f))
      else recycle c (received eb b mem (bank.receive f))) := by
  obtain ⟨rfl, call⟩ := spill
  rw [process_known waiting.idle waiting.ready, call]
  simp only [BMDMemBank.receive_n_fragments, waiting.boards]
  split
  · rfl
  · rfl

theorem Waiting.received (waiting : Waiting b mem n eb bank) (next : BMDEventMemBank) :
    Waiting b mem n (received eb b mem next) next where
  idle := AList.lookup_insert _
  ready := rfl
  boards := by
    have present : b ∈ eb.board_event_builders_ :=
      AList.lookup_isSome.mp (by rw [waiting.idle]; rfl)
    exact (BoardMap.size_insert present).trans waiting.boards

/-- `k` spills in a row, none of which completes the event. -/
theorem OneSpill.serve_waits (spill : OneSpill dw b c f) (waiting : Waiting b mem n eb bank) (k : Nat)
    (short : ∀ j, 1 ≤ j → j ≤ k → (bank.header_ .n_fragments_ + j) % 2 ^ 16 ≠ n)
    (env : Environment) :
    (serve dw eb (List.replicate k ⟨c, env⟩)).builder.recorder_ = eb.recorder_ := by
  induction k generalizing eb bank with
  | zero => rfl
  | succ k ih =>
      have called := spill.process waiting env
      rw [if_neg (short 1 (le_refl 1) (Nat.le_add_left 1 k))] at called
      rw [List.replicate_succ, serve, called]
      refine ih (waiting.received _) fun j low high => ?_
      have next := short (j + 1) (by omega) (by omega)
      rw [BMDMemBank.receive_n_fragments]
      omega

/-- The spill behind them completes it. -/
theorem OneSpill.serve_writes (spill : OneSpill dw b c f) (waiting : Waiting b mem n eb bank)
    (k : Nat) (short : ∀ j, 1 ≤ j → j ≤ k → (bank.header_ .n_fragments_ + j) % 2 ^ 16 ≠ n)
    (complete : (bank.header_ .n_fragments_ + (k + 1)) % 2 ^ 16 = n) (env : Environment) :
    ∃ event, (serve dw eb (List.replicate (k + 1) ⟨c, env⟩)).builder.recorder_.written =
        eb.recorder_.written ++ [event] ∧
      event.header_ .n_subevents_ = bank.header_ .n_subevents_ ∧
      event.header_ .type_ = bank.header_ .type_ := by
  have called := spill.process waiting env
  induction k generalizing eb bank with
  | zero =>
      rw [if_pos complete] at called
      refine ⟨stamp (bank.receive f) env.now eb.event_id_, ?_, ?_, ?_⟩
      · simp only [List.replicate, serve, called]
        unfold writeEvent
        cases env.write with
        | none => rfl
        | some e =>
            dsimp only
            rw [caught_builder]
            rfl
      · rw [stamp_header _ _ _ (by decide) (by decide),
          BMDMemBank.receive_header _ _ (by decide) (by decide)]
      · rw [stamp_header _ _ _ (by decide) (by decide),
          BMDMemBank.receive_header _ _ (by decide) (by decide)]
  | succ k ih =>
      rw [if_neg (short 1 (le_refl 1) (Nat.le_add_left 1 k))] at called
      have counted (j : Nat) : ((bank.receive f).header_ .n_fragments_ + j) % 2 ^ 16 =
          (bank.header_ .n_fragments_ + (j + 1)) % 2 ^ 16 := by
        rw [BMDMemBank.receive_n_fragments]
        omega
      have waiting' := waiting.received (bank.receive f)
      obtain ⟨event, written, subevents, type⟩ := ih waiting'
        (fun j low high => by rw [counted]; exact short (j + 1) (by omega) (by omega))
        (by rw [counted]; exact complete) (spill.process waiting' env)
      refine ⟨event, ?_, ?_, ?_⟩
      · rw [List.replicate_succ, serve, called]
        exact written
      · rw [subevents, BMDMemBank.receive_header _ _ (by decide) (by decide)]
      · rw [type, BMDMemBank.receive_header _ _ (by decide) (by decide)]

/-- How many spills a new event builder takes before the one that completes an event. -/
def spillsBefore (n start : Nat) : Nat := (n + 65535 - start) % 65536

theorem spillsBefore_short {start j : Nat} (few : n < 2 ^ 16) (small : start < 2 ^ 16) (low : 1 ≤ j)
    (high : j ≤ spillsBefore n start) : (start + j) % 2 ^ 16 ≠ n := by
  unfold spillsBefore at high
  omega

theorem spillsBefore_complete {start : Nat} (few : n < 2 ^ 16) (small : start < 2 ^ 16) :
    (start + (spillsBefore n start + 1)) % 2 ^ 16 = n := by
  unfold spillsBefore
  omega

variable {boards : List Int} {id : Nat} {memory memory' : Memory}

theorem init_waiting (configured : b ∈ boards) (memory : Memory) (id : Nat) :
    Waiting b (memory.board b) boards.dedup.length ((new id).init boards memory)
      (.fresh memory.spill) where
  idle := init_lookup boards memory id configured
  ready := rfl
  boards := (init_staffed boards memory id).size

theorem RunsAgree.replicate (agree : RunsAgree dw boards id memory memory') (k : Nat)
    (a : Arrival) :
    List.Forall₂ Identical
      (serve dw ((new id).init boards memory) (List.replicate k a)).builder.recorder_.written
      (serve dw ((new id).init boards memory') (List.replicate k a)).builder.recorder_.written :=
  (agree _ _ (List.forall₂_same.mpr fun _ _ => ⟨rfl, rfl⟩)).2.2

/-- Runs that agree do not write their first events at different calls. -/
theorem OneSpill.counter_le (spill : OneSpill dw b c f) (configured : b ∈ boards)
    (few : boards.dedup.length < 2 ^ 16) (agree : RunsAgree dw boards id memory memory') :
    spillsBefore boards.dedup.length (startCount memory') ≤
      spillsBefore boards.dedup.length (startCount memory) := by
  by_contra early
  obtain ⟨event, written, -⟩ := spill.serve_writes (init_waiting configured memory id)
    (spillsBefore boards.dedup.length (startCount memory))
    (fun j low high => spillsBefore_short few (startCount_lt memory) low high)
    (spillsBefore_complete few (startCount_lt memory)) ⟨0, none⟩
  have late : ∀ j, 1 ≤ j → j ≤ spillsBefore boards.dedup.length (startCount memory) + 1 →
      (startCount memory' + j) % 2 ^ 16 ≠ boards.dedup.length :=
    fun j low high => spillsBefore_short few (startCount_lt memory') low (by omega)
  have silent := spill.serve_waits (init_waiting configured memory' id) _ late ⟨0, none⟩
  have lengths := (agree.replicate (spillsBefore boards.dedup.length (startCount memory) + 1)
    ⟨c, ⟨0, none⟩⟩).length_eq
  rw [written, silent] at lengths
  simp [BMDEventBuilder.init, BMDEventBuilder.new] at lengths

theorem RunsAgree.symm (agree : RunsAgree dw boards id memory memory') :
    RunsAgree dw boards id memory' memory := by
  intro as as' calls
  obtain ⟨statuses, fault, events⟩ := agree as' as
    (calls.flip.imp fun _ _ same => ⟨same.container.symm, same.write.symm⟩)
  refine ⟨statuses.symm, fault.symm, events.flip.imp fun e e' same => ?_⟩
  obtain ⟨⟨payload, headers, trailers, header⟩, eventId⟩ := same
  exact ⟨⟨payload.symm, headers.symm, trailers.symm, fun m t i => (header m t i).symm⟩, eventId.symm⟩

/-- Where a configured board can deliver a whole spill, two memories cannot be told apart
    exactly when they agree under the unassigned members. -/
theorem OneSpill.runs_agree_iff (spill : OneSpill dw b c f) (configured : b ∈ boards)
    (few : boards.dedup.length < 2 ^ 16) (id : Nat) (memory memory' : Memory) :
    RunsAgree dw boards id memory memory' ↔
      ∀ i, 20 ≤ i → i < 24 → memory.spill i = memory'.spill i := by
  refine ⟨fun agree => ?_, runs_agree dw boards id⟩
  have same : spillsBefore boards.dedup.length (startCount memory) =
      spillsBefore boards.dedup.length (startCount memory') :=
    le_antisymm (spill.counter_le configured few agree.symm) (spill.counter_le configured few agree)
  have counters : startCount memory = startCount memory' := by
    have small := startCount_lt memory
    have small' := startCount_lt memory'
    unfold spillsBefore at same
    omega
  obtain ⟨event, written, subevents, type⟩ := spill.serve_writes (init_waiting configured memory id)
    (spillsBefore boards.dedup.length (startCount memory))
    (fun j low high => spillsBefore_short few (startCount_lt memory) low high)
    (spillsBefore_complete few (startCount_lt memory)) ⟨0, none⟩
  obtain ⟨event', written', subevents', type'⟩ := spill.serve_writes
    (init_waiting configured memory' id) (spillsBefore boards.dedup.length (startCount memory))
    (fun j low high => spillsBefore_short few (startCount_lt memory') low (same ▸ high))
    (same ▸ spillsBefore_complete few (startCount_lt memory')) ⟨0, none⟩
  have events := agree.replicate (spillsBefore boards.dedup.length (startCount memory) + 1)
    ⟨c, ⟨0, none⟩⟩
  rw [written, written'] at events
  have identical : Identical event event' := by
    cases events with
    | cons same _ => exact same
  have sameSubevents := identical.header .n_subevents_ (by decide) (by decide)
  have sameType := identical.header .type_ (by decide) (by decide)
  obtain ⟨at20, at21, at22⟩ := fresh_header memory.spill
  obtain ⟨at20', at21', at22'⟩ := fresh_header memory'.spill
  rw [subevents, subevents', at21, at21'] at sameSubevents
  rw [type, type', at20, at20'] at sameType
  unfold startCount at counters
  rw [at22, at22'] at counters
  intro i low high
  have bound (j : Nat) := (memory.spill j).toNat_lt
  have bound' (j : Nat) := (memory'.spill j).toNat_lt
  have low22 := bound 22
  have low22' := bound' 22
  apply UInt8.toNat_inj.mp
  interval_cases i
  · exact sameType
  · exact sameSubevents
  · omega
  · omega

/-- Uninitialised memory does not show, and new event banks look cleared, exactly for
    memories that are zero under the members that no constructor assigns. Once a configured
    board can deliver a spill, every difference between the two memories shows. -/
theorem memory_invisible_iff (dw : MDdataWordBM) (boards : List Int) (id : Nat)
    (mem mem' : Memory) :
    ((RunsAgree dw boards id mem mem' ∧ FreshCleared mem.spill ∧ FreshCleared mem'.spill) ↔
      Zeroed mem.spill ∧ Zeroed mem'.spill) ∧
    ∀ b ∈ boards, ∀ c f, OneSpill dw b c f → boards.dedup.length < 2 ^ 16 →
      (RunsAgree dw boards id mem mem' ↔
        ∀ i, 20 ≤ i → i < 24 → mem.spill i = mem'.spill i) := by
  constructor
  · rw [freshCleared_iff, freshCleared_iff]
    constructor
    · exact fun visible => visible.2
    · rintro ⟨zeroed, zeroed'⟩
      refine ⟨runs_agree dw boards id fun i low high => ?_, zeroed, zeroed'⟩
      rw [zeroed i low high, zeroed' i low high]
  · exact fun b configured c f spill few => spill.runs_agree_iff configured few id mem mem'

open FakeData in
/-- One board, and memory that reads as one fragment: the first spill is not written. -/
theorem memory_hides_event :
    ¬ RunsAgree fakeWord [5] 0 zeroed ⟨fun i => if i = 22 then 1 else 0, fun _ _ => 0⟩ ∧
      ¬ FreshCleared (fun i => if i = 22 then 1 else 0) := by
  constructor
  · intro agree
    have events := (agree.replicate 1 (arriving 5 (shortSpill 5 5))).length_eq
    exact absurd events (by decide +kernel)
  · intro cleared
    exact absurd cleared.n_fragments (by decide +kernel)

end Visible

end BMDaq
