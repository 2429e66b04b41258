import BMDaq.FakeData

/-! # Containers of unknown boards

`process` looks the builder up with `operator[]` before anything has checked the board id.
In every state that calls with defined behaviour can reach the map holds exactly the
configured boards, so for any other board the lookup inserts a null pointer and the call
goes through it.
-/

namespace BMDaq

/-- What a safe rejection would be: an error status, and the map as it was configured. -/
def RejectedSafely (dw : MDdataWordBM) (boards : List Int) (env : Environment)
    (c : UFEDataContainer) (eb : BMDEventBuilder) : Prop :=
  ∃ reply, BMDEventBuilder.process dw env c eb = .ok reply ∧ reply.status ≠ .OK_s ∧
    reply.builder.board_event_builders_.Staffed boards

namespace BMDEventBuilder

variable {dw : MDdataWordBM} {boards : List Int} {mem : Memory} {id : Nat} {env : Environment}
  {c : UFEDataContainer} {eb eb' : BMDEventBuilder}

/-- The shape of an initialised event builder. -/
structure Initialised (boards : List Int) (eb : BMDEventBuilder) : Prop where
  staffed : eb.board_event_builders_.Staffed boards
  ready : ∃ bank, eb.spill_mem_bank_ = some bank

theorem init_initialised (boards : List Int) (mem : Memory) (id : Nat) :
    Initialised boards ((new id).init boards mem) :=
  ⟨init_staffed boards mem id, _, rfl⟩

/-- A call with defined behaviour, whatever its status, only replaces the builder behind
    the key of the container's board. -/
theorem process_ok (initialised : Initialised boards eb) {reply : Reply}
    (ends : process dw env c eb = .ok reply) : Initialised boards reply.builder := by
  obtain ⟨builder, bank, builder', bank', found, -, builders, ready, -⟩ := process_ok_builders ends
  refine ⟨?_, bank', ready⟩
  rw [builders]
  exact initialised.staffed.insert (initialised.staffed.known found) builder'

theorem anyStep_initialised {a : Arrival} (initialised : Initialised boards eb)
    (stepped : anyStep dw eb a = some eb') : Initialised boards eb' := by
  obtain ⟨reply, ends, rfl⟩ := anyStep_eq_some.mp stepped
  exact process_ok initialised ends

/-- The configured boards stay the keys of the map over any run. -/
theorem run_initialised {arrivals : List Arrival}
    (ran : run (anyStep dw) ((new id).init boards mem) arrivals = some eb) :
    Initialised boards eb :=
  run_invariant (Q := fun _ => True) (init_initialised boards mem id)
    (fun _ _ _ _ initialised stepped => anyStep_initialised initialised stepped)
    (fun _ _ => trivial) ran

end BMDEventBuilder

section Unknown

variable {dw : MDdataWordBM} {boards : List Int} {mem : Memory} {id : Nat}
  {arrivals : List Arrival} {eb : BMDEventBuilder} {c : UFEDataContainer}

/-- In no reachable state is an unknown board rejected safely: the lookup has added its key
    with a null pointer, and the call dereferences it. -/
theorem unknown_board_never_rejected
    (ran : run (BMDEventBuilder.anyStep dw) ((BMDEventBuilder.new id).init boards mem) arrivals =
      some eb) (unknown : c.boardId ∉ boards) (env : Environment) :
    eb.board_event_builders_.Staffed boards ∧
      BMDEventBuilder.process dw env c eb = .error .nullDereference ∧
      (eb.board_event_builders_.subscript c.boardId).1.lookup c.boardId = some none ∧
      ¬ RejectedSafely dw boards env c eb := by
  have staffed := (BMDEventBuilder.run_initialised ran).staffed
  have missing : c.boardId ∉ eb.board_event_builders_ := fun present =>
    unknown ((staffed.1 _).mp present)
  have faults := BMDEventBuilder.process_unknown dw env missing
  refine ⟨staffed, faults, ?_, ?_⟩
  · rw [BoardMap.subscript_of_missing missing]
    exact AList.lookup_insert _
  · rintro ⟨reply, ends, -⟩
    rw [faults] at ends
    cases ends

open FakeData in
/-- Board 7, after board 0 has delivered a spill to an event builder for boards 0 and 5. -/
theorem unknown_board_after_spill :
    ∃ eb, run (BMDEventBuilder.anyStep fakeWord) twoBoards [arriving 0 (shortSpill 0 5)] =
        some eb ∧
      ¬ RejectedSafely fakeWord [0, 5] quiet (makeContainer 7 (shortSpill 7 5)) eb := by
  obtain ⟨eb, ran⟩ : ∃ eb, run (BMDEventBuilder.anyStep fakeWord) twoBoards
      [arriving 0 (shortSpill 0 5)] = some eb := Option.isSome_iff_exists.mp (by decide +kernel)
  have unknown : (makeContainer 7 (shortSpill 7 5)).boardId ∉ ([0, 5] : List Int) := by
    decide +kernel
  exact ⟨eb, ran, (unknown_board_never_rejected ran unknown quiet).2.2.2⟩

open FakeData in
/-- The same container right after `init`. -/
theorem unknown_board_dereferences_null :
    BMDEventBuilder.process fakeWord quiet (makeContainer 7 (shortSpill 7 5)) twoBoards =
        .error .nullDereference ∧
      ¬ RejectedSafely fakeWord [0, 5] quiet (makeContainer 7 (shortSpill 7 5)) twoBoards := by
  have missing : (makeContainer 7 (shortSpill 7 5)).boardId ∉ twoBoards.board_event_builders_ := by
    rw [(BMDEventBuilder.init_staffed [0, 5] zeroed 0).1]
    decide +kernel
  have faults := BMDEventBuilder.process_unknown fakeWord quiet missing
  refine ⟨faults, ?_⟩
  rintro ⟨reply, ends, -⟩
  rw [faults] at ends
  cases ends

end Unknown

end BMDaq
