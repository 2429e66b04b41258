import BMDaq.FakeData

/-! # Rejected containers

An exception never touches the event bank. The guards throw before anything is copied;
only the consistency check throws behind an append, and the trailer marker it leaves in
the local bank makes the guards reject every later container. In the event builder a
board whose check has failed stays silent until `close()`.
-/

namespace BMDaq

/-- The local bank has failed the consistency check and has not been cleared. -/
def DataFragmentBuilder.Poisoned (builder : DataFragmentBuilder) : Prop :=
  builder.mem_bank_.spill_trailers_ ≠ []

/-- A later call to one builder: the container at its input, and the event bank as the
    other builders have left it by then. -/
structure LaterCall where
  in_data_ : UFEDataContainer
  out_data_ : BMDEventMemBank

/-- The builder after one more call; an exception is caught by the event builder. -/
def DataFragmentBuilder.laterStep (dw : MDdataWordBM) (builder : DataFragmentBuilder)
    (call : LaterCall) : Option DataFragmentBuilder :=
  match process dw call.in_data_ ⟨builder, call.out_data_⟩ with
  | .done s | .threw _ s => some s.builder
  | .undefined _ => none

/-- The event builder turns a container away: the status is fatal, and the container, the
    event bank and the record of written events are as before. -/
structure TurnedAway (dw : MDdataWordBM) (eb : BMDEventBuilder) (a : Arrival) (reply : Reply) :
    Prop where
  called : BMDEventBuilder.process dw a.env a.container eb = .ok reply
  fatal : reply.status = .FatalError_s
  container : reply.output_ = a.container
  event : reply.builder.spill_mem_bank_ = eb.spill_mem_bank_
  written : reply.builder.recorder_ = eb.recorder_

section Poisoned

open DataFragmentBuilder

variable {dw : MDdataWordBM} {builder : DataFragmentBuilder}

namespace DataFragmentBuilder.Poisoned

theorem process_threw (poisoned : builder.Poisoned) (dw : MDdataWordBM) (c : UFEDataContainer)
    (out : BMDEventMemBank) :
    ∃ e, e.severity = .FATAL ∧ process dw c ⟨builder, out⟩ = .threw e ⟨builder, out⟩ := by
  rcases process_branch dw c ⟨builder, out⟩ with ⟨e, guard, called⟩ | ⟨-, clean, -⟩
  · exact ⟨e, guardErrors_fatal e guard, called⟩
  · exact (poisoned clean).elim

theorem laterStep (poisoned : builder.Poisoned) (call : LaterCall) :
    builder.laterStep dw call = some builder := by
  obtain ⟨e, -, called⟩ := poisoned.process_threw dw call.in_data_ call.out_data_
  simp only [DataFragmentBuilder.laterStep, called]

theorem run_laterStep (poisoned : builder.Poisoned) (calls : List LaterCall) :
    run (DataFragmentBuilder.laterStep dw) builder calls = some builder := by
  induction calls with
  | nil => rfl
  | cons call rest ih =>
      rw [run_cons, poisoned.laterStep call]
      exact ih

end DataFragmentBuilder.Poisoned

end Poisoned

namespace BMDEventBuilder

variable {dw : MDdataWordBM} {eb eb' : BMDEventBuilder} {a : Arrival} {b : Int}
  {builder : DataFragmentBuilder} {bank : BMDEventMemBank} {s' : FragmentState} {e : UFEError}

/-- The catch block on an exception of the fragment builder. -/
theorem turnedAway_of_threw
    (found : eb.board_event_builders_.lookup a.container.boardId = some (some builder))
    (ready : eb.spill_mem_bank_ = some bank)
    (threw : DataFragmentBuilder.process dw a.container ⟨builder, bank⟩ = .threw e s') :
    ∃ reply, TurnedAway dw eb a reply ∧
      reply.builder.board_event_builders_.lookup a.container.boardId = some (some s'.builder) := by
  obtain ⟨fatal, event, -⟩ := DataFragmentBuilder.process_threw threw
  have called : process dw a.env a.container eb = .ok ⟨.FatalError_s, { eb with
      board_event_builders_ :=
        eb.board_event_builders_.insert a.container.boardId (some s'.builder)
      spill_mem_bank_ := some s'.out_data_ }, a.container⟩ := by
    rw [process_known found ready, threw]
    simp only [caught, fatal]
  refine ⟨_, ⟨called, rfl, rfl, ?_, rfl⟩, AList.lookup_insert _⟩
  rw [ready, event]

/-- The builder of board `b` has failed the consistency check. -/
structure Silenced (eb : BMDEventBuilder) (b : Int) : Prop where
  poisoned : ∃ builder, eb.board_event_builders_.lookup b = some (some builder) ∧ builder.Poisoned
  ready : ∃ bank, eb.spill_mem_bank_ = some bank

theorem Silenced.turnedAway (dw : MDdataWordBM) (silenced : eb.Silenced a.container.boardId) :
    ∃ reply, TurnedAway dw eb a reply ∧ reply.builder.Silenced a.container.boardId := by
  obtain ⟨⟨builder, found, poisoned⟩, bank, ready⟩ := silenced
  obtain ⟨e, -, threw⟩ := poisoned.process_threw dw a.container bank
  obtain ⟨reply, turned, kept⟩ := turnedAway_of_threw found ready threw
  exact ⟨reply, turned, ⟨builder, kept, poisoned⟩, bank, turned.event.trans ready⟩

theorem Silenced.step (silenced : eb.Silenced b) (stepped : anyStep dw eb a = some eb') :
    eb'.Silenced b := by
  obtain ⟨reply, ends, rfl⟩ := anyStep_eq_some.mp stepped
  by_cases own : a.container.boardId = b
  · subst own
    obtain ⟨reply', turned, kept⟩ := silenced.turnedAway dw
    obtain rfl := Except.ok.inj (turned.called.symm.trans ends)
    exact kept
  · obtain ⟨-, -, builder', bank', -, -, builders, ready, -⟩ := process_ok_builders ends
    obtain ⟨builder, found, poisoned⟩ := silenced.poisoned
    refine ⟨⟨builder, ?_, poisoned⟩, bank', ready⟩
    rw [builders, AList.lookup_insert_ne (Ne.symm own)]
    exact found

/-- Nothing but `close()` ends the silence of a board. -/
theorem Silenced.run {arrivals : List Arrival} (silenced : eb.Silenced b)
    (ran : BMDaq.run (anyStep dw) eb arrivals = some eb') : eb'.Silenced b :=
  run_invariant (P := fun eb => eb.Silenced b) (Q := fun _ => True) silenced
    (fun _ _ _ _ held stepped => held.step stepped) (fun _ _ => trivial) ran

end BMDEventBuilder

section Contained

open DataFragmentBuilder

variable {dw : MDdataWordBM} {c : UFEDataContainer} {s s' : FragmentState} {e : UFEError}

/-- A call that throws leaves the event bank alone, and the local bank too unless the
    consistency check has failed. From then on every call throws and changes nothing,
    whatever the other builders do to the event bank in between. The event builder hands
    the container back as it was and writes nothing, now and for all later containers of a
    board whose check has failed. -/
theorem rejected_container_contained (threw : process dw c s = .threw e s') :
    s'.out_data_ = s.out_data_ ∧
      (e ≠ spillDataMismatch → s' = s) ∧
      (e = spillDataMismatch → ∀ calls,
        run (laterStep dw) s'.builder calls = some s'.builder ∧
          ∀ call : LaterCall, ∃ e', process dw call.in_data_ ⟨s'.builder, call.out_data_⟩ =
            .threw e' ⟨s'.builder, call.out_data_⟩) ∧
      ∀ eb env, eb.board_event_builders_.lookup c.boardId = some (some s.builder) →
        eb.spill_mem_bank_ = some s.out_data_ →
        ∃ reply, TurnedAway dw eb ⟨c, env⟩ reply ∧
          (e = spillDataMismatch → ∀ arrivals eb',
            run (BMDEventBuilder.anyStep dw) reply.builder arrivals = some eb' →
            ∀ a : Arrival, a.container.boardId = c.boardId →
              ∃ reply', TurnedAway dw eb' a reply') := by
  have either := process_threw_cases threw
  refine ⟨(process_threw threw).event, ?_, ?_, ?_⟩
  · rcases either with ⟨-, same⟩ | ⟨rfl, -, -⟩
    · exact fun _ => same
    · exact fun other => (other rfl).elim
  · rintro rfl calls
    have poisoned : s'.builder.Poisoned :=
      (either.resolve_left fun guarded => mismatch_not_guard guarded.1).2.2
    refine ⟨poisoned.run_laterStep calls, fun call => ?_⟩
    obtain ⟨e', -, called⟩ := poisoned.process_threw dw call.in_data_ call.out_data_
    exact ⟨e', called⟩
  · intro eb env found ready
    obtain ⟨reply, turned, kept⟩ :=
      BMDEventBuilder.turnedAway_of_threw (a := ⟨c, env⟩) found ready threw
    refine ⟨reply, turned, ?_⟩
    rintro rfl arrivals eb' ran a own
    have poisoned : s'.builder.Poisoned :=
      (either.resolve_left fun guarded => mismatch_not_guard guarded.1).2.2
    have silenced : reply.builder.Silenced c.boardId :=
      ⟨⟨_, kept, poisoned⟩, _, turned.event.trans ready⟩
    rw [← own] at silenced
    obtain ⟨reply', turned', -⟩ := (silenced.run ran).turnedAway dw
    exact ⟨reply', turned'⟩

open FakeData in
/-- Header and trailer with different tags, in one container. -/
theorem mismatched_spill_contained :
    ∃ s', process fakeWord (makeContainer 0 (spillHeader 0 5 :: spillTrailer 0 6))
        ⟨.new 0 fun _ => 0, .fresh fun _ => 0⟩ = .threw spillDataMismatch s' ∧
      s'.out_data_ = .fresh (fun _ => 0) ∧
      ∀ calls, run (laterStep fakeWord) s'.builder calls = some s'.builder := by
  obtain ⟨s', threw⟩ := Outcome.thrown?_eq_some.mp
    (show (process fakeWord (makeContainer 0 (spillHeader 0 5 :: spillTrailer 0 6))
      ⟨.new 0 fun _ => 0, .fresh fun _ => 0⟩).thrown? = some spillDataMismatch by decide +kernel)
  obtain ⟨event, -, later, -⟩ := rejected_container_contained threw
  exact ⟨s', threw, event, fun calls => (later rfl calls).1⟩

end Contained

end BMDaq
