import BMDaq.InitialMemory

/-! # Runs after `close()`

`close()` drops the fragment builders and the event bank. What survives it is the event id
and what the recorder has been handed, so a later run is the run of a new event builder
whose ids start elsewhere.
-/

namespace BMDaq

/-- What happens to an event builder over its life. -/
inductive Operation where
  | init (boards : List Int) (mem : Memory)
  | process (a : Arrival)
  | close

namespace BMDEventBuilder

/-- One operation with defined behaviour; `process()` may return any status. -/
def operate (dw : MDdataWordBM) (eb : BMDEventBuilder) : Operation → Option BMDEventBuilder
  | .init boards mem => some (eb.init boards mem)
  | .process a => anyStep dw eb a
  | .close => some eb.close

end BMDEventBuilder

section Isolation

open BMDEventBuilder

variable {dw : MDdataWordBM} {id : Nat} {history : List Operation} {eb : BMDEventBuilder}

/-- The event id counts the events handed over since construction. -/
theorem run_ids (ran : run (operate dw) (new id) history = some eb) :
    eb.event_id_ % 2 ^ 32 = (id + eb.recorder_.written.length) % 2 ^ 32 := by
  refine run_invariant (P := fun eb : BMDEventBuilder =>
    eb.event_id_ % 2 ^ 32 = (id + eb.recorder_.written.length) % 2 ^ 32)
    (Q := fun _ => True) rfl ?_ (fun _ _ => trivial) ran
  intro eb operation eb' _ counted stepped
  cases operation with
  | init boards mem =>
      obtain rfl := Option.some.inj stepped
      exact counted
  | close =>
      obtain rfl := Option.some.inj stepped
      exact counted
  | process a =>
      obtain ⟨reply, ends, rfl⟩ := anyStep_eq_some.mp stepped
      obtain ⟨-, -, -, -, -, -, -, -, ids⟩ := process_ok_builders ends
      cases ids with
      | none same written => rw [same, written, counted]
      | one event next written =>
          rw [next, written, List.length_append, List.length_singleton]
          omega

/-- Whatever an event builder has been through, after `close()` and `init()` it answers
    later calls and writes later events as a new one does; only the event ids are ahead, by
    the number of events handed over before. What is written then is determined by the
    later containers alone. -/
theorem runs_isolated (ran : run (operate dw) (new id) history = some eb) (boards : List Int)
    {mem mem' : Memory} (cleared : FreshCleared mem.spill) (cleared' : FreshCleared mem'.spill)
    {as as' : List Arrival} (calls : List.Forall₂ SameCall as as') :
    (serve dw (eb.close.init boards mem) as).statuses =
        (serve dw ((new id).init boards mem') as').statuses ∧
      (serve dw (eb.close.init boards mem) as).fault =
        (serve dw ((new id).init boards mem') as').fault ∧
      ∃ later, (serve dw (eb.close.init boards mem) as).builder.recorder_.written =
          eb.recorder_.written ++ later ∧
        List.Forall₂ (SameEvent eb.recorder_.written.length) later
          (serve dw ((new id).init boards mem') as').builder.recorder_.written := by
  have same : ∀ i, 20 ≤ i → i < 24 → mem.spill i = mem'.spill i := by
    intro i low high
    rw [(freshCleared_iff _).mp cleared i low high, (freshCleared_iff _).mp cleared' i low high]
  have twins := init_twins (fresh_sameContents same) (run_ids ran) boards
  obtain ⟨statuses, fault, after⟩ := twins.serve dw calls
  exact ⟨statuses, fault, after.written⟩

open FakeData in
/-- A run that ends in the middle of a spill, and one that starts with a whole one. -/
theorem isolated_after_open_spill :
    ∃ eb, run (operate fakeWord) (new 7) [.init [5] zeroed,
        .process (arriving 5 (shortSpill 5 1)), .process (arriving 5 [spillHeader 5 2, filler])] =
          some eb ∧
      (serve fakeWord (eb.close.init [5] zeroed) [arriving 5 (shortSpill 5 1)]).statuses =
        (serve fakeWord ((new 7).init [5] zeroed) [arriving 5 (shortSpill 5 1)]).statuses := by
  obtain ⟨eb, ran⟩ : ∃ eb, run (operate fakeWord) (new 7) [.init [5] zeroed,
      .process (arriving 5 (shortSpill 5 1)), .process (arriving 5 [spillHeader 5 2, filler])] =
        some eb := Option.isSome_iff_exists.mp (by decide +kernel)
  have cleared : FreshCleared zeroed.spill := (freshCleared_iff _).mpr fun _ _ _ => rfl
  exact ⟨eb, ran, (runs_isolated ran [5] cleared cleared (.cons ⟨rfl, rfl⟩ .nil)).1⟩

end Isolation

end BMDaq
