import BMDaq.Failures
import BMDaq.RunIsolation

/-! # Event numbers

An event takes the next number when it is handed to the recorder, whether or not the write
succeeds, and the count goes on over `close()` and `init()`. So the numbers tell the saved
events of an event builder apart, over all its runs, and a gap between them counts the events
that have been handed over and not been saved.
-/

namespace BMDaq

/-- The numbers of `n` events, the first of which is `id`. -/
def numbersFrom (id n : Nat) : List Nat := (List.range n).map fun k => (id + k) % 2 ^ 32

theorem numbersFrom_succ (id n : Nat) :
    numbersFrom id (n + 1) = numbersFrom id n ++ [(id + n) % 2 ^ 32] := by
  simp [numbersFrom, List.range_succ]

/-- Numbers repeat only after the 32-bit counter has come round. -/
theorem numbersFrom_nodup {id n : Nat} (few : n ≤ 2 ^ 32) : (numbersFrom id n).Nodup := by
  apply List.Nodup.map_on _ List.nodup_range
  intro i below j below' same
  rw [List.mem_range] at below below'
  omega

namespace Tape

variable {dw : MDdataWordBM} {id : Nat} {tape tape' : Tape}

/-- One operation over the life of an event builder and its file. -/
def operate (dw : MDdataWordBM) (tape : Tape) : Operation → Option Tape
  | .init boards mem => some { tape with builder := tape.builder.init boards mem }
  | .process a => tape.step dw a
  | .close => some { tape with builder := tape.builder.close }

def handed (tape : Tape) : List BMDEventMemBank := tape.builder.recorder_.written

def number (event : BMDEventMemBank) : Nat := event.header_ .event_id_

/-- The events handed over have the numbers from `id` on, and the saved ones are among them. -/
structure Numbered (id : Nat) (tape : Tape) : Prop where
  numbers : tape.handed.map number = numbersFrom id tape.handed.length
  next : tape.builder.event_id_ % 2 ^ 32 = (id + tape.handed.length) % 2 ^ 32
  saved : tape.saved.Sublist tape.handed

/-- The next event takes the next number. -/
theorem Numbered.hand (numbered : tape.Numbered id) {s : FragmentState} {now : Nat}
    {event : BMDEventMemBank}
    (stamped : event = BMDEventBuilder.stamp s.out_data_ now tape.builder.event_id_)
    {builders : BoardMap} {bank : Option BMDEventMemBank} {saved : List BMDEventMemBank}
    (among : saved.Sublist (tape.handed ++ [event])) :
    Numbered id ⟨⟨builders, bank, (tape.builder.event_id_ + 1) % 2 ^ 32,
      ⟨tape.builder.recorder_.written ++ [event]⟩⟩, saved⟩ where
  numbers := by
    have last : number event = (id + tape.handed.length) % 2 ^ 32 := by
      rw [stamped]
      exact (BMDEventBuilder.stamp_event_id _ _ _).trans numbered.next
    show (tape.handed ++ [event]).map number = numbersFrom id (tape.handed ++ [event]).length
    rw [List.map_append, List.length_append, List.length_singleton, numbersFrom_succ,
      numbered.numbers, ← last]
    rfl
  next := by
    show (tape.builder.event_id_ + 1) % 2 ^ 32 % 2 ^ 32 =
      (id + (tape.handed ++ [event]).length) % 2 ^ 32
    have next := numbered.next
    rw [List.length_append, List.length_singleton]
    omega
  saved := among

theorem Numbered.step (numbered : tape.Numbered id) {a : Arrival}
    (stepped : tape.step dw a = some tape') : tape'.Numbered id := by
  obtain ⟨builder, bank, -, -, moved⟩ := step_cases stepped
  cases moved with
  | rejected threw => exact ⟨numbered.numbers, numbered.next, numbered.saved⟩
  | collected done incomplete => exact ⟨numbered.numbers, numbered.next, numbered.saved⟩
  | wrote done complete stamped =>
      exact numbered.hand stamped (numbered.saved.append_right _)
  | failed done complete stamped =>
      exact numbered.hand stamped (numbered.saved.trans (List.sublist_append_left _ _))

theorem Numbered.operate (numbered : tape.Numbered id) {operation : Operation}
    (stepped : tape.operate dw operation = some tape') : tape'.Numbered id := by
  cases operation with
  | init boards mem =>
      obtain rfl := Option.some.inj stepped
      exact ⟨numbered.numbers, numbered.next, numbered.saved⟩
  | process a => exact numbered.step stepped
  | close =>
      obtain rfl := Option.some.inj stepped
      exact ⟨numbered.numbers, numbered.next, numbered.saved⟩

theorem Numbered.of_run {history : List Operation}
    (ran : run (Tape.operate dw) ⟨BMDEventBuilder.new id, []⟩ history = some tape) :
    tape.Numbered id :=
  run_invariant (Q := fun _ => True) ⟨rfl, rfl, .refl []⟩
    (fun _ _ _ _ numbered stepped => numbered.operate stepped) (fun _ _ => trivial) ran

end Tape

section Numbers

variable {dw : MDdataWordBM} {id : Nat} {tape : Tape} {history : List Operation}

/-- Over the whole life of an event builder, with all its runs, whatever calls throw and whatever
    writes fail: the events handed to the recorder are numbered one after the other, the saved
    ones keep their order, and no two of them have the same number before the counter has come
    round. -/
theorem events_told_apart
    (ran : run (Tape.operate dw) ⟨BMDEventBuilder.new id, []⟩ history = some tape) :
    tape.handed.map Tape.number = numbersFrom id tape.handed.length ∧
      tape.saved.Sublist tape.handed ∧
      (tape.handed.length ≤ 2 ^ 32 → (tape.saved.map Tape.number).Nodup) := by
  have numbered := Tape.Numbered.of_run ran
  refine ⟨numbered.numbers, numbered.saved, fun few => ?_⟩
  apply (numbered.saved.map Tape.number).nodup
  rw [numbered.numbers]
  exact numbersFrom_nodup few

open FakeData in
/-- A first run with a failing write, and a second one. -/
def sampleLife : List Operation :=
  [.init [5] zeroed, .process (arriving 5 (shortSpill 5 1)),
    .process ⟨makeContainer 5 (shortSpill 5 2), 0, some ⟨"", "", .SERIOUS⟩⟩, .close,
    .init [5] zeroed, .process (arriving 5 (shortSpill 5 1))]

open FakeData in
/-- Three events are handed over, and the second one is not saved. -/
theorem events_told_apart_sample : ∃ tape : Tape,
    run (Tape.operate fakeWord) ⟨BMDEventBuilder.new 7, []⟩ sampleLife = some tape ∧
      tape.saved.length = 2 ∧ tape.handed.map Tape.number = [7, 8, 9] ∧
      tape.saved.Sublist tape.handed ∧ (tape.saved.map Tape.number).Nodup := by
  have returns : ∃ tape ∈ run (Tape.operate fakeWord) ⟨BMDEventBuilder.new 7, []⟩ sampleLife,
      tape.saved.length = 2 ∧ tape.handed.length = 3 := by decide +kernel
  obtain ⟨tape, ran, two, three⟩ := returns
  obtain ⟨numbers, saved, distinct⟩ := events_told_apart ran
  rw [three] at numbers distinct
  exact ⟨tape, ran, two, numbers, saved, distinct (by norm_num)⟩

end Numbers

end BMDaq
