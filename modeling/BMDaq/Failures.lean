import BMDaq.Containment
import BMDaq.TwoRuns

/-! # Failed calls and failed writes

Calls may throw and the recorder may fail, and the event builder goes on. Every fragment that
has been completed is then in a saved event or in the event bank, once and in order: a call
that throws adds nothing, and an event whose writing has failed stays in the bank. Where
the bank gets another fragment before the event is tried again, the counter has passed the
number of boards, and nothing is written until it has come round to them again.
-/

namespace BMDaq

/-! ## One fragment builder -/

section Builder

open FragmentState Outcome

variable {dw : MDdataWordBM} {s s' : FragmentState} {c : UFEDataContainer}

/-- The same fragment builder, whatever the event bank. -/
structure SameBuilder (s s' : FragmentState) : Prop where
  builder : s.builder = s'.builder

theorem SameBuilder.append (same : SameBuilder s s') (pos n : Nat) :
    (FragmentState.append c pos n s).Related SameBuilder (FragmentState.append c pos n s') := by
  unfold FragmentState.append
  split
  · exact .done ⟨congrArg (fun b => { b with mem_bank_ := b.mem_bank_.append c pos n }) same.builder⟩
  · exact .undefined .outOfRange

theorem SameBuilder.move (same : SameBuilder s s') :
    (moveToEventBank dw s).Related SameBuilder (moveToEventBank dw s') := by
  cases s with
  | mk b out =>
      cases s' with
      | mk b' out' =>
          cases same.builder with
          | refl =>
              simp only [moveToEventBank]
              split
              · split
                · split
                  · exact .threw _ ⟨rfl⟩
                  · exact .done ⟨rfl⟩
                · exact .undefined _
              · exact .undefined _

/-- How a call ends, and what it leaves in the local bank, does not depend on the event bank. -/
theorem SameBuilder.process (dw : MDdataWordBM) (same : SameBuilder s s') (c : UFEDataContainer) :
    (DataFragmentBuilder.process dw c s).Related SameBuilder (DataFragmentBuilder.process dw c s') := by
  have copied (pos n : Nat) : (FragmentState.append c pos n s).Related SameBuilder
      (FragmentState.append c pos n s') := same.append pos n
  have closed (pos n : Nat) : ((FragmentState.append c pos n s).andThen (moveToEventBank dw)).Related
      SameBuilder ((FragmentState.append c pos n s').andThen (moveToEventBank dw)) :=
    (copied pos n).andThen fun _ _ rel => rel.move
  simp only [DataFragmentBuilder.process, same.builder]
  split
  · exact .threw _ same
  split
  · exact .threw _ same
  split
  · split
    · exact copied _ _
    · split
      · exact closed _ _
      · exact copied _ _
    · exact .done same
    · exact .threw _ same
  split
  · split
    · exact .done ⟨congrArg (fun b => { b with mem_bank_ := b.mem_bank_.extended c }) same.builder⟩
    · exact closed _ _
    · split
      · exact (closed _ _).andThen fun _ _ rel => rel.append _ _
      · exact .threw _ same
    · exact .threw _ same
  · exact .threw _ same

theorem process_threw_anywhere {b : DataFragmentBuilder} {out : BMDEventMemBank} {e : UFEError}
    {s : FragmentState} (threw : DataFragmentBuilder.process dw c ⟨b, out⟩ = .threw e s)
    (out' : BMDEventMemBank) :
    ∃ s', DataFragmentBuilder.process dw c ⟨b, out'⟩ = .threw e s' ∧ s'.builder = s.builder := by
  have same : SameBuilder ⟨b, out⟩ ⟨b, out'⟩ := ⟨rfl⟩
  have related := same.process dw c
  rw [threw] at related
  generalize DataFragmentBuilder.process dw c ⟨b, out'⟩ = call' at related
  cases related with
  | threw _ rel => exact ⟨_, rfl, rel.builder.symm⟩

end Builder

/-! ## All fragment builders -/

namespace Bench

variable {dw : MDdataWordBM} {bench : Bench} {c : UFEDataContainer}

/-- One container, whatever comes of it: an exception is caught, and what it leaves in the
    local bank stays there. -/
def attempt (dw : MDdataWordBM) (bench : Bench) (c : UFEDataContainer) : Bench :=
  match DataFragmentBuilder.process dw c ⟨bench.builder c.boardId, .fresh fun _ => 0⟩ with
  | .threw _ s => { bench with builder := Function.update bench.builder c.boardId s.builder }
  | _ => bench.step dw c

/-- The fragment builders of all boards after these containers. -/
def after (dw : MDdataWordBM) (mem : Memory) (cs : List UFEDataContainer) : Bench :=
  cs.foldl (attempt dw) (start mem)

theorem after_snoc (dw : MDdataWordBM) (mem : Memory) (cs : List UFEDataContainer)
    (c : UFEDataContainer) : after dw mem (cs ++ [c]) = (after dw mem cs).attempt dw c := by
  rw [after, List.foldl_append]
  rfl

theorem attempt_done {out : BMDEventMemBank} {s : FragmentState}
    (ends : DataFragmentBuilder.process dw c ⟨bench.builder c.boardId, out⟩ = .done s) :
    bench.attempt dw c = bench.step dw c := by
  obtain ⟨own, clean, m', f?, moved, accepted, -⟩ := DataFragmentBuilder.process_done ends
  have alone := DataFragmentBuilder.process_of_localStep
    (s := ⟨bench.builder c.boardId, .fresh fun _ => 0⟩) own clean moved accepted
  simp only [attempt, alone]

theorem attempt_threw {out : BMDEventMemBank} {e : UFEError} {s : FragmentState}
    (threw : DataFragmentBuilder.process dw c ⟨bench.builder c.boardId, out⟩ = .threw e s) :
    bench.attempt dw c = ⟨Function.update bench.builder c.boardId s.builder, bench.completed⟩ := by
  obtain ⟨s', alone, same⟩ := process_threw_anywhere threw (.fresh fun _ => 0)
  simp only [attempt, alone, same]

theorem attempt_grows (dw : MDdataWordBM) (bench : Bench) (c : UFEDataContainer) :
    ∃ new, (bench.attempt dw c).completed = bench.completed ++ new := by
  unfold attempt
  split
  · exact ⟨[], (List.append_nil _).symm⟩
  · unfold step
    split
    · exact ⟨_, rfl⟩
    · exact ⟨[], (List.append_nil _).symm⟩

/-- The log only grows. -/
theorem after_grows (dw : MDdataWordBM) (mem : Memory) (cs later : List UFEDataContainer) :
    ∃ new, (after dw mem (cs ++ later)).completed = (after dw mem cs).completed ++ new := by
  induction later using List.reverseRecOn with
  | nil => exact ⟨[], by rw [List.append_nil, List.append_nil]⟩
  | append_singleton earlier c ih =>
      obtain ⟨new, grown⟩ := ih
      obtain ⟨new', grown'⟩ := attempt_grows dw (after dw mem (cs ++ earlier)) c
      refine ⟨new ++ new', ?_⟩
      rw [← List.append_assoc, after_snoc, grown', grown, List.append_assoc]

theorem attempt_other (dw : MDdataWordBM) (bench : Bench) {b : Int} (other : c.boardId ≠ b) :
    (bench.attempt dw c).builder b = bench.builder b ∧
      (bench.attempt dw c).completed.filter (·.board = b) =
        bench.completed.filter (·.board = b) := by
  unfold attempt
  split
  · exact ⟨Function.update_of_ne other.symm _ _, rfl⟩
  · exact step_other dw bench other

theorem attempt_own {bench' : Bench} (same : bench.builder c.boardId = bench'.builder c.boardId)
    (log : bench.completed.filter (·.board = c.boardId) =
      bench'.completed.filter (·.board = c.boardId)) :
    (bench.attempt dw c).builder c.boardId = (bench'.attempt dw c).builder c.boardId ∧
      (bench.attempt dw c).completed.filter (·.board = c.boardId) =
        (bench'.attempt dw c).completed.filter (·.board = c.boardId) := by
  unfold attempt
  rw [← same]
  split
  · exact ⟨by simp only [Function.update_self], log⟩
  · exact step_own same log

/-- What a board completes depends on the containers of that board alone. -/
theorem after_own (dw : MDdataWordBM) (mem : Memory) (cs : List UFEDataContainer) (b : Int) :
    (after dw mem cs).builder b = (after dw mem (cs.filter (·.boardId = b))).builder b ∧
      (after dw mem cs).completed.filter (·.board = b) =
        (after dw mem (cs.filter (·.boardId = b))).completed.filter (·.board = b) := by
  induction cs using List.reverseRecOn with
  | nil => exact ⟨rfl, rfl⟩
  | append_singleton cs c ih =>
      obtain ⟨builder, log⟩ := ih
      rw [List.filter_append]
      by_cases own : c.boardId = b
      · have kept : [c].filter (·.boardId = b) = [c] := by simp [own]
        rw [kept, after_snoc, after_snoc]
        cases own with
        | refl => exact attempt_own builder log
      · have dropped : [c].filter (·.boardId = b) = [] := by simp [own]
        obtain ⟨builder', log'⟩ := attempt_other dw (after dw mem cs) own
        rw [dropped, List.append_nil, after_snoc]
        exact ⟨builder'.trans builder, log'.trans log⟩

end Bench

/-! ## The event builder and its file -/

/-- An event builder, and the events that the recorder has written without an error. -/
structure Tape where
  builder : BMDEventBuilder
  saved : List BMDEventMemBank

namespace Tape

variable {dw : MDdataWordBM} {tape tape' : Tape} {a : Arrival}

/-- One call with defined behaviour, whatever its status and whatever the recorder does. -/
def step (dw : MDdataWordBM) (tape : Tape) (a : Arrival) : Option Tape :=
  (BMDEventBuilder.anyStep dw tape.builder a).map fun eb =>
    { builder := eb
      saved :=
        match a.env.write with
        | none => tape.saved ++ eb.recorder_.written.drop tape.builder.recorder_.written.length
        | some _ => tape.saved }

/-- What a call does to the event builder and to the file. -/
inductive Stepped (dw : MDdataWordBM) (tape : Tape) (a : Arrival) (builder : DataFragmentBuilder)
    (bank : BMDEventMemBank) : Tape → Prop where
  /-- The fragment builder has thrown. -/
  | rejected {e s} : DataFragmentBuilder.process dw a.container ⟨builder, bank⟩ = .threw e s →
      Stepped dw tape a builder bank ⟨{ tape.builder with
        board_event_builders_ :=
          tape.builder.board_event_builders_.insert a.container.boardId (some s.builder)
        spill_mem_bank_ := some s.out_data_ }, tape.saved⟩
  /-- The event is not complete. -/
  | collected {s} : DataFragmentBuilder.process dw a.container ⟨builder, bank⟩ = .done s →
      s.out_data_.header_ .n_fragments_ ≠ tape.builder.board_event_builders_.size →
      Stepped dw tape a builder bank ⟨{ tape.builder with
        board_event_builders_ :=
          tape.builder.board_event_builders_.insert a.container.boardId (some s.builder)
        spill_mem_bank_ := some s.out_data_ }, tape.saved⟩
  /-- The event is complete and has been written. -/
  | wrote {s event} : DataFragmentBuilder.process dw a.container ⟨builder, bank⟩ = .done s →
      s.out_data_.header_ .n_fragments_ = tape.builder.board_event_builders_.size →
      event = BMDEventBuilder.stamp s.out_data_ a.env.now tape.builder.event_id_ →
      Stepped dw tape a builder bank
        ⟨⟨tape.builder.board_event_builders_.insert a.container.boardId (some s.builder),
          some event.clear, (tape.builder.event_id_ + 1) % 2 ^ 32,
          ⟨tape.builder.recorder_.written ++ [event]⟩⟩, tape.saved ++ [event]⟩
  /-- The event is complete and the recorder has failed. -/
  | failed {s event} : DataFragmentBuilder.process dw a.container ⟨builder, bank⟩ = .done s →
      s.out_data_.header_ .n_fragments_ = tape.builder.board_event_builders_.size →
      event = BMDEventBuilder.stamp s.out_data_ a.env.now tape.builder.event_id_ →
      Stepped dw tape a builder bank
        ⟨⟨tape.builder.board_event_builders_.insert a.container.boardId (some s.builder),
          some event, (tape.builder.event_id_ + 1) % 2 ^ 32,
          ⟨tape.builder.recorder_.written ++ [event]⟩⟩, tape.saved⟩

theorem step_cases (stepped : tape.step dw a = some tape') :
    ∃ builder bank,
      tape.builder.board_event_builders_.lookup a.container.boardId = some (some builder) ∧
      tape.builder.spill_mem_bank_ = some bank ∧ Stepped dw tape a builder bank tape' := by
  obtain ⟨eb, called, rfl⟩ := Option.map_eq_some_iff.mp stepped
  obtain ⟨reply, ends, rfl⟩ := BMDEventBuilder.anyStep_eq_some.mp called
  obtain ⟨builder, bank, -, -, found, ready, -⟩ := BMDEventBuilder.process_ok_builders ends
  refine ⟨builder, bank, found, ready, ?_⟩
  rw [BMDEventBuilder.process_known found ready] at ends
  have nothing (written : List BMDEventMemBank) :
      (match a.env.write with
        | none => tape.saved ++ written.drop written.length
        | some _ => tape.saved) = tape.saved := by
    cases a.env.write with
    | none => rw [List.drop_length, List.append_nil]
    | some e => rfl
  cases process : DataFragmentBuilder.process dw a.container ⟨builder, bank⟩ with
  | undefined f =>
      rw [process] at ends
      cases ends
  | threw e s =>
      simp only [process, Except.ok.injEq] at ends
      subst ends
      rw [BMDEventBuilder.caught_builder, nothing]
      exact .rejected process
  | done s =>
      simp only [process] at ends
      split at ends
      · next complete =>
          obtain rfl := Except.ok.inj ends
          cases write : a.env.write with
          | none =>
              simp only [BMDEventBuilder.writeEvent, write, BMDEventBuilder.recycle,
                List.drop_left]
              exact .wrote process complete rfl
          | some e =>
              simp only [BMDEventBuilder.writeEvent, write, BMDEventBuilder.caught_builder]
              exact .failed process complete rfl
      · next incomplete =>
          obtain rfl := Except.ok.inj ends
          simp only [BMDEventBuilder.recycle]
          rw [nothing]
          exact .collected process incomplete

end Tape

/-! ## Accounts -/

/-- Where the fragment counter starts for an event: `init` takes over what the memory holds,
    `clear` sets it to zero. -/
def initialCount (mem : Memory) : Nat → Nat
  | 0 => startCount mem
  | _ + 1 => 0

theorem initialCount_of_cleared {mem : Memory} (cleared : StartsCleared mem) (i : Nat) :
    initialCount mem i = 0 := by
  cases i with
  | zero => exact cleared
  | succ i => rfl

/-- Where the completed fragments are: `groups` in the saved events, `pending` in the event
    bank. -/
structure Account (dw : MDdataWordBM) (boards : List Int) (mem : Memory) (cs : List UFEDataContainer)
    (tape : Tape) (groups : List (List Fragment)) (pending : List Fragment) : Prop
    extends Books boards (Bench.after dw mem cs) tape.builder (initialCount mem groups.length) groups
      pending where
  saved : List.Forall₂ (fun e g => BMDMemBank.payload e = fragmentBytes g) tape.saved groups
  full : ∀ i g, groups[i]? = some g →
    (initialCount mem i + g.length) % 2 ^ 16 = boards.dedup.length

namespace Account

variable {dw : MDdataWordBM} {boards : List Int} {mem : Memory} {id : Nat}
  {cs : List UFEDataContainer} {tape tape' : Tape} {a : Arrival} {groups : List (List Fragment)}
  {pending : List Fragment}

theorem start : Account dw boards mem [] ⟨(BMDEventBuilder.new id).init boards mem, []⟩ [] [] where
  toBooks := .init boards mem id
  saved := .nil
  full := nofun

/-- What a call does to the account: it books the fragment `new`, if there is one, and then
    waits, fails to write or writes. -/
inductive Booked (dw : MDdataWordBM) (boards : List Int) (mem : Memory) (cs : List UFEDataContainer)
    (tape tape' : Tape) (groups : List (List Fragment)) (pending new : List Fragment) : Prop where
  | waits : Account dw boards mem cs tape' groups (pending ++ new) →
      tape'.builder.recorder_ = tape.builder.recorder_ →
      Booked dw boards mem cs tape tape' groups pending new
  | fails : Account dw boards mem cs tape' groups (pending ++ new) →
      (initialCount mem groups.length + (pending ++ new).length) % 2 ^ 16 = boards.dedup.length →
      Booked dw boards mem cs tape tape' groups pending new
  | writes : Account dw boards mem cs tape' (groups ++ [pending ++ new]) [] →
      (initialCount mem groups.length + (pending ++ new).length) % 2 ^ 16 = boards.dedup.length →
      Booked dw boards mem cs tape tape' groups pending new

/-- One more event is full. -/
theorem full_next {g : List Fragment} (account : Account dw boards mem cs tape groups pending)
    (complete : (initialCount mem groups.length + g.length) % 2 ^ 16 = boards.dedup.length) :
    ∀ i g', (groups ++ [g])[i]? = some g' →
      (initialCount mem i + g'.length) % 2 ^ 16 = boards.dedup.length := by
  intro i g' here
  by_cases old : i < groups.length
  · rw [List.getElem?_append_left old] at here
    exact account.full i g' here
  · obtain ⟨early, -⟩ := List.getElem?_eq_some_iff.mp here
    rw [List.length_append, List.length_singleton] at early
    obtain rfl : i = groups.length := by omega
    rw [List.getElem?_concat_length, Option.some.injEq] at here
    rw [← here]
    exact complete

section Call

variable {c : UFEDataContainer} {new : List Fragment} {s : FragmentState}

theorem entered (account : Account dw boards mem cs tape groups pending) {bank : BMDEventMemBank}
    (ready : tape.builder.spill_mem_bank_ = some bank)
    (ends : DataFragmentBuilder.process dw c ⟨(Bench.after dw mem cs).builder c.boardId, bank⟩ =
      .done s) :
    ∃ new, Books.Entered (Bench.after dw mem cs) (Bench.after dw mem (cs ++ [c]))
      (initialCount mem groups.length) pending c s new := by
  rw [Bench.after_snoc, Bench.attempt_done ends]
  exact account.toBooks.entered ready ends

/-- The event bank keeps the fragments, stamped or not. -/
theorem keep (account : Account dw boards mem cs tape groups pending) (known : c.boardId ∈ boards)
    (entered : Books.Entered (Bench.after dw mem cs) (Bench.after dw mem (cs ++ [c]))
      (initialCount mem groups.length) pending c s new) {bank : BMDEventMemBank}
    (holds : BankHolds (initialCount mem groups.length) (pending ++ new) bank) (event_id_ : Nat)
    (recorder_ : UFEDataRecorder) :
    Account dw boards mem (cs ++ [c])
      ⟨⟨tape.builder.board_event_builders_.insert c.boardId (some s.builder), some bank,
        event_id_, recorder_⟩, tape.saved⟩ groups (pending ++ new) where
  toBooks := entered.keep account.toBooks known holds event_id_ recorder_
  saved := account.saved
  full := account.full

/-- The event has been written, and the bank is cleared. -/
theorem write (account : Account dw boards mem cs tape groups pending) (known : c.boardId ∈ boards)
    (entered : Books.Entered (Bench.after dw mem cs) (Bench.after dw mem (cs ++ [c]))
      (initialCount mem groups.length) pending c s new) {event : BMDEventMemBank}
    (holds : BankHolds (initialCount mem groups.length) (pending ++ new) event)
    (complete : (initialCount mem groups.length + (pending ++ new).length) % 2 ^ 16 =
      boards.dedup.length) (event_id_ : Nat) (recorder_ : UFEDataRecorder) :
    Account dw boards mem (cs ++ [c])
      ⟨⟨tape.builder.board_event_builders_.insert c.boardId (some s.builder), some event.clear,
        event_id_, recorder_⟩, tape.saved ++ [event]⟩ (groups ++ [pending ++ new]) [] where
  toBooks := by
    rw [List.length_append]
    exact entered.leave account.toBooks known event event_id_ recorder_
  saved := List.rel_append account.saved (.cons holds.payload .nil)
  full := account.full_next complete

end Call

/-- A call that throws books nothing. -/
theorem reject (account : Account dw boards mem cs tape groups pending) {c : UFEDataContainer}
    (known : c.boardId ∈ boards) {bank : BMDEventMemBank} {e : UFEError} {s : FragmentState}
    (ready : tape.builder.spill_mem_bank_ = some bank)
    (threw : DataFragmentBuilder.process dw c ⟨(Bench.after dw mem cs).builder c.boardId, bank⟩ =
      .threw e s) :
    Account dw boards mem (cs ++ [c]) ⟨{ tape.builder with
      board_event_builders_ := tape.builder.board_event_builders_.insert c.boardId (some s.builder)
      spill_mem_bank_ := some s.out_data_ }, tape.saved⟩ groups pending where
  staffed := account.staffed.insert known _
  ready := by
    rw [Bench.after_snoc, Bench.attempt_threw threw]
    exact Books.ready_next account.ready c.boardId s.builder
  inOrder := by
    rw [Bench.after_snoc, Bench.attempt_threw threw]
    exact account.inOrder
  bank := by
    rw [(DataFragmentBuilder.process_threw threw).event, ← ready]
    exact account.bank
  saved := account.saved
  full := account.full

theorem next (account : Account dw boards mem cs tape groups pending)
    (stepped : tape.step dw a = some tape') :
    ∃ new, (Bench.after dw mem (cs ++ [a.container])).completed =
        (Bench.after dw mem cs).completed ++ new ∧
      Booked dw boards mem (cs ++ [a.container]) tape tape' groups pending new := by
  obtain ⟨builder, bank, found, ready, turn⟩ := Tape.step_cases stepped
  obtain ⟨known, rfl⟩ := account.builder_of_lookup found
  have size := account.staffed.size
  cases turn with
  | rejected threw =>
      have booked := account.reject known ready threw
      rw [Bench.after_snoc, Bench.attempt_threw threw]
      rw [← List.append_nil pending] at booked
      exact ⟨[], (List.append_nil _).symm, .waits booked rfl⟩
  | collected ends incomplete =>
      obtain ⟨new, entered⟩ := account.entered ready ends
      exact ⟨new, congrArg Bench.completed entered.stepped,
        .waits (account.keep known entered entered.holds _ _) rfl⟩
  | wrote ends complete stamped =>
      obtain ⟨new, entered⟩ := account.entered ready ends
      have full := entered.holds.count.symm.trans (complete.trans size)
      subst stamped
      exact ⟨new, congrArg Bench.completed entered.stepped,
        .writes (account.write known entered (entered.holds.stamp _ _) full _ _) full⟩
  | failed ends complete stamped =>
      obtain ⟨new, entered⟩ := account.entered ready ends
      have full := entered.holds.count.symm.trans (complete.trans size)
      subst stamped
      exact ⟨new, congrArg Bench.completed entered.stepped,
        .fails (account.keep known entered (entered.holds.stamp _ _) _ _) full⟩

/-- The account of a whole run. -/
theorem of_run {arrivals : List Arrival}
    (ran : run (Tape.step dw) ⟨(BMDEventBuilder.new id).init boards mem, []⟩ arrivals = some tape) :
    ∃ groups pending, Account dw boards mem (containers arrivals) tape groups pending := by
  induction arrivals using List.reverseRecOn generalizing tape with
  | nil =>
      obtain rfl := Option.some.inj ran
      exact ⟨[], [], start⟩
  | append_singleton earlier a ih =>
      rw [run_snoc, Option.bind_eq_some_iff] at ran
      obtain ⟨middle, before, stepped⟩ := ran
      obtain ⟨groups, pending, account⟩ := ih before
      obtain ⟨new, -, booked⟩ := account.next stepped
      rw [containers_snoc]
      cases booked with
      | waits account' | fails account' | writes account' => exact ⟨_, _, account'⟩

/-- While the counter is beyond the number of boards and does not come round to it, everything
    waits. -/
theorem waits_run (account : Account dw boards mem cs tape groups pending) {more : List Arrival}
    (ran : run (Tape.step dw) tape more = some tape')
    (beyond : boards.dedup.length < (initialCount mem groups.length + pending.length) % 2 ^ 16)
    {new : List Fragment}
    (completed : (Bench.after dw mem (cs ++ containers more)).completed =
      (Bench.after dw mem cs).completed ++ new)
    (few : (initialCount mem groups.length + pending.length) % 2 ^ 16 + new.length <
      2 ^ 16 + boards.dedup.length) :
    Account dw boards mem (cs ++ containers more) tape' groups (pending ++ new) ∧
      tape'.builder.recorder_ = tape.builder.recorder_ := by
  induction more using List.reverseRecOn generalizing tape' new with
  | nil =>
      obtain rfl := Option.some.inj ran
      simp only [containers, List.map_nil, List.append_nil, List.self_eq_append_right] at completed ⊢
      rw [completed, List.append_nil]
      exact ⟨account, trivial⟩
  | append_singleton earlier a ih =>
      rw [run_snoc, Option.bind_eq_some_iff] at ran
      obtain ⟨middle, before, stepped⟩ := ran
      rw [containers_snoc, ← List.append_assoc] at completed ⊢
      obtain ⟨first, grown⟩ := Bench.after_grows dw mem cs (containers earlier)
      obtain ⟨last, grown'⟩ := Bench.after_grows dw mem (cs ++ containers earlier) [a.container]
      obtain rfl : new = first ++ last := by
        rw [grown', grown, List.append_assoc] at completed
        exact (List.append_cancel_left completed).symm
      rw [List.length_append] at few
      obtain ⟨account', same⟩ := ih before grown (by omega)
      obtain ⟨last', grown'', booked⟩ := account'.next stepped
      obtain rfl := List.append_cancel_left (grown'.symm.trans grown'')
      -- the counter would have to come round to the number of boards
      have apart : (initialCount mem groups.length + (pending ++ first ++ last).length) % 2 ^ 16 ≠
          boards.dedup.length := by
        simp only [List.length_append]
        omega
      cases booked with
      | waits account'' recorder => exact ⟨List.append_assoc .. ▸ account'', recorder.trans same⟩
      | fails _ complete => exact (apart complete).elim
      | writes _ complete => exact (apart complete).elim

end Account

namespace FakeData

/-- The recorder fails with a warning. -/
def missedWrite : List Arrival :=
  [arriving 0 (shortSpill 0 1), ⟨makeContainer 5 (shortSpill 5 1), 0, some ⟨"", "", .other⟩⟩,
    arriving 0 (shortSpill 0 2)]

end FakeData

section Runs

variable {dw : MDdataWordBM} {boards : List Int} {mem : Memory} {id : Nat} {arrivals : List Arrival}
  {tape tape' : Tape}

/-- Whatever calls throw and whatever writes fail: the saved events and the event bank hold
    exactly the fragments that have been completed, each once and in order, and those of a
    board are what its builder makes of its own containers. The counter that closes an event
    counts them on from zero, only the first one from what the memory held. -/
theorem fragments_survive_failures
    (ran : run (Tape.step dw) ⟨(BMDEventBuilder.new id).init boards mem, []⟩ arrivals = some tape) :
    ∃ groups pending bank,
      groups.flatten ++ pending = (Bench.after dw mem (containers arrivals)).completed ∧
      List.Forall₂ (fun e g => BMDMemBank.payload e = fragmentBytes g) tape.saved groups ∧
      (∀ i g, groups[i]? = some g →
        (initialCount mem i + g.length) % 2 ^ 16 = boards.dedup.length) ∧
      tape.builder.spill_mem_bank_ = some bank ∧ bank.payload = fragmentBytes pending ∧
      bank.header_ .n_fragments_ = (initialCount mem groups.length + pending.length) % 2 ^ 16 ∧
      ∀ b, (groups.flatten ++ pending).filter (·.board = b) =
        (Bench.after dw mem ((containers arrivals).filter (·.boardId = b))).completed.filter
          (·.board = b) := by
  obtain ⟨groups, pending, account⟩ := Account.of_run ran
  obtain ⟨bank, atBank, bytes, count, -⟩ := account.bank
  refine ⟨groups, pending, bank, account.inOrder, account.saved, account.full, atBank, bytes, count,
    fun b => ?_⟩
  rw [account.inOrder]
  exact (Bench.after_own dw mem (containers arrivals) b).2

open FakeData in
/-- Board 5 completes the event while the recorder fails; then board 0 goes on. -/
theorem fragments_survive_missedWrite : ∃ tape : Tape,
    run (Tape.step fakeWord) ⟨twoBoards, []⟩ missedWrite = some tape ∧
    ∃ groups pending bank,
      groups.flatten ++ pending =
        (Bench.after fakeWord zeroed (containers missedWrite)).completed ∧
      List.Forall₂ (fun e g => BMDMemBank.payload e = fragmentBytes g) tape.saved groups ∧
      (∀ (i : Nat) (g : List Fragment), groups[i]? = some g → g.length % 2 ^ 16 = 2) ∧
      tape.builder.spill_mem_bank_ = some bank ∧ bank.payload = fragmentBytes pending ∧
      bank.header_ .n_fragments_ = pending.length % 2 ^ 16 ∧
      ∀ b, (groups.flatten ++ pending).filter (·.board = b) =
        (Bench.after fakeWord zeroed
          ((containers missedWrite).filter (·.boardId = b))).completed.filter (·.board = b) := by
  have returns : (run (Tape.step fakeWord) ⟨twoBoards, []⟩ missedWrite).isSome = true := by
    decide +kernel
  obtain ⟨tape, ran⟩ := Option.isSome_iff_exists.mp returns
  have cleared : StartsCleared zeroed := by decide +kernel
  obtain ⟨groups, pending, bank, inOrder, saved, full, atBank, bytes, count, own⟩ :=
    fragments_survive_failures ran
  simp only [initialCount_of_cleared cleared, Nat.zero_add] at full count
  exact ⟨tape, ran, groups, pending, bank, inOrder, saved, full, atBank, bytes, count, own⟩

/-- Once the event bank holds more fragments than there are boards, nothing is handed to the
    recorder any more until the 16-bit counter has come round: the fragments pile up in the
    bank. -/
theorem overfull_bank_waits
    (ran : run (Tape.step dw) ⟨(BMDEventBuilder.new id).init boards mem, []⟩ arrivals = some tape)
    {bank : BMDEventMemBank} (ready : tape.builder.spill_mem_bank_ = some bank)
    (beyond : boards.dedup.length < bank.header_ .n_fragments_) {more : List Arrival}
    (ran' : run (Tape.step dw) tape more = some tape') {new : List Fragment}
    (completed : (Bench.after dw mem (containers (arrivals ++ more))).completed =
      (Bench.after dw mem (containers arrivals)).completed ++ new)
    (few : bank.header_ .n_fragments_ + new.length < 2 ^ 16 + boards.dedup.length) :
    tape'.builder.recorder_ = tape.builder.recorder_ ∧
      ∃ bank', tape'.builder.spill_mem_bank_ = some bank' ∧
        bank'.payload = bank.payload ++ fragmentBytes new := by
  obtain ⟨groups, pending, account⟩ := Account.of_run ran
  obtain ⟨bank₀, atBank, bytes, count, -⟩ := account.bank
  obtain rfl := Option.some.inj (ready.symm.trans atBank)
  rw [count] at beyond few
  rw [containers_append] at completed
  obtain ⟨account', same⟩ := account.waits_run ran' beyond completed few
  obtain ⟨bank', atBank', bytes', -, -⟩ := account'.bank
  exact ⟨same, bank', atBank', by rw [bytes', fragmentBytes_append, bytes]⟩

open FakeData in
theorem overfull_bank_waits_missedWrite : ∃ (tape tape' : Tape) (bank : BMDEventMemBank),
    run (Tape.step fakeWord) ⟨twoBoards, []⟩ missedWrite = some tape ∧
      run (Tape.step fakeWord) tape [arriving 5 (shortSpill 5 2)] = some tape' ∧
      tape.builder.spill_mem_bank_ = some bank ∧ bank.header_ .n_fragments_ = 3 ∧
      tape'.builder.recorder_ = tape.builder.recorder_ ∧
      ∃ bank', tape'.builder.spill_mem_bank_ = some bank' ∧
        bank'.payload = bank.payload ++ fragmentBytes [shortFragment 5 2] := by
  have returns : ∃ tape ∈ run (Tape.step fakeWord) ⟨twoBoards, []⟩ missedWrite,
      (∃ bank ∈ tape.builder.spill_mem_bank_, bank.header_ .n_fragments_ = 3) ∧
        (run (Tape.step fakeWord) tape [arriving 5 (shortSpill 5 2)]).isSome = true := by
    decide +kernel
  obtain ⟨tape, ran, ⟨bank, ready, three⟩, goes⟩ := returns
  obtain ⟨tape', ran'⟩ := Option.isSome_iff_exists.mp goes
  have completed : (Bench.after fakeWord zeroed (containers (missedWrite ++
      [arriving 5 (shortSpill 5 2)]))).completed =
      (Bench.after fakeWord zeroed (containers missedWrite)).completed ++ [shortFragment 5 2] := by
    decide +kernel
  have beyond : [(0 : Int), 5].dedup.length < bank.header_ .n_fragments_ := by
    rw [three]
    decide
  refine ⟨tape, tape', bank, ran, ran', ready, three, ?_⟩
  apply overfull_bank_waits ran ready beyond ran' completed
  rw [three]
  decide

end Runs

end BMDaq
