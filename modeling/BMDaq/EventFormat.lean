import BMDaq.Lib.Frames
import BMDaq.BankMarkers
import BMDaq.Coherence

/-! # The format of a written event

Behind its header an event is a sequence of fragments, each with its own length in front.
Every bank that is handed over has just been appended to, so its `size_` is right at that
moment even where an earlier container had left a wrong value. Reading the event by its
lengths therefore returns the fragments that were moved into it, if `n_fragments_` is their
number. It is after `clear()`; in the bank of the first event it counts on from what the
memory held.
-/

namespace BMDaq

open Bytes

/-- Read an event: `n_fragments_` jumps from the end of the event header to `size_`. -/
def BMDMemBank.blocks (e : BMDEventMemBank) : Option (List (List UInt8)) :=
  Frames.blocksFrom 8 e.buf (e.header_ .size_) (e.header_ .n_fragments_)
    (sizeofHeader BMDEventHeader)

/-- A fragment header followed by the words of a spill, header and trailer word included. -/
structure SpillBlock (dw : MDdataWordBM) (block : List UInt8) : Prop where
  large : 16 ≤ block.length
  header : decode (block.take 8) = block.length
  first : ∃ w, wordAt? block 8 = some w ∧ dw.GetDataType w = .SpillHeader
  last : ∃ w, wordAt? block (block.length - 4) = some w ∧ dw.GetDataType w = .SpillTrailer2

section Format

variable {dw : MDdataWordBM} {mem : Memory} {cs : List UFEDataContainer}

theorem Bench.Accepts.sized (accepted : Bench.Accepts dw mem cs) :
    ∀ f ∈ completions dw mem cs, ∃ m : BMDBoardMemBank, m.SizeRight ∧ f.bytes = m.buf := by
  induction accepted with
  | nil => exact nofun
  | @snoc cs c out s _ called ih =>
      obtain ⟨f?, moved, -, -, stepped⟩ := Bench.step_done called
      intro f member
      rw [completions, Bench.run_snoc, stepped] at member
      rcases List.mem_append.mp member with old | new
      · exact ih f old
      · cases f? with
        | none => exact (List.not_mem_nil new).elim
        | some m =>
            rw [Bench.handedOver, List.mem_singleton] at new
            exact ⟨m, moved.handed_sizeRight m rfl, by rw [new]⟩

theorem framed_of_sizeRight {m : BMDBoardMemBank} (right : m.SizeRight) (fits : m.size < sizeT) :
    Frames.Framed 8 m.buf where
  long := m.hasHeader
  stated := right.trans (Nat.mod_eq_of_lt fits)

theorem Completed.spillBlock {m : BMDBoardMemBank} (complete : Completed dw m)
    (fits : m.size < sizeT) : SpillBlock dw m.buf where
  large := complete.large
  header := (framed_of_sizeRight complete.sized fits).stated
  first := complete.first
  last := complete.last

/-- An event whose payload is a sequence of framed blocks is read back if its header counts them,
    and cannot be read otherwise. -/
theorem blocks_of_framed {e : BMDEventMemBank} {blocks : List (List UInt8)}
    (framed : ∀ block ∈ blocks, Frames.Framed 8 block) (payload : e.payload = blocks.flatten)
    (size : e.header_ .size_ = e.size) :
    e.blocks = if e.header_ .n_fragments_ = blocks.length then some blocks else none := by
  have front : (e.buf.take 24).length = 24 := by
    have large : 24 ≤ e.buf.length := e.hasHeader
    rw [List.length_take]
    omega
  have read := Frames.blocksFrom_flatten (by decide) (e.buf.take 24) framed (e.header_ .n_fragments_)
  have behind : blocks.flatten = e.buf.drop 24 := payload.symm
  have stop : 24 + blocks.flatten.length = e.header_ .size_ := by
    rw [size, e.size_eq, payload]
    rfl
  rw [front, stop, behind, List.take_append_drop] at read
  exact read

/-- Reading an event that holds completed fragments. -/
theorem Bench.Accepts.read (accepted : Bench.Accepts dw mem cs) {e : BMDEventMemBank}
    {g : List Fragment} (logged : ∀ f ∈ g, f ∈ completions dw mem cs)
    (payload : e.payload = fragmentBytes g) (right : e.SizeRight) (fits : e.size < sizeT) :
    e.header_ .size_ = e.size ∧
      e.blocks = if e.header_ .n_fragments_ = g.length then some (g.map Fragment.bytes) else none := by
  have size : e.header_ .size_ = e.size := right.trans (Nat.mod_eq_of_lt fits)
  have total : e.size = 24 + (fragmentBytes g).length := by
    rw [e.size_eq, payload]
    rfl
  refine ⟨size, ?_⟩
  rw [← List.length_map (f := Fragment.bytes)]
  apply blocks_of_framed _ payload size
  intro block member
  obtain ⟨f, inside, rfl⟩ := List.mem_map.mp member
  obtain ⟨m, sized, bytes⟩ := accepted.sized f (logged f inside)
  have part := length_le_fragmentBytes inside
  rw [bytes] at part ⊢
  exact framed_of_sizeRight sized (show m.buf.length < sizeT by omega)

/-- No container is accepted where no board is configured. -/
theorem run_no_boards {id : Nat} {arrivals : List Arrival} {eb : BMDEventBuilder}
    (writes : WriteErrorsReported arrivals)
    (ran : run (BMDEventBuilder.okStep dw) ((BMDEventBuilder.new id).init [] mem) arrivals =
      some eb) : arrivals = [] := by
  cases arrivals with
  | nil => rfl
  | cons a rest =>
      rw [run_cons, Option.bind_eq_some_iff] at ran
      obtain ⟨next, ok, -⟩ := ran
      have staffed := BMDEventBuilder.init_staffed [] mem id
      have absent : ∀ builder, ((BMDEventBuilder.new id).init [] mem).board_event_builders_.lookup
          a.container.boardId ≠ some (some builder) := by
        intro builder found
        exact List.not_mem_nil (staffed.known found)
      cases BMDEventBuilder.okStep_advanced (writes a List.mem_cons_self) ok with
      | collected found => exact (absent _ found).elim
      | wrote found => exact (absent _ found).elim

variable {boards : List Int} {id : Nat} {arrivals : List Arrival} {eb eb' : BMDEventBuilder}
  {groups : List (List Fragment)} {pending : List Fragment} {e : BMDEventMemBank} {c : UFEDataContainer}

/-- The event is read back as the fragments `g`. When the containers come from the scanner
    these are spills. -/
structure DecodesTo (dw : MDdataWordBM) (cs : List UFEDataContainer) (e : BMDEventMemBank)
    (g : List Fragment) : Prop where
  payload : e.payload = fragmentBytes g
  size : e.header_ .size_ = e.size
  blocks : e.blocks = some (g.map Fragment.bytes)
  spills : (∀ c ∈ cs, ScannerFilled dw c) → ∀ f ∈ g, SpillBlock dw f.bytes

/-- Every event is read back as the fragments that were moved into it. -/
def SelfDescribing (dw : MDdataWordBM) (mem : Memory) (cs : List UFEDataContainer)
    (events : List BMDEventMemBank) : Prop :=
  ∃ groups pending, groups.flatten ++ pending = completions dw mem cs ∧
    List.Forall₂ (DecodesTo dw cs) events groups

theorem selfDescribing_nil (dw : MDdataWordBM) (mem : Memory) (cs : List UFEDataContainer) :
    SelfDescribing dw mem cs [] :=
  ⟨[], completions dw mem cs, rfl, .nil⟩

/-- A written event is read back as its fragments. -/
theorem Ledger.read (ledger : Ledger dw boards mem id cs eb groups pending) {g : List Fragment}
    (written : e ∈ eb.recorder_.written) (group : g ∈ groups) (payload : e.payload = fragmentBytes g)
    (fits : e.size < sizeT) :
    e.header_ .size_ = e.size ∧ e.blocks = some (g.map Fragment.bytes) := by
  obtain ⟨count, right⟩ := ledger.counted e written
  obtain ⟨size, read⟩ := ledger.accepted.read (fun _ inside => ledger.completed group inside)
    payload right fits
  rw [count, ledger.full g group, if_pos rfl] at read
  exact ⟨size, read⟩

theorem Ledger.decodes (ledger : Ledger dw boards mem id cs eb groups pending) {g : List Fragment}
    (written : e ∈ eb.recorder_.written) (group : g ∈ groups) (payload : e.payload = fragmentBytes g)
    (fits : e.size < sizeT) : DecodesTo dw cs e g := by
  obtain ⟨size, read⟩ := ledger.read written group payload fits
  refine ⟨payload, size, read, fun filled f inside => ?_⟩
  obtain ⟨-, log⟩ := ledger.accepted.tidy fun c arrived => (filled c arrived).spec
  obtain ⟨m, complete, bytes⟩ := log f (ledger.completed group inside)
  have part := length_le_fragmentBytes inside
  rw [e.size_eq, payload] at fits
  rw [bytes] at part ⊢
  exact complete.spillBlock (show m.buf.length < sizeT by omega)

/-- The written events beside their fragments. -/
theorem Ledger.paired (ledger : Ledger dw boards mem id cs eb groups pending) :
    List.Forall₂ (fun e g => e ∈ eb.recorder_.written ∧ g ∈ groups ∧
      BMDMemBank.payload e = fragmentBytes g) eb.recorder_.written groups :=
  List.forall₂_iff_get.mpr ⟨ledger.written.length_eq, fun _ early early' =>
    ⟨List.get_mem _ _, List.get_mem _ _, ledger.written.get early early'⟩⟩

/-- From a cleared bank, every event describes itself. -/
theorem Ledger.selfDescribing (ledger : Ledger dw boards mem id cs eb groups pending)
    (fits : ∀ e ∈ eb.recorder_.written, e.size < sizeT) :
    SelfDescribing dw mem cs eb.recorder_.written := by
  refine ⟨groups, pending, ledger.logged, ledger.paired.imp fun e g each => ?_⟩
  obtain ⟨written, group, payload⟩ := each
  exact ledger.decodes written group payload (fits e written)

/-! ## Event banks that do not start cleared -/

/-- At no call does the counter, which starts from the memory and counts the completed
    fragments, meet the number of boards. -/
def NeverFull (dw : MDdataWordBM) (boards : List Int) (mem : Memory) (cs : List UFEDataContainer) :
    Prop :=
  ∀ p, p <+: cs → p ≠ [] →
    (startCount mem + (completions dw mem p).length) % 2 ^ 16 ≠ boards.dedup.length

theorem NeverFull.snoc (never : NeverFull dw boards mem cs)
    (short : (startCount mem + (completions dw mem (cs ++ [c])).length) % 2 ^ 16 ≠
      boards.dedup.length) : NeverFull dw boards mem (cs ++ [c]) := by
  intro p before some
  rcases List.prefix_concat_iff.mp before with rfl | earlier
  · exact short
  · exact never p earlier some

/-- Before the first event: all completed fragments are in the bank. -/
structure Filling (dw : MDdataWordBM) (boards : List Int) (mem : Memory) (cs : List UFEDataContainer)
    (eb : BMDEventBuilder) : Prop
    extends Books boards ((Bench.start mem).run dw cs) eb (startCount mem) [] (completions dw mem cs)
    where
  accepted : Bench.Accepts dw mem cs
  nothing : eb.recorder_.written = []
  never : NeverFull dw boards mem cs

/-- The first event of a run, written after the containers `cs`. -/
structure FirstEvent (dw : MDdataWordBM) (boards : List Int) (mem : Memory)
    (cs : List UFEDataContainer) (e : BMDEventMemBank) : Prop where
  accepted : Bench.Accepts dw mem cs
  holds : BankHolds (startCount mem) (completions dw mem cs) e
  complete : e.header_ .n_fragments_ = boards.dedup.length

theorem Filling.start (dw : MDdataWordBM) (boards : List Int) (mem : Memory) (id : Nat) :
    Filling dw boards mem [] ((BMDEventBuilder.new id).init boards mem) where
  toBooks := .init boards mem id
  accepted := .nil
  nothing := rfl
  never := fun _ before some => (some (List.prefix_nil.mp before)).elim

theorem Filling.next {now : Nat} (filling : Filling dw boards mem cs eb)
    (advanced : BMDEventBuilder.Advanced dw c now eb eb') :
    Filling dw boards mem (cs ++ [c]) eb' ∨
      ∃ e, eb'.recorder_.written.head? = some e ∧ FirstEvent dw boards mem (cs ++ [c]) e := by
  have mapSize := filling.staffed.size
  cases advanced with
  | collected found ready ends incomplete after =>
      obtain ⟨new, called⟩ := filling.called filling.accepted found ready ends
      rw [mapSize, called.entered.holds.count, ← called.logged] at incomplete
      subst after
      exact .inl
        { toBooks := by
            rw [called.logged]
            exact called.entered.keep filling.toBooks called.known called.entered.holds _ _
          accepted := called.accepted
          nothing := filling.nothing
          never := filling.never.snoc incomplete }
  | wrote found ready ends complete after =>
      obtain ⟨new, called⟩ := filling.called filling.accepted found ready ends
      have stamped := called.entered.holds.stamp now eb.event_id_
      rw [← called.logged] at stamped
      subst after
      refine .inr ⟨_, by rw [filling.nothing]; rfl, called.accepted, stamped, ?_⟩
      rw [BMDEventBuilder.stamp_header _ _ _ (by decide) (by decide), complete, mapSize]

/-- A run is still filling the first bank, or has written its first event. -/
theorem run_first (writes : WriteErrorsReported arrivals)
    (ran : run (BMDEventBuilder.okStep dw) ((BMDEventBuilder.new id).init boards mem) arrivals =
      some eb) :
    Filling dw boards mem (containers arrivals) eb ∨ ∃ p e, p <+: containers arrivals ∧ p ≠ [] ∧
      eb.recorder_.written.head? = some e ∧ FirstEvent dw boards mem p e := by
  have kept : WriteErrorsReported arrivals → Filling dw boards mem (containers arrivals) eb ∨
      ∃ p e, p <+: containers arrivals ∧ p ≠ [] ∧ eb.recorder_.written.head? = some e ∧
        FirstEvent dw boards mem p e := by
    refine run_induction
      (P := fun arrivals eb => WriteErrorsReported arrivals →
        Filling dw boards mem (containers arrivals) eb ∨
          ∃ p e, p <+: containers arrivals ∧ p ≠ [] ∧ eb.recorder_.written.head? = some e ∧
            FirstEvent dw boards mem p e)
      (fun _ => .inl (.start dw boards mem id)) ?_ ran
    intro before eb a eb' _ ih ok writes
    have advanced := BMDEventBuilder.okStep_advanced (writes a (by simp)) ok
    rw [containers_snoc]
    rcases ih fun a' member => writes a' (List.mem_append_left _ member) with
      filling | ⟨p, e, early, some, here, first⟩
    · rcases filling.next advanced with filling' | ⟨e, here, first⟩
      · exact .inl filling'
      · exact .inr ⟨_, e, List.prefix_rfl, by simp, here, first⟩
    · refine .inr ⟨p, e, early.trans (List.prefix_append _ _), some, ?_, first⟩
      cases advanced with
      | collected found ready ends incomplete after => rw [after]; exact here
      | wrote found ready ends complete after =>
          rw [after]
          exact List.mem_head?_append_of_mem_head? here
  exact kept writes

/-- A counter that has started from another value than zero has met the number of boards with
    another number of fragments in the bank. -/
theorem FirstEvent.unreadable (first : FirstEvent dw boards mem cs e) (used : ¬ StartsCleared mem)
    (fits : e.size < sizeT) : e.blocks = none := by
  obtain ⟨-, read⟩ := first.accepted.read (fun _ logged => logged) first.holds.payload
    first.holds.right fits
  have small := startCount_lt mem
  have notZero : startCount mem ≠ 0 := used
  have count := first.holds.count
  have apart : e.header_ .n_fragments_ ≠ (completions dw mem cs).length := by omega
  rw [read, if_neg apart]

/-- What has been completed is counted by the spills that the containers close. -/
theorem completions_length (accepted : Bench.Accepts dw mem cs) (marked : ∀ c ∈ cs, WellMarked c)
    {p : List UFEDataContainer} (early : p <+: cs) :
    (completions dw mem p).length = (SpillLog.run p).closed.length := by
  obtain ⟨later, rfl⟩ := early
  have log := (accepted.front.spillLog fun c member => marked c (List.mem_append_left _ member)).2
  rw [log, List.length_map]

/-- Every event of a run describes itself exactly when the event bank starts cleared, or no event
    is written: `size_` is its size, and reading it by the lengths of its blocks takes
    `n_fragments_` jumps and returns the fragments that were moved into it. No event is written
    if the counter never gets there, which the spills in the containers decide. -/
theorem events_self_describing_iff (writes : WriteErrorsReported arrivals)
    (ran : run (BMDEventBuilder.okStep dw) ((BMDEventBuilder.new id).init boards mem) arrivals =
      some eb) (fits : ∀ e ∈ eb.recorder_.written, e.size < sizeT) :
    (SelfDescribing dw mem (containers arrivals) eb.recorder_.written ↔
      StartsCleared mem ∨ NeverFull dw boards mem (containers arrivals)) ∧
    ((∀ c ∈ containers arrivals, WellMarked c) → ∀ p, p <+: containers arrivals →
      (completions dw mem p).length = (SpillLog.run p).closed.length) := by
  refine ⟨?_, fun marked p => completions_length (run_accepts writes ran) marked⟩
  constructor
  · rintro ⟨groups, pending, -, decoded⟩
    rcases run_first writes ran with filling | ⟨p, e, -, -, here, first⟩
    · exact .inr filling.never
    · refine .inl (by_contra fun used => ?_)
      obtain ⟨rest, written⟩ := List.head?_eq_some_iff.mp here
      rw [written] at decoded fits
      cases decoded with
      | cons decodes _ =>
          have unreadable := first.unreadable used (fits e List.mem_cons_self)
          cases unreadable.symm.trans decodes.blocks
  · rintro (cleared | never)
    · by_cases none : boards.dedup.length = 0
      · obtain rfl := (List.dedup_eq_nil boards).mp (List.length_eq_zero_iff.mp none)
        obtain rfl := run_no_boards writes ran
        obtain rfl := Option.some.inj ran
        exact selfDescribing_nil dw mem _
      · obtain ⟨groups, pending, ledger⟩ := run_ledger (by omega) cleared writes ran
        exact ledger.selfDescribing fits
    · rcases run_first writes ran with filling | ⟨p, e, early, some, -, first⟩
      · rw [filling.nothing]
        exact selfDescribing_nil dw mem _
      · exact (never p early some (first.holds.count.symm.trans first.complete)).elim

open FakeData in
/-- The spill of board 0 comes in three containers; the second one has no markers and
    leaves a wrong `size_` in the local bank. -/
theorem event_of_cut_spill :
    ∃ eb e, ∃ g : List Fragment, run (BMDEventBuilder.okStep fakeWord) twoBoards
        [arriving 0 [spillHeader 0 5, filler], arriving 0 [filler], arriving 0 (spillTrailer 0 5),
          arriving 5 (shortSpill 5 5)] = some eb ∧
      eb.recorder_.written = [e] ∧ e.size = 80 ∧ e.header_ .size_ = 80 ∧
      e.blocks = some (g.map Fragment.bytes) ∧ ∀ f ∈ g, SpillBlock fakeWord f.bytes := by
  have sizes : (run (BMDEventBuilder.okStep fakeWord) twoBoards
      [arriving 0 [spillHeader 0 5, filler], arriving 0 [filler], arriving 0 (spillTrailer 0 5),
        arriving 5 (shortSpill 5 5)]).map (fun eb => eb.recorder_.written.map (·.size)) =
          some [80] := by decide +kernel
  obtain ⟨eb, ran, events⟩ := Option.map_eq_some_iff.mp sizes
  obtain ⟨e, rest, written, size, nothing⟩ := List.map_eq_cons_iff.mp events
  rw [List.map_eq_nil_iff.mp nothing] at written
  have fits : ∀ e ∈ eb.recorder_.written, e.size < sizeT := by
    simp only [written, List.mem_singleton, forall_eq, size]
    decide
  obtain ⟨groups, pending, -, decoded⟩ :=
    (events_self_describing_iff (by decide) ran fits).1.mpr (.inl (by decide +kernel))
  rw [written] at decoded
  cases decoded with
  | @cons _ g _ _ decodes _ =>
      refine ⟨eb, e, g, ran, written, size, decodes.size.trans size, decodes.blocks,
        decodes.spills ?_⟩
      simp only [containers, List.map_cons, List.map_nil, List.mem_cons, List.not_mem_nil,
        or_false, forall_eq_or_imp, forall_eq]
      exact ⟨makeContainer_filled _ (by decide), makeContainer_filled _ (by decide),
        makeContainer_filled _ (by decide), makeContainer_filled _ (by decide)⟩

namespace FakeData

/-- Memory in which the counter of the event bank reads as one fragment. -/
def used : Memory := ⟨fun i => if i = 22 then 1 else 0, fun _ _ => 0⟩

end FakeData

open FakeData in
/-- The first spill of board 0 completes the event of two boards. -/
theorem used_bank_unreadable :
    ∃ eb e, run (BMDEventBuilder.okStep fakeWord) ((BMDEventBuilder.new 0).init [0, 5] used)
        [arriving 0 (shortSpill 0 5)] = some eb ∧
      eb.recorder_.written = [e] ∧ e.payload = fragmentBytes [shortFragment 0 5] ∧
      e.header_ .n_fragments_ = 2 ∧ e.header_ .size_ = e.size ∧ e.size = 48 ∧ e.blocks = none ∧
      ¬ SelfDescribing fakeWord used (containers [arriving 0 (shortSpill 0 5)])
        eb.recorder_.written := by
  have event : ∃ eb ∈ run (BMDEventBuilder.okStep fakeWord)
      ((BMDEventBuilder.new 0).init [0, 5] used) [arriving 0 (shortSpill 0 5)],
      ∃ e ∈ eb.recorder_.written.head?, eb.recorder_.written.length = 1 ∧
        e.payload = fragmentBytes [shortFragment 0 5] ∧ e.header_ .n_fragments_ = 2 ∧
        e.header_ .size_ = e.size ∧ e.size = 48 ∧ e.blocks = none := by decide +kernel
  obtain ⟨eb, ran, e, here, one, payload, count, right, size, unreadable⟩ := event
  obtain ⟨rest, written⟩ := List.head?_eq_some_iff.mp here
  rw [written, List.length_cons, Nat.add_eq_right, List.length_eq_zero_iff] at one
  rw [one] at written
  refine ⟨eb, e, ran, written, payload, count, right, size, unreadable, ?_⟩
  rw [written]
  rintro ⟨groups, pending, -, decoded⟩
  cases decoded with
  | cons decodes _ => cases unreadable.symm.trans decodes.blocks

end Format

end BMDaq
