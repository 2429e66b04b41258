import BMDaq.SpillAssembly
import BMDaq.Lib.Rounds

/-! # Coherence of the written events

The event builder counts fragments and never looks at their boards. Its events are the
consecutive groups of the completion log, so an event is coherent exactly when the boards
happen to complete their spills in lock step, and carries one spill tag exactly when the
`k`-th spills of all boards do.
-/

namespace BMDaq

open Bytes Rounds

/-- The groups into which the event builder cuts a log of completions. With more boards
    than a 16-bit counter can count nothing is ever written. -/
def eventGroups {β : Type} (boards : List Int) (log : List β) : List (List β) :=
  if boards.dedup.length < 2 ^ 16 then blocks boards.dedup.length log else []

theorem eventGroups_map {β γ : Type} (boards : List Int) (f : β → γ) (log : List β) :
    eventGroups boards (log.map f) = (eventGroups boards log).map (List.map f) := by
  unfold eventGroups
  split
  · exact blocks_map f _ log
  · rfl

/-- The spill tag of the header word of a spill. -/
def spillTag (dw : MDdataWordBM) (spill : List UInt8) : Option Nat :=
  (wordAt? spill 0).map dw.GetSpillTag

/-- The spill behind the size header of a fragment. -/
def Fragment.spill (f : Fragment) : List UInt8 := f.bytes.drop 8

/-- One fragment of every board, all of one spill. -/
def CoherentGroup (dw : MDdataWordBM) (boards : List Int) (g : List Fragment) : Prop :=
  OneEach boards (g.map Fragment.board) ∧
    ∀ f ∈ g, ∀ f' ∈ g, spillTag dw f.spill = spillTag dw f'.spill

instance (dw : MDdataWordBM) (boards : List Int) (g : List Fragment) :
    Decidable (CoherentGroup dw boards g) :=
  inferInstanceAs (Decidable (_ ∧ ∀ f ∈ g, ∀ f' ∈ g, spillTag dw f.spill = spillTag dw f'.spill))

/-- Among the spills that fill whole events, no board closes spill `k + 1` before every
    board has closed spill `k`, and the `k`-th spills of the boards have the same tag. -/
structure SpillsAligned (dw : MDdataWordBM) (boards : List Int) (closed : List (Int × List UInt8)) :
    Prop where
  inStep : LockStep boards ((eventGroups boards closed).flatten.map Prod.fst)
  sameTag : ∀ a ∈ boards, ∀ b ∈ boards, ∀ (k : Nat) x y,
    (entriesOf Prod.fst a (eventGroups boards closed).flatten)[k]? = some x →
      (entriesOf Prod.fst b (eventGroups boards closed).flatten)[k]? = some y →
        spillTag dw x.2 = spillTag dw y.2

section Runs

variable {dw : MDdataWordBM} {boards : List Int} {mem : Memory} {id : Nat}
  {arrivals : List Arrival} {cs : List UFEDataContainer} {eb : BMDEventBuilder}
  {groups : List (List Fragment)} {pending : List Fragment}

/-- The groups of the ledger are determined by the log. -/
theorem Ledger.groups_eq (ledger : Ledger dw boards mem id cs eb groups pending) :
    groups = eventGroups boards (completions dw mem cs) := by
  unfold eventGroups
  split
  · next small =>
      rw [← ledger.logged]
      exact (blocks_of_groups ledger.full (ledger.waiting small)).symm
  · next huge => exact ledger.never (Nat.le_of_not_lt huge)

theorem Ledger.groups_boards (ledger : Ledger dw boards mem id cs eb groups pending) :
    ∀ g ∈ groups, ∀ f ∈ g, f.board ∈ boards := by
  intro g member f inside
  obtain ⟨c, arrived, board⟩ :=
    Bench.run_start_boards dw mem cs f (ledger.completed member inside)
  exact board ▸ ledger.configured c arrived

/-- The counting argument: groups as large as the set of boards are rounds iff the log is
    in lock step. -/
theorem Ledger.coherent_iff (ledger : Ledger dw boards mem id cs eb groups pending) :
    (∀ g ∈ groups, OneEach boards (g.map Fragment.board)) ↔
      LockStep boards (groups.flatten.map Fragment.board) := by
  have full : ∀ g ∈ groups.map (List.map Fragment.board), g.length = boards.dedup.length := by
    intro g member
    obtain ⟨g', inside, rfl⟩ := List.mem_map.mp member
    rw [List.length_map, ledger.full g' inside]
  have only : ∀ g ∈ groups.map (List.map Fragment.board), ∀ b ∈ g, b ∈ boards.dedup := by
    intro g member b here
    obtain ⟨g', inside, rfl⟩ := List.mem_map.mp member
    obtain ⟨f, listed, rfl⟩ := List.mem_map.mp here
    exact List.mem_dedup.mpr (ledger.groups_boards g' inside f listed)
  have count := oneEach_iff_lockStep boards.nodup_dedup full only
  simpa only [oneEach_dedup, lockStep_dedup, List.forall_mem_map, List.map_flatten] using count

/-- In a run of rounds, event `k` holds the `k`-th completed fragment of every board. -/
theorem Ledger.kth_fragment (ledger : Ledger dw boards mem id cs eb groups pending)
    (rounds : ∀ g ∈ groups, OneEach boards (g.map Fragment.board)) {k : Nat} {g : List Fragment}
    (here : groups[k]? = some g) {b : Int} (member : b ∈ boards) :
    ∃ f, entriesOf Fragment.board b g = [f] ∧
      (entriesOf Fragment.board b (completions dw mem cs))[k]? = some f := by
  obtain ⟨f, own, place⟩ := entriesOf_round (fun g inside => rounds g inside b member) here
  refine ⟨f, own, ?_⟩
  obtain ⟨early, -⟩ := List.getElem?_eq_some_iff.mp place
  rw [← ledger.logged, entriesOf, List.filter_append, ← entriesOf, List.getElem?_append_left early]
  exact place

/-- Two runs on the same containers per board have the same completions per board, so
    their events hold the same fragments. -/
theorem Ledger.same_events {mem' : Memory} {id' : Nat} {cs' : List UFEDataContainer}
    {eb' : BMDEventBuilder} {groups' : List (List Fragment)} {pending' : List Fragment}
    (ledger : Ledger dw boards mem id cs eb groups pending)
    (ledger' : Ledger dw boards mem' id' cs' eb' groups' pending')
    (same : ∀ b, cs.filter (·.boardId = b) = cs'.filter (·.boardId = b))
    (rounds : ∀ g ∈ groups, OneEach boards (g.map Fragment.board))
    (rounds' : ∀ g ∈ groups', OneEach boards (g.map Fragment.board)) :
    List.Forall₂ List.Perm groups groups' := by
  have perBoard (b : Int) : entriesOf Fragment.board b (completions dw mem cs) =
      entriesOf Fragment.board b (completions dw mem' cs') := by
    simp only [entriesOf, completions_own, same, completions_memory dw mem mem']
  have total : (completions dw mem cs).length = (completions dw mem' cs').length :=
    (perm_of_entriesOf _ perBoard).length_eq
  have count : groups.length = groups'.length := by
    rw [ledger.groups_eq, ledger'.groups_eq]
    unfold eventGroups
    split
    · simp only [blocks, List.length_map, List.length_range, total]
    · rfl
  have foreign {gs : List (List Fragment)} (only : ∀ g ∈ gs, ∀ f ∈ g, f.board ∈ boards) {b : Int}
      (unknown : b ∉ boards) {g : List Fragment} (here : g ∈ gs) :
      entriesOf Fragment.board b g = [] := by
    refine List.filter_eq_nil_iff.mpr fun f listed is => unknown ?_
    rw [← of_decide_eq_true is]
    exact only g here f listed
  refine List.forall₂_iff_get.mpr ⟨count, fun k inside inside' => ?_⟩
  apply perm_of_entriesOf Fragment.board
  intro b
  by_cases member : b ∈ boards
  · obtain ⟨f, own, place⟩ := ledger.kth_fragment rounds (List.getElem?_eq_getElem inside) member
    obtain ⟨f', own', place'⟩ :=
      ledger'.kth_fragment rounds' (List.getElem?_eq_getElem inside') member
    rw [perBoard b] at place
    obtain rfl : f = f' := Option.some.inj (place.symm.trans place')
    exact own.trans own'.symm
  · have none := foreign ledger.groups_boards member (List.get_mem groups ⟨k, inside⟩)
    have none' := foreign ledger'.groups_boards member (List.get_mem groups' ⟨k, inside'⟩)
    exact none.trans none'.symm

/-- No board completes its spill `k + 1` before every board has completed spill `k`, among
    the completions that belong to events. -/
def CompletesInStep (boards : List Int) (log : List Fragment) : Prop :=
  LockStep boards ((eventGroups boards log).flatten.map Fragment.board)

/-- Every event has one fragment of each board iff the boards complete in step. Then event
    `k` consists of the `k`-th fragments, and any other run in step with the same containers
    per board writes the same events, up to the order inside an event. -/
theorem coherent_iff_completesInStep (some : 1 ≤ boards.dedup.length) (cleared : StartsCleared mem)
    (writes : WriteErrorsReported arrivals)
    (ran : run (BMDEventBuilder.okStep dw) ((BMDEventBuilder.new id).init boards mem) arrivals =
      .some eb) :
    let log := completions dw mem (containers arrivals)
    List.Forall₂ (fun e g => BMDMemBank.payload e = fragmentBytes g) eb.recorder_.written
      (eventGroups boards log) ∧
    ((∀ g ∈ eventGroups boards log, OneEach boards (g.map Fragment.board)) ↔
      CompletesInStep boards log) ∧
    (CompletesInStep boards log → ∀ (k : Nat) g, (eventGroups boards log)[k]? = .some g →
      (∀ f ∈ g, f.board ∈ boards) ∧ ∀ b ∈ boards, ∃ f, entriesOf Fragment.board b g = [f] ∧
        (entriesOf Fragment.board b log)[k]? = .some f) ∧
    ∀ mem' id' arrivals' eb', StartsCleared mem' → WriteErrorsReported arrivals' →
      run (BMDEventBuilder.okStep dw) ((BMDEventBuilder.new id').init boards mem') arrivals' =
        .some eb' →
      (∀ b, (containers arrivals).filter (·.boardId = b) =
        (containers arrivals').filter (·.boardId = b)) →
      CompletesInStep boards log →
      CompletesInStep boards (completions dw mem' (containers arrivals')) →
      List.Forall₂ List.Perm (eventGroups boards log)
        (eventGroups boards (completions dw mem' (containers arrivals'))) := by
  obtain ⟨groups, pending, ledger⟩ := run_ledger some cleared writes ran
  have atGroups := ledger.groups_eq
  have coherent := ledger.coherent_iff
  rw [atGroups] at coherent
  dsimp only
  refine ⟨?_, coherent, ?_, ?_⟩
  · rw [← atGroups]
    exact ledger.written
  · intro inStep k g here
    have rounds := coherent.mpr inStep
    rw [← atGroups] at rounds here
    exact ⟨ledger.groups_boards g (List.mem_of_getElem? here),
      fun b member => ledger.kth_fragment rounds here member⟩
  · intro mem' id' arrivals' eb' cleared' writes' ran' same inStep inStep'
    obtain ⟨groups', pending', ledger'⟩ := run_ledger some cleared' writes' ran'
    have coherent' := ledger'.coherent_iff
    rw [ledger'.groups_eq] at coherent'
    have events := ledger.same_events ledger' same (by rw [atGroups]; exact coherent.mpr inStep)
      (by rw [ledger'.groups_eq]; exact coherent'.mpr inStep')
    rwa [atGroups, ledger'.groups_eq] at events

open FakeData in
/-- Two boards, one spill each, in either order. -/
theorem two_boards_in_step :
    ∃ eb eb' e e', run (BMDEventBuilder.okStep fakeWord) twoBoards
        [arriving 0 (shortSpill 0 5), arriving 5 (shortSpill 5 5)] = .some eb ∧
      run (BMDEventBuilder.okStep fakeWord) twoBoards
        [arriving 5 (shortSpill 5 5), arriving 0 (shortSpill 0 5)] = .some eb' ∧
      eb.recorder_.written = [e] ∧
      e.payload = fragmentBytes [shortFragment 0 5, shortFragment 5 5] ∧
      eb'.recorder_.written = [e'] ∧
      e'.payload = fragmentBytes [shortFragment 5 5, shortFragment 0 5] ∧
      List.Forall₂ List.Perm
        (eventGroups [0, 5] (completions fakeWord zeroed
          (containers [arriving 0 (shortSpill 0 5), arriving 5 (shortSpill 5 5)])))
        (eventGroups [0, 5] (completions fakeWord zeroed
          (containers [arriving 5 (shortSpill 5 5), arriving 0 (shortSpill 0 5)]))) := by
  obtain ⟨eb, ran⟩ : ∃ eb, run (BMDEventBuilder.okStep fakeWord) twoBoards
      [arriving 0 (shortSpill 0 5), arriving 5 (shortSpill 5 5)] = .some eb :=
    Option.isSome_iff_exists.mp (by decide +kernel)
  obtain ⟨eb', ran'⟩ : ∃ eb, run (BMDEventBuilder.okStep fakeWord) twoBoards
      [arriving 5 (shortSpill 5 5), arriving 0 (shortSpill 0 5)] = .some eb :=
    Option.isSome_iff_exists.mp (by decide +kernel)
  have cleared : StartsCleared zeroed := by decide +kernel
  obtain ⟨written, coherent, -, others⟩ :=
    coherent_iff_completesInStep (by decide) cleared (by decide) ran
  obtain ⟨written', coherent', -, -⟩ := coherent_iff_completesInStep (by decide) cleared (by decide) ran'
  have same (b : Int) :
      (containers [arriving 0 (shortSpill 0 5), arriving 5 (shortSpill 5 5)]).filter
          (·.boardId = b) =
        (containers [arriving 5 (shortSpill 5 5), arriving 0 (shortSpill 0 5)]).filter
          (·.boardId = b) := by
    have first : (arriving 0 (shortSpill 0 5)).container.boardId = 0 := by decide +kernel
    have second : (arriving 5 (shortSpill 5 5)).container.boardId = 5 := by decide +kernel
    simp only [containers, List.map_cons, List.map_nil, List.filter_cons, first, second,
      List.filter_nil]
    by_cases zero : (0 : Int) = b
    · simp [← zero]
    · simp [zero]
  have events := others _ _ _ _ cleared (by decide) ran' same (coherent.mp (by decide +kernel))
    (coherent'.mp (by decide +kernel))
  have groups : eventGroups [0, 5] (completions fakeWord zeroed
      (containers [arriving 0 (shortSpill 0 5), arriving 5 (shortSpill 5 5)])) =
        [[shortFragment 0 5, shortFragment 5 5]] := by decide +kernel
  have groups' : eventGroups [0, 5] (completions fakeWord zeroed
      (containers [arriving 5 (shortSpill 5 5), arriving 0 (shortSpill 0 5)])) =
        [[shortFragment 5 5, shortFragment 0 5]] := by decide +kernel
  rw [groups] at written
  rw [groups'] at written'
  obtain ⟨e, _, payload, nothing, one⟩ := List.forall₂_cons_right_iff.mp written
  obtain ⟨e', _, payload', nothing', one'⟩ := List.forall₂_cons_right_iff.mp written'
  cases nothing
  cases nothing'
  exact ⟨eb, eb', e, e', ran, ran', one, payload, one', payload', events⟩

theorem coherentGroup_iff (dw : MDdataWordBM) (boards : List Int) (g : List (Int × List UInt8)) :
    CoherentGroup dw boards (g.map SpillLog.toFragment) ↔
      OneEach boards (g.map Prod.fst) ∧ ∀ x ∈ g, ∀ y ∈ g, spillTag dw x.2 = spillTag dw y.2 := by
  have spill (x : Int × List UInt8) : (SpillLog.toFragment x).spill = x.2 :=
    List.drop_left' (encode_length 8 _)
  have board : Fragment.board ∘ SpillLog.toFragment = Prod.fst := rfl
  simp only [CoherentGroup, List.map_map, board, List.forall_mem_map, spill]

/-- Events are coherent exactly when the spills of the incoming data are aligned. -/
theorem events_coherent_iff (some : 1 ≤ boards.dedup.length) (cleared : StartsCleared mem)
    (writes : WriteErrorsReported arrivals) (marked : ∀ c ∈ containers arrivals, WellMarked c)
    (ran : run (BMDEventBuilder.okStep dw) ((BMDEventBuilder.new id).init boards mem) arrivals =
      .some eb) :
    List.Forall₂ (fun e g => BMDMemBank.payload e = fragmentBytes g) eb.recorder_.written
      (eventGroups boards (completions dw mem (containers arrivals))) ∧
    ((∀ g ∈ eventGroups boards (completions dw mem (containers arrivals)),
        CoherentGroup dw boards g) ↔
      SpillsAligned dw boards (SpillLog.run (containers arrivals)).closed) := by
  obtain ⟨groups, pending, ledger⟩ := run_ledger some cleared writes ran
  have atGroups := ledger.groups_eq
  refine ⟨atGroups ▸ ledger.written, ?_⟩
  have coherent := ledger.coherent_iff
  have boardsKnown := ledger.groups_boards
  rw [atGroups, (ledger.accepted.spillLog marked).2, eventGroups_map] at coherent boardsKnown
  rw [(ledger.accepted.spillLog marked).2, eventGroups_map]
  generalize (SpillLog.run (containers arrivals)).closed = closed at *
  simp only [List.forall_mem_map, coherentGroup_iff]
  have inStep : (∀ g ∈ eventGroups boards closed, OneEach boards (g.map Prod.fst)) ↔
      LockStep boards ((eventGroups boards closed).flatten.map Prod.fst) := by
    have board : Fragment.board ∘ SpillLog.toFragment = Prod.fst := rfl
    simpa only [List.forall_mem_map, List.map_map, board, List.map_flatten,
      List.map_comp_map] using coherent
  have known : ∀ g ∈ eventGroups boards closed, ∀ x ∈ g, x.1 ∈ boards := fun g member x inside =>
    boardsKnown _ (List.mem_map_of_mem member) _ (List.mem_map_of_mem inside)
  constructor
  · intro all
    have once := fun g member => (all g member).1
    exact
      { inStep := inStep.mp once
        sameTag := (agree_iff (fun x => spillTag dw x.2) once known).mp fun g member =>
          (all g member).2 }
  · intro aligned
    have once := inStep.mpr aligned.inStep
    have tags := (agree_iff (fun x => spillTag dw x.2) once known).mpr aligned.sameTag
    exact fun g member => ⟨once g member, tags g member⟩

open FakeData in
theorem aligned_spills_coherent :
    ∃ eb, run (BMDEventBuilder.okStep fakeWord) twoBoards
        [arriving 0 (shortSpill 0 5), arriving 5 (shortSpill 5 5)] = .some eb ∧
      eb.recorder_.written.length = 1 ∧
      SpillsAligned fakeWord [0, 5] (SpillLog.run
        (containers [arriving 0 (shortSpill 0 5), arriving 5 (shortSpill 5 5)])).closed := by
  obtain ⟨eb, ran⟩ : ∃ eb, run (BMDEventBuilder.okStep fakeWord) twoBoards
      [arriving 0 (shortSpill 0 5), arriving 5 (shortSpill 5 5)] = .some eb :=
    Option.isSome_iff_exists.mp (by decide +kernel)
  obtain ⟨written, coherent⟩ := events_coherent_iff (by decide) (by decide +kernel) (by decide)
    (by decide +kernel) ran
  refine ⟨eb, ran, ?_, coherent.mp (by decide +kernel)⟩
  rw [written.length_eq]
  decide +kernel

open FakeData in
/-- Board 0 completes two spills before board 5 has started: the event has no fragment of
    board 5 and mixes two spill tags. -/
theorem one_board_fills_event :
    ∃ eb e f f', run (BMDEventBuilder.okStep fakeWord) twoBoards
        [arriving 0 (shortSpill 0 5), arriving 0 (shortSpill 0 6)] = .some eb ∧
      StartsCleared zeroed ∧ eb.recorder_.written = [e] ∧ e.payload = fragmentBytes [f, f'] ∧
      completions fakeWord zeroed
        (containers [arriving 0 (shortSpill 0 5), arriving 0 (shortSpill 0 6)]) = [f, f'] ∧
      f.board = 0 ∧ f'.board = 0 ∧ ¬ CoherentGroup fakeWord [0, 5] [f, f'] ∧
      spillTag fakeWord f.spill = .some 5 ∧ spillTag fakeWord f'.spill = .some 6 := by
  let f : Fragment := ⟨0, encode 8 24 ++ wordBytes (shortSpill 0 5)⟩
  let f' : Fragment := ⟨0, encode 8 24 ++ wordBytes (shortSpill 0 6)⟩
  have event : (run (BMDEventBuilder.okStep fakeWord) twoBoards
      [arriving 0 (shortSpill 0 5), arriving 0 (shortSpill 0 6)]).map
        (·.recorder_.written.map BMDMemBank.payload) = .some [fragmentBytes [f, f']] := by
    decide +kernel
  obtain ⟨eb, ran, one⟩ := Option.map_eq_some_iff.mp event
  obtain ⟨e, rest, written, bytes, nothing⟩ := List.map_eq_cons_iff.mp one
  rw [List.map_eq_nil_iff.mp nothing] at written
  exact ⟨eb, e, f, f', ran, by decide +kernel, written, bytes, by decide +kernel, rfl, rfl,
    by decide +kernel, by decide +kernel, by decide +kernel⟩

end Runs

end BMDaq
