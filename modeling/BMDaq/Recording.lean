import BMDaq.Reassembly
import BMDaq.EventFormat

/-! # Recording several streams

The containers of all boards reach the event builder interleaved. If each board sends a
well formed word stream, no call fails, and whatever the order of the containers, the
events written and the event bank hold the spills of every stream, each once and in order.
-/

namespace BMDaq

open Bytes Segments

/-- What board `b` has sent. -/
def stream (cs : List WordContainer) (b : Int) : List UInt32 :=
  (cs.filter (·.board_id_ = b)).flatMap WordContainer.data

@[simp] theorem stream_nil (b : Int) : stream [] b = [] := rfl

theorem stream_snoc_own (cs : List WordContainer) (c : WordContainer) :
    stream (cs ++ [c]) c.board_id_ = stream cs c.board_id_ ++ c.data := by
  simp [stream, List.filter_append]

theorem stream_snoc_other {c : WordContainer} {b : Int} (other : c.board_id_ ≠ b)
    (cs : List WordContainer) : stream (cs ++ [c]) b = stream cs b := by
  simp [stream, List.filter_append, other]

/-- A container of words of a configured board, with at most one spill header and one trailer. -/
structure Piece (dw : MDdataWordBM) (boards : List Int) (c : WordContainer) : Prop where
  own : c.board_id_ ∈ boards
  some : c.data ≠ []
  oneHeader : c.data.countP dw.opens ≤ 1
  oneTrailer : c.data.countP dw.closes ≤ 1

/-- A stream of spills that pass the check of the fragment builder. -/
structure ValidStream (dw : MDdataWordBM) (W : List UInt32) : Prop where
  alternates : Alternates dw.opens dw.closes false W
  sound : ∀ spill ∈ dw.spills W, Sound dw spill

theorem ValidStream.nil (dw : MDdataWordBM) : ValidStream dw [] := ⟨trivial, nofun⟩

/-- The stream is valid from the start on, and goes on where it has been left. -/
theorem ValidStream.split {dw : MDdataWordBM} {W W' : List UInt32} (valid : ValidStream dw (W ++ W')) :
    ValidStream dw W ∧ Alternates dw.opens dw.closes (dw.openSpill W).isSome W' := by
  obtain ⟨here, later⟩ := Alternates.split none [] valid.alternates
  refine ⟨⟨here, fun spill member => valid.sound spill ?_⟩, later⟩
  rw [MDdataWordBM.spills, segments_append]
  exact List.mem_append_left _ member

section Streams

variable {dw : MDdataWordBM} {boards : List Int} {mem : Memory} {cs : List WordContainer}
  {c : WordContainer} {b : Int}

/-- The containers as they leave the scanner. -/
def scannedAll (dw : MDdataWordBM) (cs : List WordContainer) : List UFEDataContainer :=
  cs.map fun c => c.raw.scanned dw

theorem scannedAll_snoc (cs : List WordContainer) (c : WordContainer) :
    scannedAll dw (cs ++ [c]) = scannedAll dw cs ++ [c.raw.scanned dw] := by
  rw [scannedAll, List.map_append]
  rfl

/-- The fragment builder of board `b` has completed the spills of its stream, and holds the
    open one. -/
structure Assembled (dw : MDdataWordBM) (mem : Memory) (cs : List WordContainer) (b : Int) : Prop where
  board : (((Bench.start mem).run dw (scannedAll dw cs)).builder b).board_id_ = b
  tidy : LocalTidy dw (((Bench.start mem).run dw (scannedAll dw cs)).builder b).mem_bank_
  local_ : Represents (((Bench.start mem).run dw (scannedAll dw cs)).builder b).mem_bank_
    ((dw.openSpill (stream cs b)).map wordBytes)
  completed : ((completions dw mem (scannedAll dw cs)).filter (·.board = b)).map Fragment.bytes =
    (dw.spills (stream cs b)).map frame

theorem Assembled.start (dw : MDdataWordBM) (mem : Memory) (b : Int) : Assembled dw mem [] b where
  board := rfl
  tidy := .empty (BMDMemBank.fresh_size _) rfl rfl
  local_ := new_represents b (mem.board b)
  completed := rfl

/-- A container of another board changes nothing. -/
theorem Assembled.other (assembled : Assembled dw mem cs b) (other : c.board_id_ ≠ b) :
    Assembled dw mem (cs ++ [c]) b := by
  have foreign : (c.raw.scanned dw).boardId ≠ b := by
    rw [RawContainer.scanned_boardId]
    exact other
  obtain ⟨builder, log⟩ := Bench.step_other dw ((Bench.start mem).run dw (scannedAll dw cs)) foreign
  obtain ⟨board, tidy, local_, completed⟩ := assembled
  refine ⟨?_, ?_, ?_, ?_⟩
  · rw [scannedAll_snoc, Bench.run_snoc, builder]
    exact board
  · rw [scannedAll_snoc, Bench.run_snoc, builder]
    exact tidy
  · rw [scannedAll_snoc, Bench.run_snoc, builder, stream_snoc_other other]
    exact local_
  · rw [scannedAll_snoc, completions, Bench.run_snoc, log, stream_snoc_other other]
    exact completed

/-- One call, seen from the spills of the stream. -/
theorem LocalStep.spills {ws W : List UInt32} {c : UFEDataContainer} {m m' : BMDBoardMemBank}
    {f? : Option BMDBoardMemBank} (step : LocalStep c m m' f?) (made : OfWords dw c ws)
    (rep : Represents m ((dw.openSpill W).map wordBytes)) :
    ∃ spill? : Option (List UInt32), dw.spills (W ++ ws) = dw.spills W ++ spill?.toList ∧
      Represents m' ((dw.openSpill (W ++ ws)).map wordBytes) ∧
      f?.map BMDMemBank.payload = spill?.map wordBytes := by
  obtain ⟨next, spill?, fed, rep', bytes⟩ := step.feeds made rep
  have running : dw.openSpill (W ++ ws) = next := by
    rw [MDdataWordBM.openSpill, remainder_append]
    exact congrArg Cut.running fed
  refine ⟨spill?, ?_, by rwa [running], bytes⟩
  rw [MDdataWordBM.spills, segments_append]
  exact congrArg (_ ++ Cut.closed ·) fed

/-- The fragment that carries a spill. -/
theorem handedOver_frame {f? : Option BMDBoardMemBank} {spill? : Option (List UInt32)} (b : Int)
    (sized : ∀ f ∈ f?, f.SizeRight) (bytes : f?.map BMDMemBank.payload = spill?.map wordBytes) :
    (Bench.handedOver b f?).map Fragment.bytes = spill?.toList.map frame := by
  cases f? with
  | none =>
      rw [Option.map_none] at bytes
      rw [Option.map_eq_none_iff.mp bytes.symm]
      rfl
  | some f =>
      obtain ⟨spill, rfl, payload⟩ := Option.map_eq_some_iff.mp bytes.symm
      simp [Bench.handedOver, BMDMemBank.fragment_buf (sized f rfl), ← payload, wordBytes_length,
        frame]

/-- The next container of a board is accepted, on whatever event bank. -/
theorem Assembled.accepts (assembled : Assembled dw mem cs c.board_id_) (piece : Piece dw boards c)
    (valid : ValidStream dw (stream cs c.board_id_ ++ c.data)) (out : BMDEventMemBank) :
    ∃ s, DataFragmentBuilder.process dw (c.raw.scanned dw)
      ⟨((Bench.start mem).run dw (scannedAll dw cs)).builder c.board_id_, out⟩ = .done s := by
  obtain ⟨board, tidy, local_, -⟩ := assembled
  have made := c.ofWords dw
  have own : (c.raw.scanned dw).boardId =
      (((Bench.start mem).run dw (scannedAll dw cs)).builder c.board_id_).board_id_ :=
    c.raw.scanned_boardId.trans board.symm
  have admissible := Admissible.of_alternates own tidy local_ made valid.split.2 piece.oneHeader
    piece.oneTrailer
  obtain ⟨m', f?, step⟩ := admissible.step tidy made.scanned
  obtain ⟨spill?, spills, -, bytes⟩ := step.spills made local_
  have accepted : ∀ f ∈ f?, Accepted dw f := by
    intro f is
    rw [Option.mem_def.mp is, Option.map_some] at bytes
    obtain ⟨spill, rfl, payload⟩ := Option.map_eq_some_iff.mp bytes.symm
    have sound := valid.sound spill (by simp [spills])
    exact sound.passes f ((step.tidy tidy made.scanned).2 f is) payload.symm
  exact ⟨_, DataFragmentBuilder.process_of_localStep own tidy.noTrailers step accepted⟩

/-- What it leaves behind. -/
theorem Assembled.own (assembled : Assembled dw mem cs c.board_id_) {out : BMDEventMemBank}
    {s : FragmentState} (called : DataFragmentBuilder.process dw (c.raw.scanned dw)
      ⟨((Bench.start mem).run dw (scannedAll dw cs)).builder c.board_id_, out⟩ = .done s) :
    Assembled dw mem (cs ++ [c]) c.board_id_ := by
  obtain ⟨board, tidy, local_, completed⟩ := assembled
  have made := c.ofWords dw
  have boardId : (c.raw.scanned dw).boardId = c.board_id_ := c.raw.scanned_boardId
  have same := (DataFragmentBuilder.process_done called).1
  rw [← boardId] at called
  obtain ⟨f?, step, -, -, stepped⟩ := Bench.step_done called
  rw [boardId] at step stepped
  obtain ⟨spill?, spills, rep', bytes⟩ := step.spills made local_
  obtain ⟨tidy', complete⟩ := step.tidy tidy made.scanned
  have after : (((Bench.start mem).run dw (scannedAll dw (cs ++ [c]))).builder c.board_id_) =
      s.builder := by
    rw [scannedAll_snoc, Bench.run_snoc, stepped]
    exact Function.update_self ..
  refine ⟨?_, ?_, ?_, ?_⟩
  · obtain ⟨-, -, m', f?, -, -, rfl⟩ := DataFragmentBuilder.process_done called
    rw [after, boardId]
    exact board
  · rw [after]
    exact tidy'
  · rw [after, stream_snoc_own]
    exact rep'
  · have handed := handedOver_frame c.board_id_ (fun f is => (complete f is).sized) bytes
    have ours : (Bench.handedOver c.board_id_ f?).filter (·.board = c.board_id_) =
        Bench.handedOver c.board_id_ f? := by
      cases f? with
      | none => rfl
      | some f => simp [Bench.handedOver]
    rw [completions] at completed ⊢
    rw [scannedAll_snoc, Bench.run_snoc, stepped, stream_snoc_own, spills, List.filter_append,
      List.map_append, List.map_append, ours, completed, handed]

/-- Every board, after a container of one of them. -/
theorem assembled_snoc (assembled : ∀ b, Assembled dw mem cs b) {out : BMDEventMemBank}
    {s : FragmentState} (called : DataFragmentBuilder.process dw (c.raw.scanned dw)
      ⟨((Bench.start mem).run dw (scannedAll dw cs)).builder c.board_id_, out⟩ = .done s) (b : Int) :
    Assembled dw mem (cs ++ [c]) b := by
  by_cases own : c.board_id_ = b
  · subst own
    exact (assembled _).own called
  · exact (assembled b).other own

end Streams

/-! ## A sample -/

namespace FakeData

/-- The spills of boards 0 and 5 interleaved, one cut in two, the last one left open. -/
def interleaved : List WordContainer :=
  [⟨[filler, spillHeader 0 1], 0, by decide⟩, ⟨shortSpill 5 1, 5, by decide⟩,
    ⟨spillTrailer 0 1, 0, by decide⟩, ⟨[spillHeader 5 2], 5, by decide⟩]

theorem interleaved_pieces : ∀ c ∈ interleaved, Piece fakeWord [0, 5] c := by
  have pieces : ∀ c ∈ interleaved, c.board_id_ ∈ [(0 : Int), 5] ∧ c.data ≠ [] ∧
      c.data.countP fakeWord.opens ≤ 1 ∧ c.data.countP fakeWord.closes ≤ 1 := by decide +kernel
  intro c member
  obtain ⟨own, some, oneHeader, oneTrailer⟩ := pieces c member
  exact ⟨own, some, oneHeader, oneTrailer⟩

theorem interleaved_spills : ∀ b ∈ [(0 : Int), 5],
    fakeWord.spills (stream interleaved b) = [shortSpill b.toNat 1] := by decide +kernel

theorem interleaved_valid : ∀ b ∈ [(0 : Int), 5], ValidStream fakeWord (stream interleaved b) := by
  have alternates : ∀ b ∈ [(0 : Int), 5],
      Alternates fakeWord.opens fakeWord.closes false (stream interleaved b) := by decide +kernel
  refine fun b member => ⟨alternates b member, ?_⟩
  rw [interleaved_spills b member]
  simp only [List.mem_cons, List.not_mem_nil, or_false] at member
  cases member with
  | inl zero =>
      subst zero
      simp only [List.mem_singleton, forall_eq]
      exact ⟨by decide, spillHeader 0 1, 0x60000001, rfl, rfl, by decide +kernel, by decide +kernel⟩
  | inr five =>
      subst five
      simp only [List.mem_singleton, forall_eq]
      exact ⟨by decide, spillHeader 5 1, 0x60a00001, rfl, rfl, by decide +kernel, by decide +kernel⟩

/-- They arrive while the recorder works. -/
def interleavedArrivals : List Arrival := (scannedAll fakeWord interleaved).map (⟨·, quiet⟩)

theorem interleaved_arrive : containers interleavedArrivals = scannedAll fakeWord interleaved := by
  rw [containers, interleavedArrivals, List.map_map]
  exact List.map_id _

theorem interleaved_works : ∀ a ∈ interleavedArrivals, a.env.write = none := by
  intro a member
  obtain ⟨d, -, rfl⟩ := List.mem_map.mp member
  rfl

end FakeData

/-! ## The event builder -/

section EventBuilder

variable {dw : MDdataWordBM} {boards : List Int} {mem : Memory} {id : Nat}
  {cs : List WordContainer} {c : WordContainer} {eb eb' : BMDEventBuilder}

/-- While the recorder works, the event builder accepts what the fragment builder does. -/
theorem BMDEventBuilder.okStep_of_done {d : UFEDataContainer} {builder : DataFragmentBuilder}
    {bank : BMDEventMemBank} {s : FragmentState} {env : Environment}
    (found : eb.board_event_builders_.lookup d.boardId = some (some builder))
    (ready : eb.spill_mem_bank_ = some bank)
    (called : DataFragmentBuilder.process dw d ⟨builder, bank⟩ = .done s) (works : env.write = none) :
    ∃ eb', okStep dw eb ⟨d, env⟩ = some eb' := by
  simp only [okStep, process_known found ready, called]
  split_ifs with complete
  · simp only [writeEvent, works, recycle]
    exact ⟨_, rfl⟩
  · exact ⟨_, rfl⟩

/-- The event builder after containers of valid streams. -/
structure Recorded (dw : MDdataWordBM) (boards : List Int) (mem : Memory) (id : Nat)
    (cs : List WordContainer) (eb : BMDEventBuilder) : Prop where
  assembled : ∀ b, Assembled dw mem cs b
  ledger : ∃ groups pending, Ledger dw boards mem id (scannedAll dw cs) eb groups pending

theorem Recorded.start (some : 1 ≤ boards.dedup.length) (cleared : StartsCleared mem) :
    Recorded dw boards mem id [] ((BMDEventBuilder.new id).init boards mem) :=
  ⟨Assembled.start dw mem, [], [], .start some cleared⟩

/-- One more container of a valid stream. -/
theorem Recorded.next (recorded : Recorded dw boards mem id cs eb) (piece : Piece dw boards c)
    (valid : ValidStream dw (stream (cs ++ [c]) c.board_id_)) {env : Environment}
    (works : env.write = none) :
    ∃ eb', BMDEventBuilder.okStep dw eb ⟨c.raw.scanned dw, env⟩ = some eb' ∧
      Recorded dw boards mem id (cs ++ [c]) eb' := by
  obtain ⟨assembled, groups, pending, ledger⟩ := recorded
  have boardId : (c.raw.scanned dw).boardId = c.board_id_ := c.raw.scanned_boardId
  rw [stream_snoc_own] at valid
  obtain ⟨bank, ready, -⟩ := ledger.bank
  have found := ledger.ready c.board_id_ piece.own
  obtain ⟨s, called⟩ := (assembled c.board_id_).accepts piece valid bank
  have later := assembled_snoc assembled called
  rw [← boardId] at found called
  obtain ⟨eb', ok⟩ := BMDEventBuilder.okStep_of_done found ready called works
  have reported : ∀ e ∈ env.write, e.severity ≠ .other := by
    rw [works]
    exact nofun
  have advanced := BMDEventBuilder.okStep_advanced reported ok
  refine ⟨eb', ok, later, ?_⟩
  rw [scannedAll_snoc]
  exact ledger.next advanced

variable (id) in
/-- The streams up to the last container. -/
theorem recorded_run (some : 1 ≤ boards.dedup.length) (cleared : StartsCleared mem)
    (pieces : ∀ c ∈ cs, Piece dw boards c) (valid : ∀ b ∈ boards, ValidStream dw (stream cs b))
    {arrivals : List Arrival} (arrive : containers arrivals = scannedAll dw cs)
    (works : ∀ a ∈ arrivals, a.env.write = none) :
    ∃ eb, run (BMDEventBuilder.okStep dw) ((BMDEventBuilder.new id).init boards mem) arrivals =
      .some eb ∧ Recorded dw boards mem id cs eb := by
  induction cs using List.reverseRecOn generalizing arrivals with
  | nil =>
      obtain rfl := List.map_eq_nil_iff.mp arrive
      exact ⟨_, rfl, .start some cleared⟩
  | append_singleton cs c ih =>
      rw [scannedAll_snoc] at arrive
      obtain ⟨before, last, rfl, early, late⟩ := List.map_eq_append_iff.mp arrive
      obtain ⟨a, rfl, container⟩ := List.map_eq_singleton_iff.mp late
      have piece := pieces c (by simp)
      have earlier (b : Int) (member : b ∈ boards) : ValidStream dw (stream cs b) := by
        by_cases own : c.board_id_ = b
        · subst own
          have whole := valid c.board_id_ member
          rw [stream_snoc_own] at whole
          exact whole.split.1
        · have same := valid b member
          rwa [stream_snoc_other own] at same
      obtain ⟨eb, ran, recorded⟩ := ih (fun c' member => pieces c' (List.mem_append_left _ member))
        earlier early fun a' member => works a' (List.mem_append_left _ member)
      obtain ⟨eb', stepped, recorded'⟩ := recorded.next piece
        (valid c.board_id_ piece.own) (works a (by simp))
      refine ⟨eb', ?_, recorded'⟩
      rw [run_snoc, ran, Option.bind_some, ← stepped, ← container]

/-- The events written and the event bank hold the spills of the streams, board by board. -/
structure Saved (dw : MDdataWordBM) (boards : List Int) (cs : List WordContainer) (eb : BMDEventBuilder)
    (groups : List (List Fragment)) (pending : List Fragment) : Prop where
  written : List.Forall₂ (fun e g => BMDMemBank.payload e = fragmentBytes g) eb.recorder_.written groups
  full : ∀ g ∈ groups, g.length = boards.dedup.length
  bank : ∃ bank, eb.spill_mem_bank_ = some bank ∧ bank.payload = fragmentBytes pending
  waiting : pending.length < boards.dedup.length
  known : ∀ f ∈ groups.flatten ++ pending, f.board ∈ boards
  spills : ∀ b ∈ boards, ((groups.flatten ++ pending).filter (·.board = b)).map Fragment.bytes =
    (dw.spills (stream cs b)).map frame
  openSpill : ∀ b ∈ boards, ∃ builder, eb.board_event_builders_.lookup b = some (some builder) ∧
    builder.mem_bank_.payload = ((dw.openSpill (stream cs b)).map wordBytes).getD []

theorem Recorded.saved (recorded : Recorded dw boards mem id cs eb)
    (few : boards.dedup.length ≤ 65535) : ∃ groups pending, Saved dw boards cs eb groups pending := by
  obtain ⟨assembled, groups, pending, ledger⟩ := recorded
  obtain ⟨bank, atBank, bytes, -, -⟩ := ledger.bank
  exact ⟨groups, pending,
    { written := ledger.written
      full := ledger.full
      bank := ⟨bank, atBank, bytes⟩
      waiting := ledger.waiting (by omega)
      known := by
        intro f logged
        rw [ledger.logged] at logged
        obtain ⟨c, arrived, board⟩ := Bench.run_start_boards dw mem _ f logged
        exact board ▸ ledger.configured c arrived
      spills := by
        intro b member
        rw [ledger.logged]
        exact (assembled b).completed
      openSpill := fun b member => ⟨_, ledger.ready b member, (assembled b).local_.payload⟩ }⟩

/-- Whatever the order in which the containers of the boards arrive, no call fails, and for
    every board the events written and the event bank hold exactly the spills of its stream,
    in order; its fragment builder holds the spill that the stream leaves open. -/
theorem streams_recorded (some : 1 ≤ boards.dedup.length) (few : boards.dedup.length ≤ 65535)
    (cleared : StartsCleared mem) (pieces : ∀ c ∈ cs, Piece dw boards c)
    (valid : ∀ b ∈ boards, ValidStream dw (stream cs b)) {arrivals : List Arrival}
    (arrive : containers arrivals = scannedAll dw cs) (works : ∀ a ∈ arrivals, a.env.write = none) :
    ∃ eb groups pending,
      run (BMDEventBuilder.okStep dw) ((BMDEventBuilder.new id).init boards mem) arrivals =
        .some eb ∧ Saved dw boards cs eb groups pending := by
  obtain ⟨eb, ran, recorded⟩ := recorded_run id some cleared pieces valid arrive works
  obtain ⟨groups, pending, saved⟩ := recorded.saved few
  exact ⟨eb, groups, pending, ran, saved⟩

open FakeData in
theorem streams_recorded_interleaved : ∃ eb groups pending,
    run (BMDEventBuilder.okStep fakeWord) twoBoards interleavedArrivals = some eb ∧
    Saved fakeWord [0, 5] interleaved eb groups pending :=
  streams_recorded (by decide) (by decide) (by decide +kernel) interleaved_pieces interleaved_valid
    interleaved_arrive interleaved_works

end EventBuilder

/-! ## Reading a recording -/

open HeaderType (layout)

/-- Read one event: its header counts the fragments behind it. -/
def readEvent (buf : List UInt8) : Option (List (List UInt8)) :=
  Frames.blocksFrom 8 buf ((layout BMDEventHeader.size_).get buf)
    ((layout BMDEventHeader.n_fragments_).get buf) (sizeofHeader BMDEventHeader)

/-- Read events that lie one behind the other. -/
def readEvents (buf : List UInt8) : Option (List (List (List UInt8))) :=
  (Frames.splitBlocks 8 buf).bind fun events => events.mapM readEvent

/-- The words of a fragment behind its header. -/
def spillOf (block : List UInt8) : List UInt32 := words (block.drop 8)

theorem spillOf_frame (spill : List UInt32) : spillOf (frame spill) = spill := by
  rw [spillOf, frame, List.drop_left' (encode_length 8 _), words_wordBytes]

/-- The board that the header word of a spill names. -/
def Names (dw : MDdataWordBM) (b : Int) (spill : List UInt32) : Prop :=
  ∃ h ∈ spill.head?, (dw.GetBoardId h : Int) = b

instance (dw : MDdataWordBM) (b : Int) (spill : List UInt32) : Decidable (Names dw b spill) :=
  inferInstanceAs (Decidable (∃ h ∈ spill.head?, _))

section ReadBack

variable {dw : MDdataWordBM} {boards : List Int} {mem : Memory} {id : Nat}
  {cs : List WordContainer} {eb : BMDEventBuilder} {groups : List (List Fragment)}
  {pending : List Fragment}

/-- The length in front of a written event is right, so that it can be told from the next. -/
theorem Ledger.read_back {ds : List UFEDataContainer} (ledger : Ledger dw boards mem id ds eb groups pending)
    {e : BMDEventMemBank} {g : List Fragment} (written : e ∈ eb.recorder_.written) (group : g ∈ groups)
    (payload : e.payload = fragmentBytes g) (fits : e.size < sizeT) :
    Frames.Framed 8 e.buf ∧ readEvent e.buf = some (g.map Fragment.bytes) := by
  obtain ⟨size, read⟩ := ledger.read written group payload fits
  exact ⟨⟨(by decide : 8 ≤ 24).trans e.hasHeader, size⟩, read⟩

/-- All written events, one behind the other. -/
theorem Ledger.file {ds : List UFEDataContainer} (ledger : Ledger dw boards mem id ds eb groups pending)
    (fits : ∀ e ∈ eb.recorder_.written, e.size < sizeT) :
    readEvents (eb.recorder_.written.flatMap (·.buf)) =
      some (groups.map (List.map Fragment.bytes)) := by
  have both : List.Forall₂ (fun e g => Frames.Framed 8 e.buf ∧
      readEvent e.buf = some (g.map Fragment.bytes)) eb.recorder_.written groups := by
    refine ledger.paired.imp fun e g each => ?_
    obtain ⟨written, group, payload⟩ := each
    exact ledger.read_back written group payload (fits e written)
  have framed : ∀ buf ∈ eb.recorder_.written.map (·.buf), Frames.Framed 8 buf := by
    intro buf member
    obtain ⟨e, written, rfl⟩ := List.mem_map.mp member
    obtain ⟨k, early, rfl⟩ := List.getElem_of_mem written
    exact (both.get early (both.length_eq ▸ early)).1
  rw [readEvents, List.flatMap_def, Frames.splitBlocks_flatten (by decide) framed, Option.bind_some]
  clear fits framed ledger
  generalize eb.recorder_.written = events at both
  induction both with
  | nil => rfl
  | cons first rest ih =>
      rw [List.map_cons, List.mapM_cons, first.2, ih]
      rfl

/-- Where the header words name their boards, the fragments of a board are found by them. -/
theorem named_spills (assembled : ∀ b, Assembled dw mem cs b)
    (known : ∀ f ∈ completions dw mem (scannedAll dw cs), f.board ∈ boards)
    (named : ∀ b ∈ boards, ∀ spill ∈ dw.spills (stream cs b), Names dw b spill) (b : Int) :
    ((completions dw mem (scannedAll dw cs)).map fun f => spillOf f.bytes).filter
      (fun spill => Names dw b spill) = dw.spills (stream cs b) := by
  have own : ∀ f ∈ completions dw mem (scannedAll dw cs),
      decide (Names dw b (spillOf f.bytes)) = decide (f.board = b) := by
    intro f logged
    have ours : f.bytes ∈ (dw.spills (stream cs f.board)).map frame := by
      rw [← (assembled f.board).completed]
      exact List.mem_map_of_mem (List.mem_filter.mpr ⟨logged, decide_eq_true rfl⟩)
    obtain ⟨spill, member, framed⟩ := List.mem_map.mp ours
    obtain ⟨h, first, board⟩ := named f.board (known f logged) spill member
    rw [← framed, spillOf_frame, decide_eq_decide]
    constructor
    · rintro ⟨h', first', board'⟩
      obtain rfl := Option.mem_unique first first'
      exact board.symm.trans board'
    · rintro rfl
      exact ⟨h, first, board⟩
  have spills := congrArg (List.map spillOf) (assembled b).completed
  have undone : spillOf ∘ frame = id := funext spillOf_frame
  rw [List.map_map, List.map_map, undone, List.map_id] at spills
  rw [List.filter_map]
  exact (congrArg (List.map _) (List.filter_congr own)).trans spills

/-- Reading a recording: the events that have been written can be told apart by their lengths,
    each is read back as so many fragments as there are boards, and the spills found in them
    and in the event bank are, board by board, those of the streams. -/
theorem recording_read_back (some : 1 ≤ boards.dedup.length) (few : boards.dedup.length ≤ 65535)
    (cleared : StartsCleared mem) (pieces : ∀ c ∈ cs, Piece dw boards c)
    (valid : ∀ b ∈ boards, ValidStream dw (stream cs b))
    (named : ∀ b ∈ boards, ∀ spill ∈ dw.spills (stream cs b), Names dw b spill)
    {arrivals : List Arrival} (arrive : containers arrivals = scannedAll dw cs)
    (works : ∀ a ∈ arrivals, a.env.write = none)
    (ran : run (BMDEventBuilder.okStep dw) ((BMDEventBuilder.new id).init boards mem) arrivals =
      .some eb)
    (fits : ∀ e ∈ eb.recorder_.written, e.size < sizeT) :
    ∃ events waiting bank, readEvents (eb.recorder_.written.flatMap (·.buf)) = .some events ∧
      (∀ event ∈ events, event.length = boards.dedup.length) ∧
      eb.spill_mem_bank_ = .some bank ∧ bank.payload = waiting.flatten ∧
      waiting.length < boards.dedup.length ∧
      ∀ b ∈ boards, ((events.flatten ++ waiting).map spillOf).filter (fun spill => Names dw b spill) =
        dw.spills (stream cs b) := by
  obtain ⟨eb', ran', assembled, groups, pending, ledger⟩ :=
    recorded_run id some cleared pieces valid arrive works
  obtain rfl := Option.some.inj (ran.symm.trans ran')
  obtain ⟨bank, atBank, bytes, -, -⟩ := ledger.bank
  have known : ∀ f ∈ completions dw mem (scannedAll dw cs), f.board ∈ boards := by
    intro f logged
    obtain ⟨c, arrived, board⟩ := Bench.run_start_boards dw mem _ f logged
    exact board ▸ ledger.configured c arrived
  refine ⟨groups.map (List.map Fragment.bytes), pending.map Fragment.bytes, bank, ledger.file fits,
    ?_, atBank, by rw [bytes, fragmentBytes, List.flatMap_def], ?_, fun b member => ?_⟩
  · intro event member
    obtain ⟨g, group, rfl⟩ := List.mem_map.mp member
    rw [List.length_map, ledger.full g group]
  · rw [List.length_map]
    exact ledger.waiting (by omega)
  · have whole : ((groups.map (List.map Fragment.bytes)).flatten ++ pending.map Fragment.bytes) =
        (completions dw mem (scannedAll dw cs)).map Fragment.bytes := by
      rw [← ledger.logged, List.map_append, List.map_flatten]
    rw [whole, List.map_map]
    exact named_spills assembled known named b

open FakeData in
theorem recording_read_back_interleaved : ∃ eb : BMDEventBuilder,
    run (BMDEventBuilder.okStep fakeWord) twoBoards interleavedArrivals = some eb ∧
    ∃ events waiting bank, readEvents (eb.recorder_.written.flatMap (·.buf)) = some events ∧
      (∀ event ∈ events, event.length = 2) ∧
      eb.spill_mem_bank_ = some bank ∧ bank.payload = waiting.flatten ∧ waiting.length < 2 ∧
      ∀ b ∈ [(0 : Int), 5],
        ((events.flatten ++ waiting).map spillOf).filter (fun spill => Names fakeWord b spill) =
          fakeWord.spills (stream interleaved b) := by
  have returns : (run (BMDEventBuilder.okStep fakeWord) twoBoards interleavedArrivals).isSome = true := by
    decide +kernel
  obtain ⟨eb, ran⟩ := Option.isSome_iff_exists.mp returns
  have named : ∀ b ∈ [(0 : Int), 5], ∀ spill ∈ fakeWord.spills (stream interleaved b),
      Names fakeWord b spill := by decide +kernel
  have small : ∀ eb ∈ run (BMDEventBuilder.okStep fakeWord) twoBoards interleavedArrivals,
      ∀ e ∈ eb.recorder_.written, e.size < sizeT := by decide +kernel
  exact ⟨eb, ran, recording_read_back (by decide) (by decide) (by decide +kernel) interleaved_pieces
    interleaved_valid named interleaved_arrive interleaved_works ran (small eb ran)⟩

end ReadBack

end BMDaq
