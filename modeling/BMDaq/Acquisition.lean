import BMDaq.Progress
import BMDaq.Recording
import BMDaq.Recovery

/-! # Acquisition

From the command that turns the system on to the recorded spills: entering Standby forms the
ring of workers and an event builder for the boards of all devices. While the boards send
well formed streams and the recorder works, no worker meets an error in any interleaving, and
when the readout stops, the other workers come to rest with every spill recorded. The same holds
of a session that follows a failure.
-/

namespace BMDaq

open Bytes Segments Places

/-- The recorder works in this turn. -/
def Act.Works : Act → Prop
  | .build _ env => env.write = none
  | _ => True

/-- What is read in a run are containers of well formed streams, and the recorder works. -/
structure Acquires (dw : MDdataWordBM) (boards : List Int) (cs : List WordContainer)
    (acts : List Act) : Prop where
  read : readings acts = cs.map WordContainer.raw
  pieces : ∀ c ∈ cs, Piece dw boards c
  valid : ∀ b ∈ boards, ValidStream dw (stream cs b)
  works : ∀ a ∈ acts, a.Works

/-- No call that a worker could make now fails. -/
structure Pipeline.Smooth (dw : MDdataWordBM) (staff : Staff) (p : Pipeline) : Prop where
  scans : ∀ w output_, p.held staff .BMDDataScannerWorker w = some output_ →
    (BMDDataScanner.process dw p.scanner output_).1 = .OK_s
  builds : ∀ w output_ env, p.held staff .BMDEventBuilderWorker w = some output_ → env.write = none →
    ∃ builder output_', BMDEventBuilder.process dw env output_ p.builder =
      .ok ⟨.OK_s, builder, output_'⟩

/-- A turn that neither reads nor meets a failing recorder. -/
def Act.Calm (a : Act) : Prop := a.isRead = false ∧ a.Works

/-- No worker meets an error, and when the readout stops, the others come to rest within five
    turns for each container, with every spill that has been read recorded. -/
structure Pipeline.Records (dw : MDdataWordBM) (getData : GetData) (staff : Staff) (boards : List Int)
    (cs : List WordContainer) (p : Pipeline) : Prop where
  smooth : p.Smooth dw staff
  settles : ∃ more p', (∀ a ∈ more, a.Calm) ∧
    run (Pipeline.step dw getData staff) p more = some p' ∧ Resting dw getData staff p'
  short : ∀ more p', (∀ a ∈ more, a.Calm) → run (Pipeline.step dw getData staff) p more = some p' →
    more.length ≤ 5 * BMDStandby.maxSize
  records : ∀ more p', (∀ a ∈ more, a.Calm) →
    run (Pipeline.step dw getData staff) p more = some p' → Resting dw getData staff p' →
    ∃ groups pending, Saved dw boards cs p'.builder groups pending

section Streams

variable {dw : MDdataWordBM} {boards : List Int} {cs : List WordContainer} {acts more : List Act}

theorem stream_append (cs cs' : List WordContainer) (b : Int) :
    stream (cs ++ cs') b = stream cs b ++ stream cs' b := by
  simp [stream, List.filter_append]

/-- What has come first of valid streams is valid. -/
theorem ValidStream.before {cs cs' : List WordContainer} {b : Int}
    (valid : ValidStream dw (stream (cs ++ cs') b)) : ValidStream dw (stream cs b) := by
  rw [stream_append] at valid
  exact valid.split.1

theorem environments_works (works : ∀ a ∈ acts, a.Works) {env : Environment}
    (member : env ∈ environments acts) : env.write = none := by
  obtain ⟨a, inside, met⟩ := List.mem_filterMap.mp member
  cases a with
  | build w env' =>
      obtain rfl := Option.some.inj met
      exact works _ inside
  | take w | read w reading | scan w => cases met

/-- Containers and environments, put together and taken apart. -/
theorem zipped_arrivals (dw : MDdataWordBM) {cs : List RawContainer} {envs : List Environment}
    (matched : cs.length = envs.length) :
    containers (List.zipWith (fun c env => ⟨RawContainer.scanned dw c, env⟩) cs envs) =
        cs.map (RawContainer.scanned dw) ∧
      (List.zipWith (fun c env => Arrival.mk (RawContainer.scanned dw c) env) cs envs).map
        Arrival.env = envs := by
  induction cs generalizing envs with
  | nil => exact ⟨rfl, (List.length_eq_zero_iff.mp matched.symm).symm⟩
  | cons c cs ih =>
      cases envs with
      | nil => cases matched
      | cons env envs =>
          obtain ⟨first, second⟩ := ih (Nat.succ.inj matched)
          exact ⟨congrArg (c.scanned dw :: ·) first, congrArg (env :: ·) second⟩

/-- Turns without readings read the same. -/
theorem Acquires.append (acquires : Acquires dw boards cs acts) (calm : ∀ a ∈ more, a.Calm) :
    Acquires dw boards cs (acts ++ more) where
  read := by
    rw [readings_append, readings_eq_nil fun a member => (calm a member).1, List.append_nil]
    exact acquires.read
  pieces := acquires.pieces
  valid := acquires.valid
  works := by
    intro a member
    cases List.mem_append.mp member with
    | inl early => exact acquires.works a early
    | inr late => exact (calm a late).2

end Streams

section Ring

variable {dw : MDdataWordBM} {getData : GetData} {staff : Staff} {s e : Nat}
  {readouts : List Worker} {scanner : BMDDataScanner} {boards : List Int} {mem : Memory}
  {id : Nat} {cs before done todo : List WordContainer} {acts more : List Act} {p p' : Pipeline}

/-- The containers of the streams: the event builder has recorded the first, the next are
    scanned, and the last are still to be scanned. -/
structure OnTheWay (dw : MDdataWordBM) (boards : List Int) (mem : Memory) (id s e : Nat) (p : Pipeline)
    (before done todo : List WordContainer) : Prop where
  recorded : Recorded dw boards mem id before p.builder
  marked : (tokens (scannedPlaces s e) p.store).map p.heap =
    (done.map WordContainer.raw).map (RawContainer.scanned dw)
  unmarked : (tokens (rawPlaces s) p.store).map p.heap =
    (todo.map WordContainer.raw).map RawContainer.toContainer
  pieces : ∀ c ∈ before ++ (done ++ todo), Piece dw boards c
  valid : ∀ b ∈ boards, ValidStream dw (stream (before ++ (done ++ todo)) b)

/-- The containers of a run are there, whatever the interleaving. -/
theorem Staff.Ring.onTheWay (ring : staff.Ring s e readouts) (fills : FillsBlank getData)
    (some : 1 ≤ boards.dedup.length) (cleared : StartsCleared mem)
    (acquires : Acquires dw boards cs acts)
    (ran : run (Pipeline.step dw getData staff)
      (.supplied (.outFifo e) scanner ((BMDEventBuilder.new id).init boards mem)) acts = .some p) :
    ∃ before done todo, cs = before ++ (done ++ todo) ∧ OnTheWay dw boards mem id s e p before done todo := by
  obtain ⟨belt, onBelt, carries⟩ := ring.simulates fills ran
  obtain ⟨delivered, read, delivers⟩ := belt_delivered onBelt
  obtain ⟨done', todo', waiting, marked, unmarked⟩ := carries.waiting
  rw [acquires.read, waiting] at read
  obtain ⟨before, rest, rfl, rfl, later⟩ := List.map_eq_append_iff.mp read
  obtain ⟨done, todo, rfl, rfl, rfl⟩ := List.map_eq_append_iff.mp later
  refine ⟨before, done, todo, rfl, ?_, marked, unmarked, acquires.pieces, acquires.valid⟩
  have arrive : containers (List.zipWith (fun c env => ⟨RawContainer.scanned dw c, env⟩)
      (before.map WordContainer.raw) (environments acts)) = scannedAll dw before := by
    rw [(zipped_arrivals dw delivers.matched).1, scannedAll, List.map_map]
    rfl
  have works : ∀ a ∈ List.zipWith (fun c env => Arrival.mk (RawContainer.scanned dw c) env)
      (before.map WordContainer.raw) (environments acts), a.env.write = none := by
    intro a member
    have env := List.mem_map_of_mem (f := Arrival.env) member
    rw [(zipped_arrivals dw delivers.matched).2] at env
    exact environments_works acquires.works env
  obtain ⟨eb, ran', recorded⟩ := recorded_run id some cleared
    (fun c member => acquires.pieces c (List.mem_append_left _ member))
    (fun b member => (acquires.valid b member).before) arrive works
  have same := delivers.ran.symm.trans ran'
  rw [← carries.builder, Option.some.injEq] at same
  exact same ▸ recorded

/-- What the scanner has in its hands is the first of the containers to be scanned. -/
theorem OnTheWay.scanning (onTheWay : OnTheWay dw boards mem id s e p before done todo)
    (ring : staff.Ring s e readouts) {w : Worker} {output_ : UFEDataContainer}
    (held : p.held staff .BMDDataScannerWorker w = some output_) :
    ∃ c ∈ todo, output_ = c.raw.toContainer := by
  obtain ⟨hired, kind, pointer, rest, holds, rfl⟩ := Pipeline.held_eq_some held
  obtain rfl | rfl | filling := ring.worker hired
  · have first := onTheWay.unmarked
    rw [rawPlaces, tokens_cons, holds, List.cons_append, List.map_cons] at first
    obtain ⟨d, later, whole, content, -⟩ := List.map_eq_cons_iff.mp first.symm
    obtain ⟨c, others, rfl, rfl, -⟩ := List.map_eq_cons_iff.mp whole
    exact ⟨c, List.mem_cons_self, content.symm⟩
  · cases kind
  · rw [(ring.filling w filling).1] at kind
    cases kind

/-- What the event builder has in its hands is the first of the scanned containers. -/
theorem OnTheWay.building (onTheWay : OnTheWay dw boards mem id s e p before done todo)
    (ring : staff.Ring s e readouts) {w : Worker} {output_ : UFEDataContainer}
    (held : p.held staff .BMDEventBuilderWorker w = some output_) :
    ∃ c rest, done = c :: rest ∧ output_ = c.raw.scanned dw := by
  obtain ⟨hired, kind, pointer, rest, holds, rfl⟩ := Pipeline.held_eq_some held
  obtain rfl | rfl | filling := ring.worker hired
  · cases kind
  · have first := onTheWay.marked
    rw [scannedPlaces, tokens_cons, holds, List.cons_append, List.map_cons] at first
    obtain ⟨d, later, whole, content, -⟩ := List.map_eq_cons_iff.mp first.symm
    obtain ⟨c, others, rfl, rfl, -⟩ := List.map_eq_cons_iff.mp whole
    exact ⟨c, others, rfl, content.symm⟩
  · rw [(ring.filling w filling).1] at kind
    cases kind

/-- The event builder accepts the next container. -/
theorem OnTheWay.accepts {c : WordContainer} {rest : List WordContainer}
    (onTheWay : OnTheWay dw boards mem id s e p before (c :: rest) todo) (env : Environment)
    (works : env.write = none) :
    ∃ eb', BMDEventBuilder.okStep dw p.builder ⟨c.raw.scanned dw, env⟩ = some eb' := by
  have piece := onTheWay.pieces c (by simp)
  have valid := onTheWay.valid c.board_id_ piece.own
  rw [List.cons_append, List.append_cons] at valid
  obtain ⟨eb', accepted, -⟩ := onTheWay.recorded.next piece valid.before works
  exact ⟨eb', accepted⟩

theorem BMDEventBuilder.okStep_eq_some {eb eb' : BMDEventBuilder} {a : Arrival}
    (ok : okStep dw eb a = some eb') :
    ∃ output_, process dw a.env a.container eb = .ok ⟨.OK_s, eb', output_⟩ := by
  unfold okStep at ok
  split at ok
  · next builder output_ ends =>
      obtain rfl := Option.some.inj ok
      exact ⟨output_, ends⟩
  · cases ok

theorem OnTheWay.smooth (onTheWay : OnTheWay dw boards mem id s e p before done todo)
    (ring : staff.Ring s e readouts) : p.Smooth dw staff where
  scans := by
    intro w output_ held
    obtain ⟨c, member, rfl⟩ := onTheWay.scanning ring held
    have piece := onTheWay.pieces c (by simp [member])
    exact (scan_words dw p.scanner piece.some).1
  builds := by
    intro w output_ env held works
    obtain ⟨c, rest, rfl, rfl⟩ := onTheWay.building ring held
    obtain ⟨builder, accepted⟩ := onTheWay.accepts env works
    obtain ⟨output_', ends⟩ := BMDEventBuilder.okStep_eq_some accepted
    exact ⟨builder, output_', ends⟩

/-- Where nobody can go on with a working recorder, nobody can go on. -/
theorem OnTheWay.resting (onTheWay : OnTheWay dw boards mem id s e p before done todo)
    (ring : staff.Ring s e readouts)
    (stuck : ∀ a : Act, a.Calm → p.step dw getData staff a = none) :
    Resting dw getData staff p := by
  intro a noRead
  cases a with
  | take w | scan w => exact stuck _ ⟨rfl, trivial⟩
  | read w reading => cases noRead
  | build w env =>
      cases held : p.held staff .BMDEventBuilderWorker w with
      | none => simp only [Pipeline.step, held, Option.bind_none]
      | some output_ =>
          obtain ⟨builder, output_', ends⟩ := (onTheWay.smooth ring).builds w output_ ⟨0, none⟩ held rfl
          obtain ⟨hired, kind, c, rest, holds, rfl⟩ := Pipeline.held_eq_some held
          obtain ⟨p', goes⟩ : ∃ p', p.step dw getData staff (.build w ⟨0, none⟩) = some p' :=
            Pipeline.build_enabled hired kind holds ends
          rw [stuck (.build w ⟨0, none⟩) ⟨rfl, rfl⟩] at goes
          cases goes

/-- At rest everything has been recorded. -/
theorem OnTheWay.finished (onTheWay : OnTheWay dw boards mem id s e p before done todo)
    (ring : staff.Ring s e readouts) (resting : Resting dw getData staff p) :
    done = [] ∧ todo = [] := by
  have scanned : todo = [] := by
    cases resting.scanner_waits ring onTheWay.unmarked with
    | inl none => exact List.map_eq_nil_iff.mp none
    | inr small =>
        obtain ⟨d, rest, first, small⟩ := small
        obtain ⟨c, others, rfl, rfl, -⟩ := List.map_eq_cons_iff.mp first
        have piece := onTheWay.pieces c (by simp)
        have words := List.length_pos_iff.mpr piece.some
        rw [WordContainer.raw, wordBytes_length] at small
        omega
  refine ⟨?_, scanned⟩
  cases resting.builder_waits ring onTheWay.marked with
  | inl none => exact List.map_eq_nil_iff.mp none
  | inr refused =>
      obtain ⟨d, rest, first, refused⟩ := refused
      obtain ⟨c, others, rfl, rfl, -⟩ := List.map_eq_cons_iff.mp first
      obtain ⟨eb', accepted⟩ := onTheWay.accepts ⟨0, none⟩ rfl
      rw [refused] at accepted
      cases accepted

theorem Staff.Ring.records (ring : staff.Ring s e readouts) (fills : FillsBlank getData)
    (some : 1 ≤ boards.dedup.length) (few : boards.dedup.length ≤ 65535)
    (cleared : StartsCleared mem) (acquires : Acquires dw boards cs acts)
    (ran : run (Pipeline.step dw getData staff)
      (.supplied (.outFifo e) scanner ((BMDEventBuilder.new id).init boards mem)) acts = .some p) :
    p.Records dw getData staff boards cs where
  smooth := by
    obtain ⟨before, done, todo, -, onTheWay⟩ := ring.onTheWay fills some cleared acquires ran
    exact onTheWay.smooth ring
  settles := by
    let Inv (p : Pipeline) : Prop := ∃ acts, Acquires dw boards cs acts ∧
      run (Pipeline.step dw getData staff)
        (.supplied (.outFifo e) scanner ((BMDEventBuilder.new id).init boards mem)) acts = .some p
    have keep (p : Pipeline) (a : Act) (p' : Pipeline) (calm : a.Calm) (inv : Inv p)
        (stepped : p.step dw getData staff a = .some p') : Inv p' := by
      obtain ⟨acts, acquires, ran⟩ := inv
      refine ⟨acts ++ [a], acquires.append (List.forall_mem_singleton.mpr calm), ?_⟩
      rw [run_snoc, ran]
      exact stepped
    obtain ⟨more, p', calm, ran', ⟨acts', acquires', whole⟩, stuck⟩ :=
      run_settles (load (turnsLeft s e) (places s e readouts) ·.store) keep
        (fun p a p' calm inv stepped => ring.turns_decrease calm.1 stepped) ⟨acts, acquires, ran⟩
    obtain ⟨before, done, todo, -, onTheWay⟩ := ring.onTheWay fills some cleared acquires' whole
    exact ⟨more, p', calm, ran', onTheWay.resting ring stuck⟩
  short more p' calm ran' := ring.turns_bounded ran (fun a member => (calm a member).1) ran'
  records more p' calm ran' resting := by
    have whole : run (Pipeline.step dw getData staff)
        (.supplied (.outFifo e) scanner ((BMDEventBuilder.new id).init boards mem))
        (acts ++ more) = .some p' := by
      rw [run_append, ran]
      exact ran'
    obtain ⟨before, done, todo, rfl, onTheWay⟩ :=
      ring.onTheWay fills some cleared (acquires.append calm) whole
    obtain ⟨rfl, rfl⟩ := onTheWay.finished ring resting
    rw [List.append_nil, List.append_nil]
    exact onTheWay.recorded.saved few

end Ring

/-! ## From the commands on -/

/-- The boards of all devices, as the event builder visits them. -/
def Machine.boards (m : Machine) : List Int := m.ctx.devs_.flatMap UFEDevice.boards

/-- The workers of a machine that has entered Standby from Idle: all of them are initialised,
    and new containers wait for the readout. -/
def Machine.pipeline (m : Machine) (mem : Memory) : Option Pipeline :=
  m.staff.recycled_containers_fifo_.map fun recycled =>
    .supplied recycled ⟨0⟩ ((BMDEventBuilder.new 0).init m.boards mem)

/-- The turn `t` turns the system on. -/
structure TurnsOn (p : List Turn) (t : Turn) : Prop where
  off : (Machine.after p).state_ = .Idle_s
  on : (Machine.after (p ++ [t])).state_ = .Standby_s
  rests : (Machine.after (p ++ [t])).AtRest

namespace FakeData

/-- The first device of `sampleSession` delivers a spill. -/
def delivery : List WordContainer := [⟨shortSpill 3 1, 3, by decide⟩]

/-- It goes through the pipeline. -/
def deliveryActs : List Act :=
  [.take readoutWorker, .read readoutWorker ⟨0, 16, ⟨wordBytes (shortSpill 3 1), 3, by decide⟩⟩,
    .take scannerWorker, .scan scannerWorker] ++ back

theorem delivery_acquires {acts : List Act} (read : readings acts = delivery.map WordContainer.raw)
    (works : ∀ a ∈ acts, a.Works) : Acquires fakeWord [3, 5] delivery acts where
  read := read
  pieces := by
    intro c member
    obtain rfl := List.mem_singleton.mp member
    exact ⟨by decide, by decide, by decide +kernel, by decide +kernel⟩
  valid := by
    have alternates : ∀ b ∈ [(3 : Int), 5],
        Alternates fakeWord.opens fakeWord.closes false (stream delivery b) := by decide +kernel
    have spills : ∀ b ∈ [(3 : Int), 5],
        ∀ spill ∈ fakeWord.spills (stream delivery b), spill = shortSpill 3 1 := by decide +kernel
    refine fun b member => ⟨alternates b member, fun spill closed => ?_⟩
    rw [spills b member spill closed]
    exact ⟨by decide, spillHeader 3 1, 0x60600001, rfl, rfl, by decide +kernel, by decide +kernel⟩
  works := works

end FakeData

namespace FakeData

/-- The same spill, in the hands of the workers hired after `sampleFailure`. -/
def redelivery : List Act :=
  let scanner : Worker := ⟨3, .BMDDataScannerWorker, none, .inFifo 3, .outFifo 3⟩
  let builder : Worker := ⟨4, .BMDEventBuilderWorker, none, .outFifo 3, .outFifo 4⟩
  let readout : Worker := ⟨5, .BMDReadoutWorker, some 0, .outFifo 4, .inFifo 3⟩
  [.take readout, .read readout ⟨0, 16, ⟨wordBytes (shortSpill 3 1), 3, by decide⟩⟩,
    .take scanner, .scan scanner, .take builder, .build builder quiet]

end FakeData

end BMDaq
