import BMDaq.FakeData
import BMDaq.StateMachine
import BMDaq.Lib.Places

/-! # The pipeline of workers

While the machine is active, the hired workers hand data containers round a ring of fifos:
the readout workers fill them, the scanner marks them, the event builder empties them and
gives them back. Fifos and workers hold pointers; the containers are in a heap.

The loop of a worker belongs to mic11api. What is assumed of it: it takes the front pointer
of its input fifo into `output_`, calls `process()`, and after `OK_s` puts the pointer at
the end of its output fifo. Workers take turns in any order, and a run is followed until a
call to `process()` returns another status. `UFEDevice::getData` belongs to libufecpp; it is
a parameter, of which only its effect on an empty container is assumed.
-/

namespace BMDaq

open Bytes Places

/-- No bytes and no markers: a new container, or one that has been cleared. -/
structure UFEDataContainer.Blank (c : UFEDataContainer) : Prop where
  buf : c.buf = []
  headers : c.spill_headers_ = []
  trailers : c.spill_trailers_ = []

theorem UFEDataContainer.clear_blank (c : UFEDataContainer) : c.clear.Blank := ⟨rfl, rfl, rfl⟩

/-! ## The readout -/

/-- What one call of `getData` brings: the status of the device, the size read and the data. -/
structure Reading where
  status : Int
  read_size_ : Int
  data : RawContainer

/-- `UFEDevice::getData` as the container sees it. -/
abbrev GetData : Type := UFEDataContainer → RawContainer → UFEDataContainer

/-- Into an empty container, `getData` puts the bytes read and the id of their board. -/
def FillsBlank (getData : GetData) : Prop :=
  ∀ c d, c.Blank → getData c d = d.toContainer

/-- `BMDReadout::process`. The member `read_size_` is set by `getData` before it is read. -/
def BMDReadout.process (getData : GetData) (reading : Reading) (output_ : UFEDataContainer) :
    proc_status_t × UFEDataContainer :=
  (if reading.status = 0 ∧ reading.read_size_ ≠ 0 then .OK_s else .Error_s,
    getData output_ reading.data)

/-! ## Workers and containers -/

/-- The ring of a complete team: the readout workers fill what the event builder gives back, and
    the scanner stands between them and the event builder. -/
structure Staff.Ring (staff : Staff) (s e : Nat) (readouts : List Worker) : Prop where
  workers : staff.workers =
    ⟨s, .BMDDataScannerWorker, none, .inFifo s, .outFifo s⟩ ::
      ⟨e, .BMDEventBuilderWorker, none, .outFifo s, .outFifo e⟩ :: readouts
  filling : ∀ w ∈ readouts,
    w.kind = .BMDReadoutWorker ∧ w.inFifo = .outFifo e ∧ w.outFifo = .inFifo s
  ids : (s :: e :: readouts.map Worker.id).Nodup

/-- Where a pointer can be: in a fifo, or in `output_` of a worker. -/
inductive Place where
  | fifo (f : Fifo)
  | output_ (worker : Nat)
  deriving Repr, DecidableEq

/-- The processors of the readout workers have no state of their own, there is one scanner
    and one event builder. -/
structure Pipeline where
  store : Place → List Nat
  heap : Nat → UFEDataContainer
  scanner : BMDDataScanner
  builder : BMDEventBuilder

/-- One turn of a worker: it takes a container, or processes the one it holds. -/
inductive Act where
  | take (w : Worker)
  | read (w : Worker) (reading : Reading)
  | scan (w : Worker)
  | build (w : Worker) (env : Environment)

namespace Pipeline

variable (dw : MDdataWordBM) (getData : GetData) (staff : Staff)

/-- The container that a worker of the given kind has in its hands. -/
def held (p : Pipeline) (kind : WorkerKind) (w : Worker) : Option UFEDataContainer :=
  if w ∈ staff.workers ∧ w.kind = kind then (p.store (.output_ w.id)).head?.map p.heap else none

/-- The worker passes its container on, with the given content. -/
def pass (p : Pipeline) (w : Worker) (content : UFEDataContainer) : Option Pipeline :=
  match p.store (.output_ w.id), move p.store (.output_ w.id) (.fifo w.outFifo) with
  | c :: _, some store => some { p with store, heap := Function.update p.heap c content }
  | _, _ => none

def step (p : Pipeline) : Act → Option Pipeline
  | .take w =>
      if w ∈ staff.workers ∧ p.store (.output_ w.id) = [] then
        (move p.store (.fifo w.inFifo) (.output_ w.id)).map fun store => { p with store }
      else none
  | .read w reading =>
      (p.held staff .BMDReadoutWorker w).bind fun output_ =>
        match BMDReadout.process getData reading output_ with
        | (.OK_s, output_') => p.pass w output_'
        | _ => none
  | .scan w =>
      (p.held staff .BMDDataScannerWorker w).bind fun output_ =>
        match BMDDataScanner.process dw p.scanner output_ with
        | (.OK_s, st) => { p with scanner := ⟨st.trigger_tag_⟩ }.pass w st.output_
        | _ => none
  | .build w env =>
      (p.held staff .BMDEventBuilderWorker w).bind fun output_ =>
        match BMDEventBuilder.process dw env output_ p.builder with
        | .ok ⟨.OK_s, builder, output_'⟩ => { p with builder }.pass w output_'
        | _ => none

/-- The pipeline when Standby has been entered: `maxSize` new containers wait in the fifo of the
    recycled ones. -/
def supplied (recycled : Fifo) (scanner : BMDDataScanner) (builder : BMDEventBuilder) :
    Pipeline where
  store
    | .fifo f => if f = recycled then List.range BMDStandby.maxSize else []
    | .output_ _ => []
  heap _ := ⟨[], 0, [], []⟩
  scanner
  builder

/-! ## What a step can do -/

variable {dw getData staff} {p p' : Pipeline} {w : Worker}

theorem held_eq_some {kind : WorkerKind} {output_ : UFEDataContainer}
    (holds : p.held staff kind w = some output_) :
    w ∈ staff.workers ∧ w.kind = kind ∧
      ∃ c rest, p.store (.output_ w.id) = c :: rest ∧ p.heap c = output_ := by
  unfold held at holds
  split at holds
  · next hired =>
      obtain ⟨c, first, content⟩ := Option.map_eq_some_iff.mp holds
      obtain ⟨rest, whole⟩ := List.head?_eq_some_iff.mp first
      exact ⟨hired.1, hired.2, c, rest, whole, content⟩
  · cases holds

theorem pass_eq_some {content : UFEDataContainer} (passed : p.pass w content = some p') :
    ∃ c rest, p.store (.output_ w.id) = c :: rest ∧
      move p.store (.output_ w.id) (.fifo w.outFifo) = some p'.store ∧
      p'.heap = Function.update p.heap c content ∧ p'.scanner = p.scanner ∧
      p'.builder = p.builder := by
  unfold pass at passed
  split at passed
  · next c rest store holds moved =>
      obtain rfl := Option.some.inj passed
      exact ⟨c, rest, holds, moved, rfl, rfl, rfl⟩
  · cases passed

/-- A worker with a container in its hands can pass it on. -/
theorem pass_isSome {c : Nat} {rest : List Nat} (holds : p.store (.output_ w.id) = c :: rest)
    (content : UFEDataContainer) : ∃ p', p.pass w content = some p' := by
  have full : p.store (.output_ w.id) ≠ [] := by
    rw [holds]
    exact List.cons_ne_nil c rest
  obtain ⟨store, moved⟩ := (move_isSome (q := .fifo w.outFifo)).mpr full
  exact ⟨{ p with store, heap := Function.update p.heap c content }, by
    simp only [pass, moved, holds]⟩

/-- A worker `w` has processed the container `c` and passed it on. -/
structure Passed (p : Pipeline) (w : Worker) (kind : WorkerKind) (c : Nat)
    (content : UFEDataContainer) (p' : Pipeline) : Prop where
  hired : w.kind = kind
  held : ∃ rest, p.store (.output_ w.id) = c :: rest
  moved : move p.store (.output_ w.id) (.fifo w.outFifo) = some p'.store
  heap : p'.heap = Function.update p.heap c content

/-- The turns a worker of the staff can take. -/
inductive Stepped (dw : MDdataWordBM) (getData : GetData) (p : Pipeline) (w : Worker) (p' : Pipeline) :
    Act → Prop where
  | took : p.store (.output_ w.id) = [] →
      move p.store (.fifo w.inFifo) (.output_ w.id) = some p'.store → p'.heap = p.heap →
      p'.scanner = p.scanner → p'.builder = p.builder → Stepped dw getData p w p' (.take w)
  | read (reading) {c} :
      Passed p w .BMDReadoutWorker c (getData (p.heap c) reading.data) p' →
      p'.scanner = p.scanner → p'.builder = p.builder →
      Stepped dw getData p w p' (.read w reading)
  | scanned {c st} : BMDDataScanner.process dw p.scanner (p.heap c) = (.OK_s, st) →
      Passed p w .BMDDataScannerWorker c st.output_ p' → p'.builder = p.builder →
      Stepped dw getData p w p' (.scan w)
  | built (env) {c output_} :
      BMDEventBuilder.process dw env (p.heap c) p.builder = .ok ⟨.OK_s, p'.builder, output_⟩ →
      Passed p w .BMDEventBuilderWorker c output_ p' → Stepped dw getData p w p' (.build w env)

theorem step_cases {a : Act} (stepped : step dw getData staff p a = some p') :
    ∃ w ∈ staff.workers, Stepped dw getData p w p' a := by
  have handed (p₁ : Pipeline) {w : Worker} {kind : WorkerKind} {output_ content : UFEDataContainer}
      (holds : p.held staff kind w = some output_) (store : p₁.store = p.store)
      (heap : p₁.heap = p.heap) (passed : p₁.pass w content = some p') :
      w ∈ staff.workers ∧ p'.scanner = p₁.scanner ∧ p'.builder = p₁.builder ∧
        ∃ c, p.heap c = output_ ∧ Passed p w kind c content p' := by
    obtain ⟨hired, kind, c, rest, first, content⟩ := held_eq_some holds
    obtain ⟨c', rest', first', moved, written, scanner, builder⟩ := pass_eq_some passed
    rw [store] at first' moved
    rw [heap] at written
    have both := first.symm.trans first'
    simp only [List.cons.injEq] at both
    obtain ⟨rfl, -⟩ := both
    exact ⟨hired, scanner, builder, c, content, kind, ⟨rest, first⟩, moved, written⟩
  cases a with
  | take w =>
      simp only [step] at stepped
      split at stepped
      · next idle =>
          obtain ⟨store, moved, rfl⟩ := Option.map_eq_some_iff.mp stepped
          exact ⟨w, idle.1, .took idle.2 moved rfl rfl rfl⟩
      · cases stepped
  | read w reading =>
      obtain ⟨output_, holds, stepped⟩ := Option.bind_eq_some_iff.mp stepped
      split at stepped
      · next ok =>
          obtain ⟨hired, scanner, builder, c, content, passed⟩ := handed p holds rfl rfl stepped
          subst content
          obtain rfl := congrArg Prod.snd ok
          exact ⟨w, hired, .read reading passed scanner builder⟩
      · cases stepped
  | scan w =>
      obtain ⟨output_, holds, stepped⟩ := Option.bind_eq_some_iff.mp stepped
      split at stepped
      · next st ok =>
          obtain ⟨hired, -, builder, c, content, passed⟩ :=
            handed { p with scanner := ⟨st.trigger_tag_⟩ } holds rfl rfl stepped
          subst content
          exact ⟨w, hired, .scanned ok passed builder⟩
      · cases stepped
  | build w env =>
      obtain ⟨output_, holds, stepped⟩ := Option.bind_eq_some_iff.mp stepped
      split at stepped
      · next builder output_' ok =>
          obtain ⟨hired, -, kept, c, content, passed⟩ :=
            handed { p with builder } holds rfl rfl stepped
          subst content
          rw [← show p'.builder = builder from kept] at ok
          exact ⟨w, hired, .built env ok passed⟩
      · cases stepped

end Pipeline

/-! ## A sample pipeline -/

namespace FakeData

def scannerWorker : Worker := ⟨0, .BMDDataScannerWorker, none, .inFifo 0, .outFifo 0⟩

def builderWorker : Worker := ⟨1, .BMDEventBuilderWorker, none, .outFifo 0, .outFifo 1⟩

def readoutWorker : Worker := ⟨2, .BMDReadoutWorker, some 0, .outFifo 1, .inFifo 0⟩

def secondReadout : Worker := ⟨3, .BMDReadoutWorker, some 1, .outFifo 1, .inFifo 0⟩

/-- The team for two devices. -/
def duoTeam : Staff where
  workers := [scannerWorker, builderWorker, readoutWorker, secondReadout]
  nodes := [.outFifo 1, .outFifo 0, .inFifo 0]
  hires := 4
  recycled_containers_fifo_ := some (.outFifo 1)
  rec_proc_ptr_ := some 1

theorem duoTeam_ring : duoTeam.Ring 0 1 [readoutWorker, secondReadout] where
  workers := rfl
  filling := by simp [readoutWorker, secondReadout]
  ids := by decide

/-- What `getData` does with the containers the readout is given. -/
def fill : GetData := fun _ d => d.toContainer

/-- A spill of board 0. -/
def reading : Reading := ⟨0, 16, ⟨wordBytes (shortSpill 0 1), 0, by decide⟩⟩

/-- A spill of board 5. -/
def secondReading : Reading := ⟨0, 16, ⟨wordBytes (shortSpill 5 1), 5, by decide⟩⟩

/-- The second readout worker takes its container last and reads first. -/
def onTheWay : List Act :=
  [.take readoutWorker, .take secondReadout, .read secondReadout secondReading,
    .read readoutWorker reading, .take scannerWorker, .scan scannerWorker]

/-- A scanned container is given back. -/
def back : List Act := [.take builderWorker, .build builderWorker quiet]

/-- The other one follows, and the readout workers take new ones. -/
def settling : List Act :=
  [.take scannerWorker, .scan scannerWorker] ++ back ++ [.take readoutWorker, .take secondReadout]

/-- The pipeline of `duoTeam` when Standby has been entered. -/
abbrev fresh : Pipeline := .supplied (.outFifo 1) ⟨0⟩ twoBoards

theorem onTheWay_runs : ∃ p, run (Pipeline.step fakeWord fill duoTeam) fresh onTheWay = some p :=
  Option.isSome_iff_exists.mp (by decide +kernel)

end FakeData

end BMDaq
