import BMDaq.Pipeline

/-! # The flow of containers

Whatever the order in which the workers take their turns, the pipeline does what a belt
does: containers are laid on it in the order in which they have been read, and the event
builder takes them off at the other end. The containers themselves go round: each is always
in exactly one place, and those a readout worker is given are empty.
-/

namespace BMDaq

open Places

/-! ## The belt -/

/-- What has been read and not yet delivered, the oldest first, and the event builder. -/
structure Belt where
  waiting : List RawContainer
  builder : BMDEventBuilder

inductive BeltAct where
  | load (c : RawContainer)
  | deliver (env : Environment)

namespace Belt

def step (dw : MDdataWordBM) (belt : Belt) : BeltAct → Option Belt
  | .load c => some { belt with waiting := belt.waiting ++ [c] }
  | .deliver env =>
      match belt.waiting with
      | [] => none
      | c :: rest =>
          (BMDEventBuilder.okStep dw belt.builder ⟨c.scanned dw, env⟩).map fun builder =>
            ⟨rest, builder⟩

end Belt

/-- What the belt sees of a worker's turn. -/
def Act.means : Act → List BeltAct
  | .read _ reading => [.load reading.data]
  | .build _ env => [.deliver env]
  | .take _ | .scan _ => []

/-! ## Where the containers are -/

/-- Empty containers: recycled ones, and those in the hands of the readout workers. -/
def blankPlaces (e : Nat) (readouts : List Worker) : List Place :=
  .fifo (.outFifo e) :: readouts.map fun w => .output_ w.id

/-- Scanned containers, the oldest first. -/
def scannedPlaces (s e : Nat) : List Place := [.output_ e, .fifo (.outFifo s)]

/-- Containers that are still to be scanned, the oldest first. -/
def rawPlaces (s : Nat) : List Place := [.output_ s, .fifo (.inFifo s)]

def places (s e : Nat) (readouts : List Worker) : List Place :=
  blankPlaces e readouts ++ (scannedPlaces s e ++ rawPlaces s)

section Ring

variable {staff : Staff} {s e : Nat} {readouts : List Worker}

theorem Staff.Ring.places_nodup (ring : staff.Ring s e readouts) :
    (places s e readouts).Nodup := by
  have ids := ring.ids
  simp only [List.nodup_cons, List.mem_cons, List.mem_map, not_or] at ids
  obtain ⟨⟨scannerBuilder, scannerReadout⟩, builderReadout, distinct⟩ := ids
  have hands : (readouts.map fun w => Place.output_ w.id).Nodup := by
    have composed : (readouts.map fun w => Place.output_ w.id) =
        (readouts.map Worker.id).map Place.output_ := by
      rw [List.map_map]
      rfl
    rw [composed]
    exact distinct.map fun i j same => Place.output_.inj same
  simp only [places, blankPlaces, scannedPlaces, rawPlaces, List.cons_append, List.nil_append,
    List.nodup_cons, List.nodup_append, List.mem_append, List.mem_cons, List.mem_map,
    List.not_mem_nil, or_false, reduceCtorEq, false_or, Place.fifo.injEq, Place.output_.injEq,
    Fifo.outFifo.injEq]
  grind

/-- The three kinds of workers. -/
theorem Staff.Ring.worker (ring : staff.Ring s e readouts) {w : Worker} (hired : w ∈ staff.workers) :
    w = ⟨s, .BMDDataScannerWorker, none, .inFifo s, .outFifo s⟩ ∨
      w = ⟨e, .BMDEventBuilderWorker, none, .outFifo s, .outFifo e⟩ ∨ w ∈ readouts := by
  rw [ring.workers] at hired
  simpa only [List.mem_cons] using hired

end Ring

/-! ## One turn -/

/-- The tokens of the three stretches of the ring. -/
structure Stretches where
  blank : List Nat
  scanned : List Nat
  raw : List Nat

def Pipeline.stretches (p : Pipeline) (s e : Nat) (readouts : List Worker) : Stretches where
  blank := tokens (blankPlaces e readouts) p.store
  scanned := tokens (scannedPlaces s e) p.store
  raw := tokens (rawPlaces s) p.store

/-- What a turn does to the stretches: a container stays on its stretch, or it goes over to
    the next one with new content. -/
inductive Shift (dw : MDdataWordBM) (getData : GetData) (p p' : Pipeline) (old new : Stretches) :
    List BeltAct → Prop where
  | within : new.blank.Perm old.blank → new.scanned = old.scanned → new.raw = old.raw →
      p'.heap = p.heap → p'.builder = p.builder → Shift dw getData p p' old new []
  | loaded (reading : Reading) {c} : old.blank.Perm (c :: new.blank) → new.scanned = old.scanned →
      new.raw = old.raw ++ [c] →
      p'.heap = Function.update p.heap c (getData (p.heap c) reading.data) →
      p'.builder = p.builder → Shift dw getData p p' old new [.load reading.data]
  | marked {c st} : new.blank.Perm old.blank → new.scanned = old.scanned ++ [c] →
      old.raw = c :: new.raw →
      BMDDataScanner.process dw p.scanner (p.heap c) = (.OK_s, st) →
      p'.heap = Function.update p.heap c st.output_ → p'.builder = p.builder →
      Shift dw getData p p' old new []
  | delivered (env) {c output_} : new.blank.Perm (c :: old.blank) →
      old.scanned = c :: new.scanned → new.raw = old.raw →
      BMDEventBuilder.process dw env (p.heap c) p.builder = .ok ⟨.OK_s, p'.builder, output_⟩ →
      p'.heap = Function.update p.heap c output_ → Shift dw getData p p' old new [.deliver env]

section Turn

variable {dw : MDdataWordBM} {getData : GetData} {staff : Staff} {s e : Nat}
  {readouts : List Worker} {p p' : Pipeline}

/-- The three stretches have no place in common. -/
structure Apart (s e : Nat) (readouts : List Worker) : Prop where
  blank : (blankPlaces e readouts).Nodup
  scanned : (scannedPlaces s e).Nodup
  raw : (rawPlaces s).Nodup
  scannedBlank : ∀ place ∈ scannedPlaces s e, place ∉ blankPlaces e readouts
  rawBlank : ∀ place ∈ rawPlaces s, place ∉ blankPlaces e readouts
  rawScanned : ∀ place ∈ rawPlaces s, place ∉ scannedPlaces s e

theorem Staff.Ring.apart (ring : staff.Ring s e readouts) : Apart s e readouts := by
  obtain ⟨blank, onward, blankApart⟩ := List.nodup_append.mp ring.places_nodup
  obtain ⟨scanned, raw, scannedApart⟩ := List.nodup_append.mp onward
  exact
    { blank, scanned, raw
      scannedBlank := fun place here there =>
        blankApart place there place (List.mem_append_left _ here) rfl
      rawBlank := fun place here there =>
        blankApart place there place (List.mem_append_right _ here) rfl
      rawScanned := fun place here there => scannedApart place there place here rfl }

namespace Apart

variable (apart : Apart s e readouts)
include apart

/-- A worker takes a container from the fifo in front of it. -/
theorem take {w : Worker} (ring : staff.Ring s e readouts) (hired : w ∈ staff.workers)
    (moved : move p.store (.fifo w.inFifo) (.output_ w.id) = some p'.store)
    (heap : p'.heap = p.heap) (builder : p'.builder = p.builder) :
    Shift dw getData p p' (p.stretches s e readouts) (p'.stretches s e readouts) [] := by
  have atHand : Place.output_ s ∈ rawPlaces s := List.mem_cons_self
  have atFifo : Place.fifo (.inFifo s) ∈ rawPlaces s := List.mem_cons_of_mem _ List.mem_cons_self
  have atHand' : Place.output_ e ∈ scannedPlaces s e := List.mem_cons_self
  have atFifo' : Place.fifo (.outFifo s) ∈ scannedPlaces s e :=
    List.mem_cons_of_mem _ List.mem_cons_self
  obtain rfl | rfl | filling := ring.worker hired
  · refine .within (.of_eq ?_) ?_ ?_ heap builder
    · exact tokens_elsewhere moved (apart.rawBlank _ atFifo) (apart.rawBlank _ atHand)
    · exact tokens_elsewhere moved (apart.rawScanned _ atFifo) (apart.rawScanned _ atHand)
    · exact tokens_along moved [] [] rfl apart.raw
  · refine .within (.of_eq ?_) ?_ ?_ heap builder
    · exact tokens_elsewhere moved (apart.scannedBlank _ atFifo') (apart.scannedBlank _ atHand')
    · exact tokens_along moved [] [] rfl apart.scanned
    · exact tokens_elsewhere moved (fun here => apart.rawScanned _ here atFifo')
        fun here => apart.rawScanned _ here atHand'
  · obtain ⟨-, inFifo, -⟩ := ring.filling w filling
    rw [inFifo] at moved
    have fifo : Place.fifo (.outFifo e) ∈ blankPlaces e readouts := List.mem_cons_self
    have hand : Place.output_ w.id ∈ blankPlaces e readouts :=
      List.mem_cons_of_mem _ (List.mem_map_of_mem filling)
    refine .within ?_ ?_ ?_ heap builder
    · exact tokens_perm moved apart.blank ⟨fifo, hand⟩
    · exact tokens_elsewhere moved (fun here => apart.scannedBlank _ here fifo)
        fun here => apart.scannedBlank _ here hand
    · exact tokens_elsewhere moved (fun here => apart.rawBlank _ here fifo)
        fun here => apart.rawBlank _ here hand

/-- A readout worker puts what it has filled on the way to the scanner. -/
theorem load {w : Worker} {c : Nat} (reading : Reading) (filling : w ∈ readouts)
    (toScanner : w.outFifo = .inFifo s)
    (passed : p.Passed w .BMDReadoutWorker c (getData (p.heap c) reading.data) p')
    (builder : p'.builder = p.builder) :
    Shift dw getData p p' (p.stretches s e readouts) (p'.stretches s e readouts)
      [.load reading.data] := by
  obtain ⟨-, ⟨rest, holds⟩, moved, heap⟩ := passed
  rw [toScanner] at moved
  have fifo : Place.fifo (.inFifo s) ∈ rawPlaces s := List.mem_cons_of_mem _ List.mem_cons_self
  have hand : Place.output_ w.id ∈ blankPlaces e readouts :=
    List.mem_cons_of_mem _ (List.mem_map_of_mem filling)
  obtain ⟨c', rest', first, left⟩ := tokens_leave moved apart.blank hand (apart.rawBlank _ fifo)
  obtain ⟨c'', rest'', first', entered⟩ := tokens_onto moved [.output_ s] rfl apart.raw
    fun here => apart.rawBlank _ here hand
  cases holds.symm.trans first
  cases holds.symm.trans first'
  refine .loaded reading left ?_ entered heap builder
  exact tokens_elsewhere moved (fun here => apart.scannedBlank _ here hand) (apart.rawScanned _ fifo)

/-- The scanner puts what it has marked on the way to the event builder. -/
theorem mark {c : Nat} {st : ScanState}
    (ok : BMDDataScanner.process dw p.scanner (p.heap c) = (.OK_s, st))
    (passed : p.Passed ⟨s, .BMDDataScannerWorker, none, .inFifo s, .outFifo s⟩
      .BMDDataScannerWorker c st.output_ p') (builder : p'.builder = p.builder) :
    Shift dw getData p p' (p.stretches s e readouts) (p'.stretches s e readouts) [] := by
  obtain ⟨-, ⟨rest, holds⟩, moved, heap⟩ := passed
  have hand : Place.output_ s ∈ rawPlaces s := List.mem_cons_self
  have fifo : Place.fifo (.outFifo s) ∈ scannedPlaces s e :=
    List.mem_cons_of_mem _ List.mem_cons_self
  obtain ⟨c', rest', first, left⟩ := tokens_off moved [.fifo (.inFifo s)] rfl apart.raw
    fun here => apart.rawScanned _ here fifo
  obtain ⟨c'', rest'', first', entered⟩ := tokens_onto moved [.output_ e] rfl
    apart.scanned (apart.rawScanned _ hand)
  cases holds.symm.trans first
  cases holds.symm.trans first'
  refine .marked (.of_eq ?_) entered left ok heap builder
  exact tokens_elsewhere moved (apart.rawBlank _ hand) (apart.scannedBlank _ fifo)

/-- The event builder gives back what it has emptied. -/
theorem deliver {c : Nat} {output_ : UFEDataContainer} (env : Environment)
    (ok : BMDEventBuilder.process dw env (p.heap c) p.builder = .ok ⟨.OK_s, p'.builder, output_⟩)
    (passed : p.Passed ⟨e, .BMDEventBuilderWorker, none, .outFifo s, .outFifo e⟩
      .BMDEventBuilderWorker c output_ p') :
    Shift dw getData p p' (p.stretches s e readouts) (p'.stretches s e readouts)
      [.deliver env] := by
  obtain ⟨-, ⟨rest, holds⟩, moved, heap⟩ := passed
  have hand : Place.output_ e ∈ scannedPlaces s e := List.mem_cons_self
  have fifo : Place.fifo (.outFifo e) ∈ blankPlaces e readouts := List.mem_cons_self
  obtain ⟨c', rest', first, left⟩ := tokens_off moved [.fifo (.outFifo s)] rfl
    apart.scanned fun here => apart.scannedBlank _ here fifo
  obtain ⟨c'', rest'', first', entered⟩ := tokens_enter moved apart.blank fifo
    (apart.scannedBlank _ hand)
  cases holds.symm.trans first
  cases holds.symm.trans first'
  refine .delivered env entered left ?_ ok heap
  exact tokens_elsewhere moved (fun here => apart.rawScanned _ here hand)
    fun here => apart.rawBlank _ here fifo

end Apart

theorem Staff.Ring.shift (ring : staff.Ring s e readouts) {a : Act}
    (stepped : p.step dw getData staff a = some p') :
    Shift dw getData p p' (p.stretches s e readouts) (p'.stretches s e readouts) a.means := by
  obtain ⟨w, hired, turn⟩ := Pipeline.step_cases stepped
  have apart := ring.apart
  have worker := ring.worker hired
  cases turn with
  | took idle moved heap scanner builder => exact apart.take ring hired moved heap builder
  | read reading passed scanner builder =>
      obtain rfl | rfl | filling := worker
      · cases passed.hired
      · cases passed.hired
      · exact apart.load reading filling (ring.filling w filling).2.2 passed builder
  | scanned ok passed builder =>
      obtain rfl | rfl | filling := worker
      · exact apart.mark ok passed builder
      · cases passed.hired
      · cases passed.hired.symm.trans (ring.filling w filling).1
  | built env ok passed =>
      obtain rfl | rfl | filling := worker
      · cases passed.hired
      · exact apart.deliver env ok passed
      · cases passed.hired.symm.trans (ring.filling w filling).1

end Turn

/-! ## The simulation -/

/-- The pipeline carries what is on the belt: every container is in one place, those on the
    blank stretch are empty, and those on the way to the event builder hold what has been read,
    in the order of reading. -/
structure Carries (dw : MDdataWordBM) (pointers : List Nat) (at_ : Stretches) (p : Pipeline)
    (belt : Belt) : Prop where
  owned : (at_.blank ++ (at_.scanned ++ at_.raw)).Perm pointers
  blank : ∀ c ∈ at_.blank, (p.heap c).Blank
  waiting : ∃ done todo, belt.waiting = done ++ todo ∧
    at_.scanned.map p.heap = done.map (RawContainer.scanned dw) ∧
    at_.raw.map p.heap = todo.map RawContainer.toContainer
  builder : p.builder = belt.builder

/-- A write to another container does not show. -/
theorem map_update {heap : Nat → UFEDataContainer} {c : Nat} {cs : List Nat} (absent : c ∉ cs)
    (content : UFEDataContainer) : cs.map (Function.update heap c content) = cs.map heap := by
  apply List.map_congr_left
  intro c' member
  have other : c' ≠ c := fun same => absent (same ▸ member)
  exact Function.update_of_ne other _ _

/-- A scan that succeeds gives the scanned container, whatever the scanner has seen before. -/
theorem scanned_of_ok {dw : MDdataWordBM} {scanner : BMDDataScanner} {c : RawContainer} {st : ScanState}
    (ok : BMDDataScanner.process dw scanner c.toContainer = (.OK_s, st)) :
    st.output_ = c.scanned dw := by
  by_cases large : 4 ≤ c.toContainer.size
  · have marks := (BMDDataScanner.process_output dw scanner large).2
    have marks' := (BMDDataScanner.process_output dw ⟨0⟩ large).2
    rw [ok] at marks
    exact marks.trans marks'.symm
  · rw [BMDDataScanner.process_small _ (Nat.lt_of_not_le large)] at ok
    cases ok

namespace BMDEventBuilder

theorem caught_recycled {c output_ : UFEDataContainer} {e : UFEError} {eb eb' : BMDEventBuilder}
    (ends : caught c e eb = ⟨.OK_s, eb', output_⟩) : output_ = c.clear := by
  unfold caught recycle at ends
  cases severity : e.severity with
  | SERIOUS | FATAL =>
      rw [severity] at ends
      cases ends
  | other =>
      rw [severity] at ends
      cases ends
      rfl

/-- A container that has been processed without an error comes back empty. -/
theorem process_recycled {dw : MDdataWordBM} {env : Environment} {c output_ : UFEDataContainer}
    {eb eb' : BMDEventBuilder} (ends : process dw env c eb = .ok ⟨.OK_s, eb', output_⟩) :
    output_ = c.clear := by
  simp only [process] at ends
  split at ends
  · cases ends
  · cases ends
  · split at ends
    · cases ends
    · exact caught_recycled (Except.ok.inj ends)
    · split at ends
      · have wrote := Except.ok.inj ends
        unfold writeEvent at wrote
        split at wrote
        · cases wrote
          rfl
        · exact caught_recycled wrote
      · cases ends
        rfl

end BMDEventBuilder

namespace Carries

variable {dw : MDdataWordBM} {getData : GetData} {pointers : List Nat} {old new : Stretches}
  {p p' : Pipeline} {belt : Belt} {c : Nat}

/-- A filled container is laid on the belt. -/
theorem load (carries : Carries dw pointers old p belt) (fills : FillsBlank getData)
    (distinct : pointers.Nodup) (d : RawContainer) (left : old.blank.Perm (c :: new.blank))
    (scannedSame : new.scanned = old.scanned) (onto : new.raw = old.raw ++ [c])
    (heap : p'.heap = Function.update p.heap c (getData (p.heap c) d))
    (builder : p'.builder = p.builder) :
    Carries dw pointers new p' { belt with waiting := belt.waiting ++ [d] } := by
  obtain ⟨owned, blank, ⟨done, todo, waiting, marked, unmarked⟩, same⟩ := carries
  have moved : (c :: (new.blank ++ (old.scanned ++ old.raw))).Perm pointers :=
    (left.append_right _).symm.trans owned
  have fresh := (List.nodup_cons.mp (moved.nodup_iff.mpr distinct)).1
  simp only [List.mem_append, not_or] at fresh
  obtain ⟨notBlank, notScanned, notRaw⟩ := fresh
  have filled : getData (p.heap c) d = d.toContainer :=
    fills _ _ (blank c (left.mem_iff.mpr List.mem_cons_self))
  exact
    { owned := by
        rw [scannedSame, onto, ← List.append_assoc old.scanned, ← List.append_assoc]
        exact (List.perm_append_singleton c _).trans moved
      blank := by
        intro c' member
        have other : c' ≠ c := fun same => notBlank (same ▸ member)
        rw [heap, Function.update_of_ne other]
        exact blank c' (left.mem_iff.mpr (List.mem_cons_of_mem c member))
      waiting := by
        refine ⟨done, todo ++ [d], by rw [waiting, List.append_assoc], ?_, ?_⟩
        · rw [scannedSame, heap, map_update notScanned, marked]
        · rw [onto, heap, List.map_append, map_update notRaw, unmarked, List.map_singleton,
            Function.update_self, filled, List.map_append, List.map_singleton]
      builder := builder.trans same }

/-- The scanner has marked the oldest container it had. -/
theorem mark (carries : Carries dw pointers old p belt) (distinct : pointers.Nodup) {st : ScanState}
    (blankSame : new.blank.Perm old.blank) (onto : new.scanned = old.scanned ++ [c])
    (off : old.raw = c :: new.raw)
    (ok : BMDDataScanner.process dw p.scanner (p.heap c) = (.OK_s, st))
    (heap : p'.heap = Function.update p.heap c st.output_) (builder : p'.builder = p.builder) :
    Carries dw pointers new p' belt := by
  obtain ⟨owned, blank, ⟨done, todo, waiting, marked, unmarked⟩, same⟩ := carries
  rw [off] at owned unmarked
  have middle : (old.blank ++ old.scanned ++ c :: new.raw).Perm
      (c :: (old.blank ++ old.scanned ++ new.raw)) := List.perm_middle
  have moved : (c :: (old.blank ++ (old.scanned ++ new.raw))).Perm pointers := by
    simp only [List.append_assoc] at middle
    exact middle.symm.trans owned
  have fresh := (List.nodup_cons.mp (moved.nodup_iff.mpr distinct)).1
  simp only [List.mem_append, not_or] at fresh
  obtain ⟨notBlank, notScanned, notRaw⟩ := fresh
  cases todo with
  | nil => cases unmarked
  | cons d todo =>
      simp only [List.map_cons, List.cons.injEq] at unmarked
      obtain ⟨content, unmarked⟩ := unmarked
      rw [content] at ok
      exact
        { owned := by
            rw [onto, List.append_assoc]
            exact (blankSame.append_right _).trans owned
          blank := by
            intro c' member
            have there := blankSame.mem_iff.mp member
            have other : c' ≠ c := fun same => notBlank (same ▸ there)
            rw [heap, Function.update_of_ne other]
            exact blank c' there
          waiting := by
            refine ⟨done ++ [d], todo, by rw [waiting, List.append_assoc]; rfl, ?_, ?_⟩
            · rw [onto, heap, List.map_append, map_update notScanned, marked, List.map_singleton,
                Function.update_self, scanned_of_ok ok, List.map_append, List.map_singleton]
            · rw [heap, map_update notRaw, unmarked]
          builder := builder.trans same }

/-- The event builder has emptied the oldest container of the belt. -/
theorem deliver (carries : Carries dw pointers old p belt) (distinct : pointers.Nodup)
    {env : Environment} {output_ : UFEDataContainer} (entered : new.blank.Perm (c :: old.blank))
    (off : old.scanned = c :: new.scanned) (rawSame : new.raw = old.raw)
    (ok : BMDEventBuilder.process dw env (p.heap c) p.builder = .ok ⟨.OK_s, p'.builder, output_⟩)
    (heap : p'.heap = Function.update p.heap c output_) :
    ∃ belt', belt.step dw (.deliver env) = some belt' ∧ Carries dw pointers new p' belt' := by
  obtain ⟨owned, blank, ⟨done, todo, waiting, marked, unmarked⟩, same⟩ := carries
  rw [off] at owned marked
  have moved : (c :: (old.blank ++ (new.scanned ++ old.raw))).Perm pointers :=
    List.perm_middle.symm.trans owned
  have fresh := (List.nodup_cons.mp (moved.nodup_iff.mpr distinct)).1
  simp only [List.mem_append, not_or] at fresh
  obtain ⟨notBlank, notScanned, notRaw⟩ := fresh
  cases done with
  | nil => cases marked
  | cons d done =>
      simp only [List.map_cons, List.cons.injEq] at marked
      obtain ⟨content, marked⟩ := marked
      have recycled := BMDEventBuilder.process_recycled ok
      rw [content, same] at ok
      refine ⟨⟨done ++ todo, p'.builder⟩, ?_, ?_⟩
      · simp only [Belt.step, waiting, List.cons_append, BMDEventBuilder.okStep, ok, Option.map_some]
      · exact
          { owned := by
              rw [rawSame]
              exact (entered.append_right _).trans moved
            blank := by
              intro c' member
              cases List.mem_cons.mp (entered.mem_iff.mp member) with
              | inl here =>
                  rw [heap, here, Function.update_self, recycled]
                  exact UFEDataContainer.clear_blank _
              | inr there =>
                  have other : c' ≠ c := fun same => notBlank (same ▸ there)
                  rw [heap, Function.update_of_ne other]
                  exact blank c' there
            waiting := by
              refine ⟨done, todo, rfl, ?_, ?_⟩
              · rw [heap, map_update notScanned, marked]
              · rw [rawSame, heap, map_update notRaw, unmarked]
            builder := rfl }

/-- One turn of a worker is what it means on the belt. -/
theorem next (carries : Carries dw pointers old p belt) (fills : FillsBlank getData)
    (distinct : pointers.Nodup) {acts : List BeltAct} (shift : Shift dw getData p p' old new acts) :
    ∃ belt', run (Belt.step dw) belt acts = some belt' ∧ Carries dw pointers new p' belt' := by
  cases shift with
  | within blankSame scannedSame rawSame heap builder =>
      obtain ⟨owned, blank, waiting, same⟩ := carries
      refine ⟨belt, rfl, ?_, ?_, ?_, builder.trans same⟩
      · rw [scannedSame, rawSame]
        exact (blankSame.append_right _).trans owned
      · intro c member
        rw [heap]
        exact blank c (blankSame.mem_iff.mp member)
      · rw [scannedSame, rawSame, heap]
        exact waiting
  | loaded reading left scannedSame onto heap builder =>
      exact ⟨_, rfl, carries.load fills distinct reading.data left scannedSame onto heap builder⟩
  | marked blankSame onto off ok heap builder =>
      exact ⟨belt, rfl, carries.mark distinct blankSame onto off ok heap builder⟩
  | delivered env entered off rawSame ok heap =>
      obtain ⟨belt', stepped, carries'⟩ := carries.deliver distinct entered off rawSame ok heap
      exact ⟨belt', by rw [run_cons, stepped]; rfl, carries'⟩

end Carries

/-! ## Runs -/

/-- What the readout workers have read, and what the event builder has met, turn by turn. -/
def readings (acts : List Act) : List RawContainer :=
  acts.filterMap fun
    | .read _ reading => some reading.data
    | _ => none

def environments (acts : List Act) : List Environment :=
  acts.filterMap fun
    | .build _ env => some env
    | _ => none

/-- The event builder has been given these containers, scanned, with these environments. -/
structure Delivered (dw : MDdataWordBM) (eb : BMDEventBuilder) (cs : List RawContainer)
    (envs : List Environment) (eb' : BMDEventBuilder) : Prop where
  matched : cs.length = envs.length
  ran : run (BMDEventBuilder.okStep dw) eb
    (List.zipWith (fun c env => ⟨RawContainer.scanned dw c, env⟩) cs envs) = some eb'

theorem Delivered.snoc {dw : MDdataWordBM} {eb eb' eb'' : BMDEventBuilder} {cs : List RawContainer}
    {envs : List Environment} (delivers : Delivered dw eb cs envs eb') {c : RawContainer}
    {env : Environment} (stepped : BMDEventBuilder.okStep dw eb' ⟨c.scanned dw, env⟩ = some eb'') :
    Delivered dw eb (cs ++ [c]) (envs ++ [env]) eb'' where
  matched := by simp [delivers.matched]
  ran := by
    rw [List.zipWith_append delivers.matched, run_append, delivers.ran]
    exact (run_cons ..).trans (by rw [stepped]; rfl)

/-- The belt after a run: it still has what has been read and not delivered. -/
theorem belt_delivered {dw : MDdataWordBM} {eb : BMDEventBuilder} {acts : List Act} {belt : Belt}
    (ran : run (Belt.step dw) ⟨[], eb⟩ (acts.flatMap Act.means) = some belt) :
    ∃ delivered, readings acts = delivered ++ belt.waiting ∧
      Delivered dw eb delivered (environments acts) belt.builder := by
  induction acts using List.reverseRecOn generalizing belt with
  | nil =>
      obtain rfl := Option.some.inj ran
      exact ⟨[], rfl, rfl, rfl⟩
  | append_singleton acts a ih =>
      rw [List.flatMap_append, run_append, Option.bind_eq_some_iff] at ran
      obtain ⟨middle, before, last⟩ := ran
      obtain ⟨delivered, read, delivers⟩ := ih before
      cases a with
      | take w =>
          obtain rfl := Option.some.inj last
          exact ⟨delivered, by simpa [readings] using read, by simpa [environments] using delivers⟩
      | scan w =>
          obtain rfl := Option.some.inj last
          exact ⟨delivered, by simpa [readings] using read, by simpa [environments] using delivers⟩
      | read w reading =>
          obtain rfl := Option.some.inj last
          refine ⟨delivered, ?_, by simpa [environments] using delivers⟩
          simp only [readings, List.filterMap_append, List.filterMap_cons, List.filterMap_nil] at read ⊢
          rw [read, List.append_assoc]
      | build w env =>
          have last : middle.step dw (.deliver env) = some belt := by
            simpa [Act.means, run_cons] using last
          simp only [Belt.step] at last
          split at last
          · cases last
          · next c rest waiting =>
              obtain ⟨builder, stepped, rfl⟩ := Option.map_eq_some_iff.mp last
              refine ⟨delivered ++ [c], ?_, ?_⟩
              · rw [waiting] at read
                simpa [readings] using read
              · have more := delivers.snoc stepped
                simpa [environments] using more

section Runs

variable {dw : MDdataWordBM} {getData : GetData} {staff : Staff} {s e : Nat}
  {readouts : List Worker} {scanner : BMDDataScanner} {eb : BMDEventBuilder} {p p' : Pipeline}
  {acts : List Act}

theorem Staff.Ring.supplied (ring : staff.Ring s e readouts) :
    Carries dw (List.range BMDStandby.maxSize)
      ((Pipeline.supplied (.outFifo e) scanner eb).stretches s e readouts)
      (.supplied (.outFifo e) scanner eb) ⟨[], eb⟩ := by
  have other : s ≠ e := fun same => (List.nodup_cons.mp ring.ids).1 (same ▸ List.mem_cons_self)
  have hands : tokens (readouts.map fun w => Place.output_ w.id)
      (Pipeline.supplied (.outFifo e) scanner eb).store = [] := by
    apply List.flatMap_eq_nil_iff.mpr
    intro place member
    obtain ⟨w, -, rfl⟩ := List.mem_map.mp member
    rfl
  have blank : tokens (blankPlaces e readouts) (Pipeline.supplied (.outFifo e) scanner eb).store =
      List.range BMDStandby.maxSize := by
    rw [blankPlaces, tokens_cons, hands, List.append_nil]
    exact if_pos rfl
  have scanned : tokens (scannedPlaces s e) (Pipeline.supplied (.outFifo e) scanner eb).store = [] := by
    simp [scannedPlaces, Pipeline.supplied, other]
  have raw : tokens (rawPlaces s) (Pipeline.supplied (.outFifo e) scanner eb).store = [] := by
    simp [rawPlaces, Pipeline.supplied]
  exact
    { owned := by
        simp only [Pipeline.stretches, blank, scanned, raw, List.append_nil]
        exact List.Perm.refl _
      blank := fun _ _ => ⟨rfl, rfl, rfl⟩
      waiting := by
        refine ⟨[], [], rfl, ?_, ?_⟩
        · simp only [Pipeline.stretches, scanned, List.map_nil]
        · simp only [Pipeline.stretches, raw, List.map_nil]
      builder := rfl }

/-- The pipeline does what the belt does. -/
theorem Staff.Ring.simulates (ring : staff.Ring s e readouts) (fills : FillsBlank getData)
    (ran : run (Pipeline.step dw getData staff) (.supplied (.outFifo e) scanner eb) acts = some p) :
    ∃ belt, run (Belt.step dw) ⟨[], eb⟩ (acts.flatMap Act.means) = some belt ∧
      Carries dw (List.range BMDStandby.maxSize) (p.stretches s e readouts) p belt := by
  refine run_simulates (R := fun p belt =>
    Carries dw (List.range BMDStandby.maxSize) (p.stretches s e readouts) p belt) ?_ ring.supplied ran
  intro p belt a p' carries stepped
  exact carries.next fills List.nodup_range (ring.shift stepped)

end Runs

section Runs

variable {dw : MDdataWordBM} {getData : GetData} {staff : Staff} {s e : Nat}
  {readouts : List Worker} {scanner : BMDDataScanner} {eb : BMDEventBuilder} {p p' : Pipeline}
  {acts : List Act}

def Act.isRead : Act → Bool
  | .read _ _ => true
  | _ => false

/-- The number of turns until a container is in the hands of a readout worker again. -/
def turnsLeft (s e : Nat) : Place → Nat
  | .fifo (.inFifo _) => 5
  | .output_ i => if i = s then 4 else if i = e then 2 else 0
  | .fifo (.outFifo i) => if i = e then 1 else 3

/-- A turn moves one container to the next place of the ring. -/
theorem Staff.Ring.moves (ring : staff.Ring s e readouts) {a : Act}
    (stepped : p.step dw getData staff a = some p') :
    ∃ here ∈ places s e readouts, ∃ there ∈ places s e readouts,
      move p.store here there = some p'.store ∧
      (a.isRead = false → turnsLeft s e there + 1 = turnsLeft s e here) := by
  obtain ⟨w, hired, turn⟩ := Pipeline.step_cases stepped
  have ids := ring.ids
  simp only [List.nodup_cons, List.mem_cons, List.mem_map, not_or, not_exists, not_and] at ids
  obtain ⟨⟨apart, scannerReadout⟩, builderReadout, -⟩ := ids
  have apart' : e ≠ s := Ne.symm apart
  have listed {place : Place} (here : place ∈ scannedPlaces s e ++ rawPlaces s) :
      place ∈ places s e readouts := List.mem_append_right _ here
  have recycled : Place.fifo (.outFifo e) ∈ places s e readouts :=
    List.mem_append_left _ List.mem_cons_self
  have hand {w : Worker} (filling : w ∈ readouts) : Place.output_ w.id ∈ places s e readouts :=
    List.mem_append_left _ (List.mem_cons_of_mem _ (List.mem_map_of_mem filling))
  have worker := ring.worker hired
  cases turn with
  | took idle moved =>
      obtain rfl | rfl | filling := worker
      · exact ⟨_, listed (by simp [rawPlaces]), _, listed (by simp [rawPlaces]), moved, by
          simp [turnsLeft]⟩
      · exact ⟨_, listed (by simp [scannedPlaces]), _, listed (by simp [scannedPlaces]), moved, by
          simp [turnsLeft, apart, apart']⟩
      · obtain ⟨-, inFifo, -⟩ := ring.filling w filling
        rw [inFifo] at moved
        exact ⟨_, recycled, _, hand filling, moved, by
          simp [turnsLeft, scannerReadout w filling, builderReadout w filling]⟩
  | read reading passed =>
      obtain rfl | rfl | filling := worker
      · cases passed.hired
      · cases passed.hired
      · have moved := passed.moved
        rw [(ring.filling w filling).2.2] at moved
        exact ⟨_, hand filling, _, listed (by simp [rawPlaces]), moved, nofun⟩
  | scanned ok passed =>
      obtain rfl | rfl | filling := worker
      · exact ⟨_, listed (by simp [rawPlaces]), _, listed (by simp [scannedPlaces]), passed.moved, by
          simp [turnsLeft, apart]⟩
      · cases passed.hired
      · cases passed.hired.symm.trans (ring.filling w filling).1
  | built env ok passed =>
      obtain rfl | rfl | filling := worker
      · cases passed.hired
      · exact ⟨_, listed (by simp [scannedPlaces]), _, recycled, passed.moved, by
          simp [turnsLeft, apart']⟩
      · cases passed.hired.symm.trans (ring.filling w filling).1

/-! ## Ownership -/

/-- No container is outside of the ring, and no worker holds two. -/
structure Orderly (s e : Nat) (readouts : List Worker) (p : Pipeline) : Prop where
  elsewhere : ∀ place, place ∉ places s e readouts → p.store place = []
  single : ∀ i, (p.store (.output_ i)).length ≤ 1

theorem Orderly.next (orderly : Orderly s e readouts p) (ring : staff.Ring s e readouts) {a : Act}
    (stepped : p.step dw getData staff a = some p') : Orderly s e readouts p' where
  elsewhere := by
    intro place outside
    obtain ⟨here, listed, there, listed', moved, -⟩ := ring.moves stepped
    have notHere : place ≠ here := by
      rintro rfl
      exact outside listed
    have notThere : place ≠ there := by
      rintro rfl
      exact outside listed'
    rw [move_elsewhere moved notHere notThere]
    exact orderly.elsewhere place outside
  single := by
    intro i
    have before := orderly.single i
    have apart (f : Fifo) : Place.output_ i ≠ .fifo f := by simp
    have passing {w : Worker} {f : Fifo}
        (moved : move p.store (.output_ w.id) (.fifo f) = some p'.store) :
        (p'.store (.output_ i)).length ≤ 1 := by
      by_cases own : i = w.id
      · subst own
        obtain ⟨c, rest, holds, after⟩ := move_eq_some.mp moved
        rw [holds, List.length_cons] at before
        rw [after, Function.update_of_ne (apart f), Function.update_self]
        omega
      · rw [move_elsewhere moved (fun same => own (Place.output_.inj same)) (apart f)]
        exact before
    obtain ⟨w, -, turn⟩ := Pipeline.step_cases stepped
    cases turn with
    | took idle moved =>
        by_cases own : i = w.id
        · subst own
          obtain ⟨c, rest, -, after⟩ := move_eq_some.mp moved
          rw [after, Function.update_self, Function.update_of_ne (apart _), idle]
          exact le_refl 1
        · rw [move_elsewhere moved (apart _) fun same => own (Place.output_.inj same)]
          exact before
    | read reading passed => exact passing passed.moved
    | scanned ok passed => exact passing passed.moved
    | built env ok passed => exact passing passed.moved

theorem Staff.Ring.orderly (ring : staff.Ring s e readouts)
    (ran : run (Pipeline.step dw getData staff) (.supplied (.outFifo e) scanner eb) acts = some p) :
    Orderly s e readouts p := by
  have start : Orderly s e readouts (.supplied (.outFifo e) scanner eb) := by
    refine ⟨fun place outside => ?_, fun i => Nat.zero_le 1⟩
    cases place with
    | output_ i => rfl
    | fifo f =>
        apply if_neg
        rintro rfl
        exact outside (List.mem_append_left _ List.mem_cons_self)
  exact run_invariant (Q := fun _ => True) start (fun _ _ _ _ orderly stepped =>
    orderly.next ring stepped) (fun _ _ => trivial) ran

end Runs

end BMDaq
