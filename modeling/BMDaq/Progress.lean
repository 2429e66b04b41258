import BMDaq.ContainerFlow

/-! # Progress of the pipeline

There are as many containers as a fifo has room for, so a worker with a container in its
hands finds room for it, and the workers never wait for one another in a circle. Once the
readout stops, what has been read reaches the event builder within five turns per
container, unless a worker meets an error.
-/

namespace BMDaq

open Places

section Enabled

variable {dw : MDdataWordBM} {getData : GetData} {staff : Staff} {p : Pipeline} {w : Worker}

namespace Pipeline

/-- An idle worker takes what lies in its input fifo. -/
theorem take_enabled (hired : w ∈ staff.workers) (idle : p.store (.output_ w.id) = [])
    (waiting : p.store (.fifo w.inFifo) ≠ []) :
    ∃ p', p.step dw getData staff (.take w) = some p' := by
  obtain ⟨store, moved⟩ := (move_isSome (q := .output_ w.id)).mpr waiting
  exact ⟨{ p with store }, by simp [step, hired, idle, moved]⟩

theorem held_of_store {kind : WorkerKind} {c : Nat} {rest : List Nat} (hired : w ∈ staff.workers)
    (right : w.kind = kind) (holds : p.store (.output_ w.id) = c :: rest) :
    p.held staff kind w = some (p.heap c) := by
  simp [held, hired, right, holds]

theorem scan_enabled {c : Nat} {rest : List Nat} {st : ScanState} (hired : w ∈ staff.workers)
    (right : w.kind = .BMDDataScannerWorker) (holds : p.store (.output_ w.id) = c :: rest)
    (ok : BMDDataScanner.process dw p.scanner (p.heap c) = (.OK_s, st)) :
    ∃ p', p.step dw getData staff (.scan w) = some p' := by
  obtain ⟨p', passed⟩ := pass_isSome (p := { p with scanner := ⟨st.trigger_tag_⟩ }) holds st.output_
  exact ⟨p', by simp only [step, held_of_store hired right holds, Option.bind_some, ok, passed]⟩

theorem build_enabled {c : Nat} {rest : List Nat} {env : Environment} {builder : BMDEventBuilder}
    {output_ : UFEDataContainer} (hired : w ∈ staff.workers)
    (right : w.kind = .BMDEventBuilderWorker) (holds : p.store (.output_ w.id) = c :: rest)
    (ok : BMDEventBuilder.process dw env (p.heap c) p.builder = .ok ⟨.OK_s, builder, output_⟩) :
    ∃ p', p.step dw getData staff (.build w env) = some p' := by
  obtain ⟨p', passed⟩ := pass_isSome (p := { p with builder }) holds output_
  exact ⟨p', by simp only [step, held_of_store hired right holds, Option.bind_some, ok, passed]⟩

end Pipeline

end Enabled

section Ring

variable {dw : MDdataWordBM} {getData : GetData} {staff : Staff} {s e : Nat}
  {readouts : List Worker} {scanner : BMDDataScanner} {eb : BMDEventBuilder} {p p' : Pipeline}
  {acts : List Act}

/-- The containers of a run, whatever is in them. -/
theorem Staff.Ring.conserved (ring : staff.Ring s e readouts)
    (ran : run (Pipeline.step dw getData staff) (.supplied (.outFifo e) scanner eb) acts = some p) :
    (tokens (places s e readouts) p.store).length = BMDStandby.maxSize := by
  have start : (tokens (places s e readouts)
      (Pipeline.supplied (.outFifo e) scanner eb).store).length = BMDStandby.maxSize := by
    have carries : Carries dw _ _ (.supplied (.outFifo e) scanner eb) _ := ring.supplied
    have owned := carries.owned.length_eq
    rw [places, tokens_append, tokens_append]
    exact owned.trans List.length_range
  refine run_invariant (Q := fun _ => True)
    (P := fun p => (tokens (places s e readouts) p.store).length = BMDStandby.maxSize) start ?_
    (fun _ _ => trivial) ran
  intro p a p' _ same stepped
  obtain ⟨here, listed, there, listed', moved, -⟩ := ring.moves stepped
  rw [(tokens_perm moved ring.places_nodup ⟨listed, listed'⟩).length_eq]
  exact same

/-- Every worker puts what it holds into a fifo of the ring. -/
theorem Staff.Ring.listed (ring : staff.Ring s e readouts) {w : Worker} (hired : w ∈ staff.workers) :
    Place.output_ w.id ∈ places s e readouts ∧ Place.fifo w.outFifo ∈ places s e readouts := by
  obtain rfl | rfl | filling := ring.worker hired
  · simp [places, scannedPlaces, rawPlaces]
  · simp [places, scannedPlaces, blankPlaces]
  · rw [(ring.filling w filling).2.2]
    have hand : Place.output_ w.id ∈ blankPlaces e readouts :=
      List.mem_cons_of_mem _ (List.mem_map_of_mem filling)
    exact ⟨List.mem_append_left _ hand, by simp [places, rawPlaces]⟩

/-- Behind every place of the ring stands a worker. -/
theorem Staff.Ring.attended (ring : staff.Ring s e readouts) (devices : readouts ≠ []) {place : Place}
    (listed : place ∈ places s e readouts) :
    ∃ w ∈ staff.workers, place = .output_ w.id ∨ place = .fifo w.inFifo := by
  have hired := ring.workers
  simp only [places, blankPlaces, scannedPlaces, rawPlaces, List.mem_append, List.mem_cons,
    List.mem_map, List.not_mem_nil, or_false] at listed
  rcases listed with (recycled | ⟨w, filling, hand⟩) | (hand | fifo) | hand | fifo
  · obtain ⟨w, filling⟩ := List.exists_mem_of_ne_nil readouts devices
    exact ⟨w, by simp [hired, filling], .inr (by rw [recycled, (ring.filling w filling).2.1])⟩
  · exact ⟨w, by simp [hired, filling], .inl hand.symm⟩
  · exact ⟨_, by rw [hired]; exact List.mem_cons_of_mem _ List.mem_cons_self, .inl hand⟩
  · exact ⟨_, by rw [hired]; exact List.mem_cons_of_mem _ List.mem_cons_self, .inr fifo⟩
  · exact ⟨_, by rw [hired]; exact List.mem_cons_self, .inl hand⟩
  · exact ⟨_, by rw [hired]; exact List.mem_cons_self, .inr fifo⟩

/-- In every interleaving a worker that holds a container finds room in its output fifo, and
    the workers are never all waiting for one another: one of them holds a container or can
    take one. -/
theorem workers_never_block (ring : staff.Ring s e readouts) (devices : readouts ≠ [])
    (ran : run (Pipeline.step dw getData staff) (.supplied (.outFifo e) scanner eb) acts = some p) :
    (∀ w ∈ staff.workers, p.store (.output_ w.id) ≠ [] →
      (p.store (.fifo w.outFifo)).length < BMDStandby.maxSize) ∧
    ∃ w ∈ staff.workers, p.store (.output_ w.id) ≠ [] ∨
      ∃ p', p.step dw getData staff (.take w) = some p' := by
  have conserved := ring.conserved ran
  constructor
  · intro w hired holds
    have both := length_pair_le ring.places_nodup (ring.listed hired) (by simp) p.store
    have one := List.length_pos_iff.mpr holds
    omega
  · have some : tokens (places s e readouts) p.store ≠ [] := by
      intro none
      rw [none] at conserved
      cases conserved
    obtain ⟨place, listed, waiting⟩ := exists_token some
    obtain ⟨w, hired, hand | fifo⟩ := ring.attended devices listed
    · exact ⟨w, hired, .inl (hand ▸ waiting)⟩
    · by_cases idle : p.store (.output_ w.id) = []
      · exact ⟨w, hired, .inr (Pipeline.take_enabled hired idle (fifo ▸ waiting))⟩
      · exact ⟨w, hired, .inl idle⟩

end Ring

open FakeData in
theorem workers_never_block_onTheWay : ∃ p : Pipeline,
    run (Pipeline.step fakeWord fill duoTeam) fresh onTheWay = some p ∧
    (∀ w ∈ duoTeam.workers, p.store (.output_ w.id) ≠ [] →
      (p.store (.fifo w.outFifo)).length < BMDStandby.maxSize) ∧
    ∃ w ∈ duoTeam.workers, p.store (.output_ w.id) ≠ [] ∨
      ∃ p', p.step fakeWord fill duoTeam (.take w) = some p' := by
  obtain ⟨p, ran⟩ := onTheWay_runs
  exact ⟨p, ran, workers_never_block duoTeam_ring (List.cons_ne_nil _ _) ran⟩

/-! ## Draining -/

section Draining

variable {dw : MDdataWordBM} {getData : GetData} {staff : Staff} {s e : Nat}
  {readouts : List Worker} {scanner : BMDDataScanner} {eb : BMDEventBuilder} {p p' : Pipeline}
  {acts : List Act}

theorem turnsLeft_le (s e : Nat) (place : Place) : turnsLeft s e place ≤ 5 := by
  unfold turnsLeft
  cases place with
  | output_ i => grind
  | fifo f =>
      cases f with
      | inFifo i => exact le_refl 5
      | outFifo i => grind

/-- Every turn that is not a reading brings one container nearer to the readout. -/
theorem Staff.Ring.turns_decrease (ring : staff.Ring s e readouts) {a : Act}
    (noRead : a.isRead = false) (stepped : p.step dw getData staff a = some p') :
    load (turnsLeft s e) (places s e readouts) p'.store <
      load (turnsLeft s e) (places s e readouts) p.store := by
  obtain ⟨here, listed, there, listed', moved, nearer⟩ := ring.moves stepped
  have changed := load_move (turnsLeft s e) moved ring.places_nodup ⟨listed, listed'⟩
  have one := nearer noRead
  omega

/-- A run without readings is short. -/
theorem Staff.Ring.turns_bounded (ring : staff.Ring s e readouts) {more : List Act}
    (ran : run (Pipeline.step dw getData staff) (.supplied (.outFifo e) scanner eb) acts = some p)
    (noRead : ∀ a ∈ more, a.isRead = false)
    (ran' : run (Pipeline.step dw getData staff) p more = some p') :
    more.length ≤ 5 * BMDStandby.maxSize := by
  have bound := run_length_le (Q := fun a => a.isRead = false) (fun _ => True)
    (fun p => load (turnsLeft s e) (places s e readouts) p.store) (fun _ _ _ _ _ _ => trivial)
    (fun _ _ _ noRead _ stepped => ring.turns_decrease noRead stepped) trivial noRead ran'
  have light := load_le (turnsLeft_le s e) (places s e readouts) p.store
  rw [ring.conserved ran] at light
  omega

theorem readings_append (acts more : List Act) :
    readings (acts ++ more) = readings acts ++ readings more := List.filterMap_append

theorem readings_eq_nil {more : List Act} (noRead : ∀ a ∈ more, a.isRead = false) :
    readings more = [] := by
  apply List.filterMap_eq_nil_iff.mpr
  intro a member
  cases a with
  | read w reading => cases noRead _ member
  | take w | scan w | build w env => rfl

/-- Nobody but the readout can do anything. -/
def Resting (dw : MDdataWordBM) (getData : GetData) (staff : Staff) (p : Pipeline) : Prop :=
  ∀ a : Act, a.isRead = false → p.step dw getData staff a = none

theorem Resting.not_enabled (resting : Resting dw getData staff p) {a : Act} (noRead : a.isRead = false) :
    ¬ ∃ p', p.step dw getData staff a = some p' := by
  rintro ⟨p', stepped⟩
  rw [resting a noRead] at stepped
  cases stepped

/-- In a resting pipeline, a worker with something on its stretch holds the oldest of it. -/
theorem Resting.holds (resting : Resting dw getData staff p) {w : Worker} (hired : w ∈ staff.workers)
    {c : Nat} {rest : List Nat}
    (waiting : tokens [.output_ w.id, .fifo w.inFifo] p.store = c :: rest) :
    ∃ rest', p.store (.output_ w.id) = c :: rest' := by
  cases holds : p.store (.output_ w.id) with
  | cons c' rest' =>
      simp only [tokens_cons, holds, List.cons_append, List.cons.injEq] at waiting
      exact ⟨rest', by rw [waiting.1]⟩
  | nil =>
      simp only [tokens_cons, holds, tokens_nil, List.append_nil, List.nil_append] at waiting
      have full : p.store (.fifo w.inFifo) ≠ [] := by
        rw [waiting]
        exact List.cons_ne_nil c rest
      exact (resting.not_enabled rfl (Pipeline.take_enabled hired holds full)).elim

/-- A resting scanner has nothing to scan, or less than one word next. -/
theorem Resting.scanner_waits (resting : Resting dw getData staff p) (ring : staff.Ring s e readouts)
    {todo : List RawContainer}
    (unmarked : (tokens (rawPlaces s) p.store).map p.heap = todo.map RawContainer.toContainer) :
    todo = [] ∨ ∃ d rest, todo = d :: rest ∧ d.buf.length < 4 := by
  cases todo with
  | nil => exact .inl rfl
  | cons d todo =>
      obtain ⟨c, rest, waiting, content, -⟩ := List.map_eq_cons_iff.mp unmarked
      have hired : ⟨s, .BMDDataScannerWorker, none, .inFifo s, .outFifo s⟩ ∈ staff.workers := by
        rw [ring.workers]
        exact List.mem_cons_self
      obtain ⟨rest', holds⟩ := resting.holds hired waiting
      refine .inr ⟨d, todo, rfl, ?_⟩
      by_contra large
      have scans := (BMDDataScanner.process_output dw p.scanner (c := d.toContainer)
        (Nat.le_of_not_lt large)).1
      have ok : BMDDataScanner.process dw p.scanner (p.heap c) =
          (.OK_s, (BMDDataScanner.process dw p.scanner d.toContainer).2) := by
        rw [content]
        exact Prod.ext scans rfl
      exact resting.not_enabled rfl (Pipeline.scan_enabled hired rfl holds ok)

/-- A resting event builder has nothing to build, or a container it cannot process. -/
theorem Resting.builder_waits (resting : Resting dw getData staff p) (ring : staff.Ring s e readouts)
    {done : List RawContainer}
    (marked : (tokens (scannedPlaces s e) p.store).map p.heap = done.map (RawContainer.scanned dw)) :
    done = [] ∨ ∃ d rest, done = d :: rest ∧ ∀ env,
      BMDEventBuilder.okStep dw p.builder ⟨d.scanned dw, env⟩ = none := by
  cases done with
  | nil => exact .inl rfl
  | cons d done =>
      obtain ⟨c, rest, waiting, content, -⟩ := List.map_eq_cons_iff.mp marked
      have hired : ⟨e, .BMDEventBuilderWorker, none, .outFifo s, .outFifo e⟩ ∈ staff.workers := by
        rw [ring.workers]
        exact List.mem_cons_of_mem _ List.mem_cons_self
      obtain ⟨rest', holds⟩ := resting.holds hired waiting
      refine .inr ⟨d, done, rfl, fun env => ?_⟩
      unfold BMDEventBuilder.okStep
      split
      · next builder output_ ends =>
          rw [← content] at ends
          exact (resting.not_enabled rfl (Pipeline.build_enabled hired rfl holds ends)).elim
      · rfl

end Draining

namespace FakeData

/-- Only the readout workers of `duoTeam` have something in their hands, and nothing waits for
    the others. -/
theorem duoTeam_resting {p : Pipeline} (scanner : p.store (.output_ 0) = [])
    (raw : p.store (.fifo (.inFifo 0)) = []) (builder : p.store (.output_ 1) = [])
    (scanned : p.store (.fifo (.outFifo 0)) = []) (first : p.store (.output_ 2) ≠ [])
    (second : p.store (.output_ 3) ≠ []) : Resting fakeWord fill duoTeam p := by
  have nothing {w : Worker} {kind : WorkerKind} (other : kind ≠ .BMDReadoutWorker) :
      p.held duoTeam kind w = none := by
    rw [Pipeline.held, ite_eq_right_iff]
    rintro ⟨hired, rfl⟩
    simp only [duoTeam, List.mem_cons, List.not_mem_nil, or_false] at hired
    obtain rfl | rfl | rfl | rfl := hired
    · simp [scannerWorker, scanner]
    · simp [builderWorker, builder]
    · exact (other rfl).elim
    · exact (other rfl).elim
  intro a noRead
  cases a with
  | take w =>
      rw [Pipeline.step, ite_eq_right_iff]
      rintro ⟨hired, idle⟩
      simp only [duoTeam, List.mem_cons, List.not_mem_nil, or_false] at hired
      obtain rfl | rfl | rfl | rfl := hired
      · simp [scannerWorker, move, raw]
      · simp [builderWorker, move, scanned]
      · exact (first idle).elim
      · exact (second idle).elim
  | read w reading => cases noRead
  | scan w => rw [Pipeline.step, nothing (by decide), Option.bind_none]
  | build w env => rw [Pipeline.step, nothing (by decide), Option.bind_none]

end FakeData

end BMDaq
