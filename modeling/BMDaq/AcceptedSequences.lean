import BMDaq.SpillChecks
import BMDaq.BankSizes

/-! # The accepted container sequences

Which sequences of containers a fragment builder takes without an exception, said in terms
of markers alone: the markers of the stream alternate, once the trailers that the firmware
fault leaves in front of a header are deleted, and each spill passes the consistency check.
The builder decides this container by container; both descriptions are taken apart at the
first container and compared there.
-/

namespace BMDaq

open Bytes Segments

inductive Mark where
  | header
  | trailer
  deriving Repr, DecidableEq

/-- The markers of a container, in the order of their offsets. -/
def marks (c : UFEDataContainer) : List Mark :=
  (List.merge (c.spill_headers_.map (·, Mark.header)) (c.spill_trailers_.map (·, Mark.trailer))
    fun x y => decide (x.1 ≤ y.1)).map Prod.snd

/-- Trailers that precede a header of the same container while no spill is open are deleted. -/
def strip : Bool → List Mark → List Mark
  | _, [] => []
  | _, .header :: rest => .header :: strip true rest
  | true, .trailer :: rest => .trailer :: strip false rest
  | false, .trailer :: rest =>
      if .header ∈ rest then strip false rest else .trailer :: strip false rest

/-- Whether a spill is open behind the markers: the last one decides. -/
def openAfter (inside : Bool) (ms : List Mark) : Bool :=
  ms.foldl (fun _ m => m == .header) inside

/-- The markers of the concatenated stream, without the deleted ones. -/
def markStream (inside : Bool) : List UFEDataContainer → List Mark
  | [] => []
  | c :: rest =>
      let ms := strip inside (marks c)
      ms ++ markStream (openAfter inside ms) rest

/-- Header, trailer, header, ... -/
abbrev Alternating (inside : Bool) (ms : List Mark) : Prop :=
  Alternates (· == .header) (· == .trailer) inside ms

/-- The spills that the containers complete; `running` is open before the first one. -/
def completedSpills (running : Option (List UInt8)) : List UFEDataContainer → List (List UInt8)
  | [] => []
  | c :: rest => (follow running c).2.toList ++ completedSpills (follow running c).1 rest

/-- The sequences that the builder of board `b` is to accept behind an open spill, or
    behind none. -/
structure Stated (dw : MDdataWordBM) (b : Int) (running : Option (List UInt8))
    (cs : List UFEDataContainer) : Prop where
  board : ∀ c ∈ cs, c.boardId = b
  oneHeader : ∀ c ∈ cs, c.spill_headers_.length ≤ 1
  oneTrailer : ∀ c ∈ cs, c.spill_trailers_.length ≤ 1
  alternating : Alternating running.isSome (markStream running.isSome cs)
  agreeing : ∀ spill ∈ completedSpills running cs, Agrees dw spill

/-! ## One container -/

section Container

variable {dw : MDdataWordBM} {b : Int} {running : Option (List UInt8)} {c : UFEDataContainer}
  {cs : List UFEDataContainer} {ms : List Mark}

/-- The markers of a container with at most one of each kind. -/
inductive Shape (c : UFEDataContainer) : List Mark → Prop where
  | plain : c.spill_headers_ = [] → c.spill_trailers_ = [] → Shape c []
  | opening (h) : c.spill_headers_ = [h] → c.spill_trailers_ = [] → Shape c [.header]
  | closing (t) : c.spill_headers_ = [] → c.spill_trailers_ = [t] → Shape c [.trailer]
  | whole (h t) : c.spill_headers_ = [h] → c.spill_trailers_ = [t] → h < t →
      Shape c [.header, .trailer]
  | turning (h t) : c.spill_headers_ = [h] → c.spill_trailers_ = [t] → t < h →
      Shape c [.trailer, .header]

theorem Shape.marks (shape : Shape c ms) : marks c = ms := by
  cases shape with
  | plain headers trailers => simp [BMDaq.marks, headers, trailers]
  | opening h headers trailers => simp [BMDaq.marks, headers, trailers]
  | closing t headers trailers => simp [BMDaq.marks, headers, trailers]
  | whole h t headers trailers before =>
      simp [BMDaq.marks, headers, trailers, le_of_lt before]
  | turning h t headers trailers before =>
      simp [BMDaq.marks, headers, trailers, not_le_of_gt before]

theorem Scanned.shape (scanned : Scanned dw c) (oneHeader : c.spill_headers_.length ≤ 1)
    (oneTrailer : c.spill_trailers_.length ≤ 1) : ∃ ms, Shape c ms := by
  rcases none_or_one oneHeader with headers | ⟨h, headers⟩
  · rcases none_or_one oneTrailer with trailers | ⟨t, trailers⟩
    · exact ⟨_, .plain headers trailers⟩
    · exact ⟨_, .closing t headers trailers⟩
  · rcases none_or_one oneTrailer with trailers | ⟨t, trailers⟩
    · exact ⟨_, .opening h headers trailers⟩
    · rcases scanned.apart (h := h) (t := t) (by simp [headers]) (by simp [trailers]) with
        before | before
      · exact ⟨_, .whole h t headers trailers (by omega)⟩
      · exact ⟨_, .turning h t headers trailers (by omega)⟩

/-- Where the markers alternate, `follow` opens and closes spills as they say. -/
theorem Shape.follow_isSome (shape : Shape c ms)
    (alternating : Alternating running.isSome (strip running.isSome ms)) :
    (follow running c).1.isSome = openAfter running.isSome (strip running.isSome ms) := by
  cases shape with
  | plain headers trailers => cases running <;> simp [follow, headers, trailers, strip, openAfter]
  | opening h headers trailers =>
      cases running <;> simp [follow, headers, trailers, strip, openAfter]
  | closing t headers trailers =>
      cases running <;> simp [follow, headers, trailers, strip, openAfter]
  | whole h t headers trailers before =>
      cases running with
      | none => simp [follow, headers, trailers, strip, openAfter, le_of_lt before]
      | some p => simp [strip, Alternates] at alternating
  | turning h t headers trailers before =>
      cases running <;>
        simp [follow, headers, trailers, strip, openAfter, not_le_of_gt before]

/-- Alternation over the first container and the rest. -/
theorem Shape.alternating_append (shape : Shape c ms) (inside : Bool) (rest : List Mark) :
    Alternating inside (strip inside ms ++ rest) ↔
      Alternating inside (strip inside ms) ∧
        Alternating (openAfter inside (strip inside ms)) rest := by
  have other : (Mark.trailer == Mark.header) = false := rfl
  cases shape <;> cases inside <;> simp [strip, openAfter, Alternates, other]

/-- The guards of the builder are the alternation of the markers. -/
theorem Shape.guards_iff (shape : Shape c ms) : Alternating running.isSome (strip running.isSome ms) ↔
    (running = none → c.spill_headers_ = [] → c.spill_trailers_ = []) ∧
      (running ≠ none → ∀ h ∈ c.spill_headers_, ∃ t ∈ c.spill_trailers_, t ≤ h) := by
  cases shape with
  | plain headers trailers => cases running <;> simp [headers, trailers, strip, Alternates]
  | opening h headers trailers => cases running <;> simp [headers, trailers, strip, Alternates]
  | closing t headers trailers => cases running <;> simp [headers, trailers, strip, Alternates]
  | whole h t headers trailers before =>
      cases running <;> simp [headers, trailers, strip, Alternates, before]
  | turning h t headers trailers before =>
      cases running <;> simp [headers, trailers, strip, Alternates, le_of_lt before]

/-- A container that the builder is to accept behind the open spill. -/
structure Admitted (dw : MDdataWordBM) (b : Int) (running : Option (List UInt8))
    (c : UFEDataContainer) : Prop where
  board : c.boardId = b
  oneHeader : c.spill_headers_.length ≤ 1
  oneTrailer : c.spill_trailers_.length ≤ 1
  alternating : Alternating running.isSome (strip running.isSome (marks c))
  agreeing : ∀ spill ∈ (follow running c).2, Agrees dw spill

/-- The stated sequences, taken apart at the first container. -/
theorem stated_cons (scanned : Scanned dw c) :
    Stated dw b running (c :: cs) ↔
      Admitted dw b running c ∧ Stated dw b (follow running c).1 cs := by
  have parts (oneHeader : c.spill_headers_.length ≤ 1) (oneTrailer : c.spill_trailers_.length ≤ 1) :
      Alternating running.isSome (markStream running.isSome (c :: cs)) ↔
        Alternating running.isSome (strip running.isSome (marks c)) ∧
          Alternating (follow running c).1.isSome (markStream (follow running c).1.isSome cs) := by
    obtain ⟨ms, shape⟩ := scanned.shape oneHeader oneTrailer
    rw [shape.marks, markStream, shape.marks, shape.alternating_append]
    refine and_congr_right fun alternating => ?_
    rw [shape.follow_isSome alternating]
  constructor
  · rintro ⟨board, oneHeader, oneTrailer, alternating, agreeing⟩
    simp only [List.forall_mem_cons] at board oneHeader oneTrailer
    simp only [completedSpills, List.forall_mem_append, Option.mem_toList] at agreeing
    obtain ⟨here, later⟩ := (parts oneHeader.1 oneTrailer.1).mp alternating
    exact ⟨⟨board.1, oneHeader.1, oneTrailer.1, here, agreeing.1⟩,
      ⟨board.2, oneHeader.2, oneTrailer.2, later, agreeing.2⟩⟩
  · rintro ⟨first, rest⟩
    refine ⟨?_, ?_, ?_, ?_, ?_⟩
    · exact List.forall_mem_cons.mpr ⟨first.board, rest.board⟩
    · exact List.forall_mem_cons.mpr ⟨first.oneHeader, rest.oneHeader⟩
    · exact List.forall_mem_cons.mpr ⟨first.oneTrailer, rest.oneTrailer⟩
    · exact (parts first.oneHeader first.oneTrailer).mpr ⟨first.alternating, rest.alternating⟩
    · simp only [completedSpills, List.forall_mem_append, Option.mem_toList]
      exact ⟨first.agreeing, rest.agreeing⟩

end Container

/-! ## One call -/

section Call

open DataFragmentBuilder

variable {dw : MDdataWordBM} {running : Option (List UInt8)} {c : UFEDataContainer}
  {s s' : FragmentState}

/-- The builder of a state between calls that have all returned. -/
structure Running (dw : MDdataWordBM) (s : FragmentState) (running : Option (List UInt8)) :
    Prop where
  tidy : LocalTidy dw s.builder.mem_bank_
  local_ : Represents s.builder.mem_bank_ running

theorem Running.isSome_iff (runs : Running dw s running) :
    running ≠ none ↔ s.builder.mem_bank_.spill_headers_ ≠ [] := by
  have rep := runs.local_
  cases running with
  | none => simp [rep.1]
  | some p =>
      obtain ⟨⟨hs, headers⟩, -⟩ := rep
      simp [headers]

theorem Running.admissible_iff (runs : Running dw s running) (scanned : Scanned dw c) :
    Admissible s.builder c ↔ c.boardId = s.builder.board_id_ ∧ c.spill_headers_.length ≤ 1 ∧
      c.spill_trailers_.length ≤ 1 ∧ Alternating running.isSome (strip running.isSome (marks c)) := by
  have busy := runs.isSome_iff
  have idle := not_iff_not.mpr busy
  rw [not_not, not_not] at idle
  constructor
  · rintro ⟨own, oneHeader, oneTrailer, -, quiet, order⟩
    obtain ⟨ms, shape⟩ := scanned.shape oneHeader oneTrailer
    rw [shape.marks, shape.guards_iff, idle, busy]
    exact ⟨own, oneHeader, oneTrailer, quiet, order⟩
  · rintro ⟨own, oneHeader, oneTrailer, alternating⟩
    obtain ⟨ms, shape⟩ := scanned.shape oneHeader oneTrailer
    rw [shape.marks, shape.guards_iff, idle, busy] at alternating
    exact ⟨own, oneHeader, oneTrailer, runs.tidy.noTrailers, alternating.1, alternating.2⟩

theorem Running.done (runs : Running dw s running) (scanned : Scanned dw c)
    (called : process dw c s = .done s') :
    Admitted dw s.builder.board_id_ running c ∧ Running dw s' (follow running c).1 ∧
      s'.builder.board_id_ = s.builder.board_id_ := by
  obtain ⟨own, clean, m', f?, step, accepted, rfl⟩ := process_done called
  obtain ⟨-, oneHeader, oneTrailer, alternating⟩ :=
    (runs.admissible_iff scanned).mp (step.admissible own clean)
  obtain ⟨rep', bytes⟩ := step.follows runs.local_ scanned.toWellMarked
  obtain ⟨tidy', complete⟩ := step.tidy runs.tidy scanned
  refine ⟨⟨own, oneHeader, oneTrailer, alternating, ?_⟩, ⟨tidy', rep'⟩, rfl⟩
  intro spill ended
  rw [Option.mem_def, ← bytes, Option.map_eq_some_iff] at ended
  obtain ⟨f, is, rfl⟩ := ended
  exact (complete f is).agrees_iff.mpr (accepted f is)

theorem Running.admitted (runs : Running dw s running) (scanned : Scanned dw c)
    (admitted : Admitted dw s.builder.board_id_ running c) : ∃ s', process dw c s = .done s' := by
  obtain ⟨own, oneHeader, oneTrailer, alternating, agreeing⟩ := admitted
  have admissible := (runs.admissible_iff scanned).mpr ⟨own, oneHeader, oneTrailer, alternating⟩
  obtain ⟨m', f?, step⟩ := admissible.step runs.tidy scanned
  obtain ⟨-, bytes⟩ := step.follows runs.local_ scanned.toWellMarked
  obtain ⟨-, complete⟩ := step.tidy runs.tidy scanned
  refine ⟨_, process_of_localStep own runs.tidy.noTrailers step fun f is => ?_⟩
  refine (complete f is).agrees_iff.mp (agreeing f.payload ?_)
  rw [Option.mem_def, ← bytes, Option.mem_def.mp is, Option.map_some]

/-- Behind accepted containers a call returns or throws, as the description says. -/
theorem Running.decides (runs : Running dw s running) (scanned : Scanned dw c) :
    (∃ s', process dw c s = .done s' ∧ Admitted dw s.builder.board_id_ running c ∧
      Running dw s' (follow running c).1 ∧ s'.builder.board_id_ = s.builder.board_id_) ∨
      ((∃ e s', process dw c s = .threw e s') ∧ ¬ Admitted dw s.builder.board_id_ running c) := by
  cases called : process dw c s with
  | done s' => exact .inl ⟨s', rfl, runs.done scanned called⟩
  | threw e s' =>
      refine .inr ⟨⟨e, s', rfl⟩, fun admitted => ?_⟩
      obtain ⟨s'', returns⟩ := runs.admitted scanned admitted
      cases called.symm.trans returns
  | undefined fault => exact (process_defined scanned (.inl runs.tidy) called).elim

end Call

/-! ## All containers -/

section Sequence

open DataFragmentBuilder

variable {dw : MDdataWordBM} {running : Option (List UInt8)} {s : FragmentState}

theorem Running.accepts_iff (runs : Running dw s running) (cs : List RawContainer) :
    (∃ s', run (okStep dw) s (cs.map fun c => c.scanned dw) = some s') ↔
      Stated dw s.builder.board_id_ running (cs.map fun c => c.scanned dw) := by
  induction cs generalizing s running with
  | nil => exact iff_of_true ⟨s, rfl⟩ ⟨nofun, nofun, nofun, trivial, nofun⟩
  | cons c rest ih =>
      have scanned := c.scanned_spec dw
      rw [List.map_cons, stated_cons scanned, run_cons, okStep]
      rcases runs.decides scanned with ⟨s', called, admitted, runs', same⟩ | ⟨⟨e, s', called⟩, not⟩
      · rw [called, Outcome.returned?_done, Option.bind_some, ih runs', same]
        exact (and_iff_right admitted).symm
      · rw [called]
        exact iff_of_false (by simp [Outcome.returned?]) fun both => not both.1

/-- Outside the stated sequences, the first container that leads out of them is rejected. -/
theorem Running.throws_first (runs : Running dw s running) (cs : List RawContainer)
    (outside : ¬ Stated dw s.builder.board_id_ running (cs.map fun c => c.scanned dw)) :
    ∃ p c rest s' e s'', cs = p ++ c :: rest ∧
      Stated dw s.builder.board_id_ running (p.map fun c => c.scanned dw) ∧
      ¬ Stated dw s.builder.board_id_ running ((p ++ [c]).map fun c => c.scanned dw) ∧
      run (okStep dw) s (p.map fun c => c.scanned dw) = some s' ∧
      process dw (c.scanned dw) s' = .threw e s'' := by
  induction cs generalizing s running with
  | nil => exact (outside ⟨nofun, nofun, nofun, trivial, nofun⟩).elim
  | cons c rest ih =>
      have scanned := c.scanned_spec dw
      rcases runs.decides scanned with ⟨s', called, admitted, runs', same⟩ | ⟨⟨e, s', called⟩, not⟩
      · rw [List.map_cons, stated_cons scanned, and_iff_right admitted, ← same] at outside
        obtain ⟨p, c', rest', middle, e, last, rfl, inside, leaves, ran, throws⟩ := ih runs' outside
        refine ⟨c :: p, c', rest', middle, e, last, rfl, ?_, ?_, ?_, throws⟩
        · rw [List.map_cons, stated_cons scanned]
          exact ⟨admitted, same ▸ inside⟩
        · rw [List.cons_append, List.map_cons, stated_cons scanned]
          exact fun both => leaves (same ▸ both.2)
        · rw [List.map_cons, run_cons, okStep, called, Outcome.returned?_done, Option.bind_some]
          exact ran
      · refine ⟨[], c, rest, s, e, s', rfl, ⟨nofun, nofun, nofun, trivial, nofun⟩, ?_, rfl, called⟩
        rw [List.nil_append, List.map_singleton, stated_cons scanned]
        exact fun both => not both.1

/-- The builder of board `b` returns from all calls exactly on the stated sequences, and
    else throws at the first container that leaves them. -/
theorem accepted_sequences (dw : MDdataWordBM) (b : Int) (mem : Nat → UInt8)
    (out : BMDEventMemBank) (cs : List RawContainer) :
    ((∃ s, run (okStep dw) ⟨.new b mem, out⟩ (cs.map fun c => c.scanned dw) = some s) ↔
      Stated dw b none (cs.map fun c => c.scanned dw)) ∧
    (¬ Stated dw b none (cs.map fun c => c.scanned dw) →
      ∃ p c rest s e s', cs = p ++ c :: rest ∧
        Stated dw b none (p.map fun c => c.scanned dw) ∧
        ¬ Stated dw b none ((p ++ [c]).map fun c => c.scanned dw) ∧
        run (okStep dw) ⟨.new b mem, out⟩ (p.map fun c => c.scanned dw) = some s ∧
        process dw (c.scanned dw) s = .threw e s') := by
  have runs : Running dw ⟨.new b mem, out⟩ none :=
    ⟨.empty (BMDMemBank.fresh_size mem) rfl rfl, new_represents b mem⟩
  exact ⟨runs.accepts_iff cs, runs.throws_first cs⟩

end Sequence

end BMDaq
