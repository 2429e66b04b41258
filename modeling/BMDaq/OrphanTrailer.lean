import BMDaq.SpillChecks

/-! # The orphan trailer of the first spill

The firmware may send a trailer before the first header of a run. `process` forgives it in
the one branch that also sees the header: whether the first spill survives depends on
where the readout has cut the stream.
-/

namespace BMDaq

open Bytes Segments

/-- Header and trailer of a spill carry the same tag and the same board. -/
def Matching (dw : MDdataWordBM) (spill : List UInt32) : Prop := Agrees dw (wordBytes spill)

/-- A container with a spill trailer in it. -/
def WordContainer.hasTrailer (dw : MDdataWordBM) (c : WordContainer) : Bool := c.data.any dw.closes

/-- The first trailer of the cut shares its container with a spill header. -/
def Shielded (dw : MDdataWordBM) (cut : List WordContainer) : Prop :=
  ∃ c, cut.find? (WordContainer.hasTrailer dw) = some c ∧ ∃ w ∈ c.data, dw.opens w = true

/-- Scanner and builder take the cut without an error, the event bank receives the spills
    of `V` and nothing else, and the local bank keeps the one that `V` leaves open. -/
def Delivers (dw : MDdataWordBM) (b : Int) (mem : Nat → UInt8) (out : BMDEventMemBank)
    (scanner : BMDDataScanner) (V : List UInt32) (cut : List WordContainer) : Prop :=
  ∃ chain, run (BoardChain.step dw) ⟨scanner, ⟨.new b mem, out⟩⟩ (cut.map WordContainer.raw) =
      some chain ∧
    chain.state.out_data_.payload = out.payload ++ (dw.spills V).flatMap frame ∧
    chain.state.builder.mem_bank_.payload = ((dw.openSpill V).map wordBytes).getD []

/-- A cut into non-empty containers of one board with at most one spill marker of each
    kind. -/
def Pieces (dw : MDdataWordBM) (b : Int) (cut : List WordContainer) : Prop :=
  ∀ c ∈ cut, c.board_id_ = b ∧ c.data ≠ [] ∧ c.data.countP dw.opens ≤ 1 ∧
    c.data.countP dw.closes ≤ 1

section Stream

variable {dw : MDdataWordBM} {b : Int} {out : BMDEventMemBank} {chain : BoardChain}
  {read J V : List UInt32} {spill : List UInt32}

theorem Matching.passes (matching : Matching dw spill) : Passes dw spill := by
  intro f complete payload
  rw [Matching, ← payload, complete.agrees_iff] at matching
  exact matching

/-- On spills with a complete trailer the compared words are those of header and trailer. -/
theorem Sound.matching (sound : Sound dw spill) : Matching dw spill := by
  obtain ⟨long, h, t, first, third, tags, boards⟩ := sound
  refine ⟨h, t, ?_, ?_, tags, boards⟩
  · rw [← first]
    exact wordBytes_wordAt? spill 0
  · have place : (wordBytes spill).length - 4 =
        (encode 8 (8 + (wordBytes spill).length)).length + 4 * (spill.length - 3) := by
      simp only [wordBytes_length, encode_length]
      omega
    rw [place, wordAt?_append_right, wordBytes_wordAt?, third]

/-- Words without a header, read while no spill is open, leave no trace. -/
theorem spills_quiet (quiet : ∀ w ∈ J, dw.opens w = false) (V : List UInt32) :
    dw.spills (J ++ V) = dw.spills V ∧ dw.openSpill (J ++ V) = dw.openSpill V := by
  have skipped : feedAll dw.opens dw.closes ⟨none, []⟩ J = ⟨none, []⟩ := feedAll_skip [] quiet
  simp only [MDdataWordBM.spills, MDdataWordBM.openSpill, segments, remainder, feedAll_append,
    skipped, and_self]

/-- A stream without spill words is well formed. -/
theorem alternates_quiet (inside : Bool) (noHeader : ∀ w ∈ J, dw.opens w = false)
    (noTrailer : ∀ w ∈ J, dw.closes w = false) : Alternates dw.opens dw.closes inside J := by
  induction J with
  | nil => trivial
  | cons w rest ih =>
      have opens := noHeader w List.mem_cons_self
      have closes := noTrailer w List.mem_cons_self
      simp only [Alternates, opens, closes, Bool.false_eq_true, if_false]
      exact ih (fun v member => noHeader v (List.mem_cons_of_mem w member))
        (fun v member => noTrailer v (List.mem_cons_of_mem w member))

end Stream

section Cut

variable {dw : MDdataWordBM} {b : Int} {out : BMDEventMemBank} {chain : BoardChain}
  {J V : List UInt32} {cut : List WordContainer}

/-- Where the orphan trailer is found: no spill word lies in the containers before. -/
structure FirstTrailer (dw : MDdataWordBM) (J V : List UInt32) (cut : List WordContainer)
    (c : WordContainer) : Prop where
  found : cut.find? (WordContainer.hasTrailer dw) = some c
  place : ∃ pre post rest, cut = pre ++ c :: post ∧
    J = pre.flatMap WordContainer.data ++ rest ∧
    rest ++ V = c.data ++ post.flatMap WordContainer.data ∧
    ∀ w ∈ pre.flatMap WordContainer.data, dw.closes w = false

theorem firstTrailer (one : J.countP dw.closes = 1)
    (isCut : cut.flatMap WordContainer.data = J ++ V) : ∃ c, FirstTrailer dw J V cut c := by
  obtain ⟨t, inJ, closing⟩ : ∃ t ∈ J, dw.closes t = true := by
    rw [← List.countP_pos_iff, one]
    exact Nat.one_pos
  obtain ⟨holder, member, inside⟩ := List.mem_flatMap.mp
    (isCut ▸ List.mem_append_left V inJ : t ∈ cut.flatMap WordContainer.data)
  obtain ⟨c, found⟩ := Option.isSome_iff_exists.mp
    (List.find?_isSome (p := WordContainer.hasTrailer dw) |>.mpr ⟨holder, member, List.any_eq_true.mpr ⟨t, inside, closing⟩⟩)
  obtain ⟨-, pre, post, rfl, earlier⟩ := List.find?_eq_some_iff_append.mp found
  have noTrailer : ∀ w ∈ pre.flatMap WordContainer.data, dw.closes w = false := by
    intro w member
    obtain ⟨c', before, inside⟩ := List.mem_flatMap.mp member
    have none := earlier c' before
    simp only [WordContainer.hasTrailer, Bool.not_eq_eq_eq_not, Bool.not_true,
      List.any_eq_false, Bool.not_eq_true] at none
    exact none w inside
  refine ⟨c, found, pre, post, ?_⟩
  rw [List.flatMap_append, List.flatMap_cons, List.append_eq_append_iff] at isCut
  rcases isCut with ⟨rest, split, same⟩ | ⟨rest, split, -⟩
  · exact ⟨rest, rfl, split, same.symm, noTrailer⟩
  · have quiet := noTrailer t (split ▸ List.mem_append_left rest inJ)
    cases closing.symm.trans quiet

/-- Containers without spill words leave the builder idle. -/
theorem quiet_front {pre : List WordContainer} (scanner : BMDDataScanner) (mem : Nat → UInt8)
    (out : BMDEventMemBank) (pieces : Pieces dw b pre)
    (noHeader : ∀ w ∈ pre.flatMap WordContainer.data, dw.opens w = false)
    (noTrailer : ∀ w ∈ pre.flatMap WordContainer.data, dw.closes w = false) :
    ∃ chain, run (BoardChain.step dw) ⟨scanner, ⟨.new b mem, out⟩⟩ (pre.map WordContainer.raw) =
        some chain ∧
      Holds dw b out chain (pre.flatMap WordContainer.data) ∧
      chain.state.builder.mem_bank_.spill_headers_ = [] := by
  have nothing := spills_quiet noHeader []
  rw [List.append_nil] at nothing
  obtain ⟨chain, ran, holds⟩ := (Holds.new scanner mem out).run
    (alternates_quiet _ noHeader noTrailer) pieces (by
      rw [List.nil_append, nothing.1]
      exact nofun)
  have rep := holds.local_
  rw [List.nil_append] at holds rep
  rw [nothing.2] at rep
  exact ⟨chain, ran, holds, rep.1⟩

/-- An idle builder takes a container with a header, whether or not it starts with a trailer. -/
theorem Holds.admissible_idle (holds : Holds dw b out chain J)
    (noneOpen : chain.state.builder.mem_bank_.spill_headers_ = []) {c : WordContainer}
    (piece : c.board_id_ = b ∧ c.data ≠ [] ∧ c.data.countP dw.opens ≤ 1 ∧
      c.data.countP dw.closes ≤ 1)
    (header : ∃ w ∈ c.data, dw.opens w = true) :
    Admissible chain.state.builder (c.raw.scanned dw) := by
  obtain ⟨own, -, oneHeader, oneTrailer⟩ := piece
  have made := c.ofWords dw
  refine ⟨?_, ?_, ?_, holds.tidy.noTrailers, ?_, fun busy => (busy noneOpen).elim⟩
  · rw [RawContainer.scanned_boardId, holds.board]
    exact own
  · rw [made.headers]
    exact (offsetsOf_length .SpillHeader c.data 0).trans_le oneHeader
  · rw [made.trailers]
    exact (offsetsOf_length .SpillTrailer2 c.data 0).trans_le oneTrailer
  · intro _ absent
    obtain ⟨w, member, opening⟩ := header
    rw [made.headers] at absent
    exact (offsetsOf_nil.mp absent w member (opens_iff.mp opening)).elim

/-- If the orphan trailer shares its container with a header, the builder reads the stream
    as if it began with the spills. -/
theorem FirstTrailer.delivers {c : WordContainer} (first : FirstTrailer dw J V cut c)
    (scanner : BMDDataScanner) (mem : Nat → UInt8) (out : BMDEventMemBank)
    (noHeader : ∀ w ∈ J, dw.opens w = false) (alternates : Alternates dw.opens dw.closes false V)
    (matching : ∀ spill ∈ dw.spills V, Matching dw spill) (pieces : Pieces dw b cut)
    (header : ∃ w ∈ c.data, dw.opens w = true) : Delivers dw b mem out scanner V cut := by
  obtain ⟨pre, post, rest, rfl, rfl, same, noTrailer⟩ := first.place
  -- The header lies behind the words of `J`, so the container reaches into the spills.
  obtain ⟨front, split, rfl⟩ : ∃ front, c.data = rest ++ front ∧
      V = front ++ post.flatMap WordContainer.data := by
    rcases List.append_eq_append_iff.mp same with ⟨front, split, tail⟩ | ⟨front, split, -⟩
    · exact ⟨front, split, tail⟩
    · obtain ⟨w, member, opening⟩ := header
      have quiet := noHeader w
        (List.mem_append_right _ (split ▸ List.mem_append_left front member))
      cases opening.symm.trans quiet
  obtain ⟨idle, ranBefore, holds, noneOpen⟩ := quiet_front scanner mem out
    (fun c member => pieces c (List.mem_append_left _ member))
    (fun w member => noHeader w (List.mem_append_left rest member)) noTrailer
  have piece := pieces c (by simp)
  have admissible := holds.admissible_idle noneOpen piece header
  -- What has been read from here on is `J` and a beginning of the spills.
  have readJ (more : List UInt32) : pre.flatMap WordContainer.data ++ c.data ++ more =
      pre.flatMap WordContainer.data ++ rest ++ (front ++ more) := by
    rw [split]
    simp only [List.append_assoc]
  have read := readJ []
  rw [List.append_nil, List.append_nil] at read
  obtain ⟨spillsFront, openFront⟩ := spills_quiet noHeader front
  obtain ⟨after, stepped, holds'⟩ := holds.advance piece.2.1 admissible (by
    intro spill member
    rw [read, spillsFront] at member
    refine (matching spill ?_).passes
    rw [MDdataWordBM.spills, segments_append]
    exact List.mem_append_left _ member)
  have alternatesRest := (Alternates.split none [] alternates).2
  obtain ⟨spillsAll, openAll⟩ := spills_quiet noHeader (front ++ post.flatMap WordContainer.data)
  obtain ⟨chain, ran, holds''⟩ := holds'.run
    (by rw [read, openFront]; exact alternatesRest)
    (fun c' member => pieces c' (List.mem_append_right _ (List.mem_cons_of_mem c member)))
    (by
      rw [readJ, spillsAll]
      exact fun spill member => (matching spill member).passes)
  refine ⟨chain, ?_, ?_, ?_⟩
  · rw [List.map_append, run_append, ranBefore, Option.bind_some, List.map_cons, run_cons, stepped]
    exact ran
  · rw [← spillsAll, ← readJ]
    exact holds''.moved
  · rw [← openAll, ← readJ]
    exact holds''.local_.payload

/-- If it does not, its container is rejected. -/
theorem FirstTrailer.shielded {c : WordContainer} (first : FirstTrailer dw J V cut c)
    {scanner : BMDDataScanner} {mem : Nat → UInt8} {out : BMDEventMemBank}
    (noHeader : ∀ w ∈ J, dw.opens w = false) (pieces : Pieces dw b cut)
    {chain : BoardChain} (ran : run (BoardChain.step dw) ⟨scanner, ⟨.new b mem, out⟩⟩
      (cut.map WordContainer.raw) = some chain) : ∃ w ∈ c.data, dw.opens w = true := by
  obtain ⟨pre, post, rest, rfl, rfl, -, noTrailer⟩ := first.place
  obtain ⟨idle, ranBefore, holds, noneOpen⟩ := quiet_front scanner mem out
    (fun c member => pieces c (List.mem_append_left _ member))
    (fun w member => noHeader w (List.mem_append_left rest member)) noTrailer
  obtain ⟨-, some, -⟩ := pieces c (by simp)
  have made := c.ofWords dw
  rw [List.map_append, run_append, ranBefore, Option.bind_some, List.map_cons, run_cons] at ran
  obtain ⟨after, stepped, -⟩ := Option.bind_eq_some_iff.mp ran
  obtain ⟨ok, marks⟩ := scan_words dw idle.scanner some
  rcases scan : BMDDataScanner.process dw idle.scanner c.raw.toContainer with ⟨status, scanned⟩
  simp only [scan] at ok marks
  subst ok
  simp only [BoardChain.step, scan, marks, Option.map_eq_some_iff, Outcome.returned?_eq_some]
    at stepped
  obtain ⟨s, called, -⟩ := stepped
  obtain ⟨own, clean, m', f?, step, -, -⟩ := DataFragmentBuilder.process_done called
  by_contra none
  push Not at none
  have noHeaders : (c.raw.scanned dw).spill_headers_ = [] :=
    made.headers.trans (offsetsOf_nil.mpr fun w member typed => none w member (opens_iff.mpr typed))
  have noTrailers := (step.admissible own clean).idle noneOpen noHeaders
  have holds : c.hasTrailer dw = true := List.find?_some first.found
  obtain ⟨t, member, closing⟩ := List.any_eq_true.mp holds
  rw [made.trailers] at noTrailers
  exact offsetsOf_nil.mp noTrailers t member (closes_iff.mp closing)

/-- One cut delivers the spills exactly when its orphan trailer is shielded by a header. -/
theorem delivers_iff (scanner : BMDDataScanner) (mem : Nat → UInt8) (out : BMDEventMemBank)
    (noHeader : ∀ w ∈ J, dw.opens w = false) (one : J.countP dw.closes = 1)
    (alternates : Alternates dw.opens dw.closes false V)
    (matching : ∀ spill ∈ dw.spills V, Matching dw spill)
    (isCut : cut.flatMap WordContainer.data = J ++ V) (pieces : Pieces dw b cut) :
    Delivers dw b mem out scanner V cut ↔ Shielded dw cut := by
  obtain ⟨c, first⟩ := firstTrailer one isCut
  constructor
  · rintro ⟨chain, ran, -, -⟩
    exact ⟨c, first.found, first.shielded noHeader pieces ran⟩
  · rintro ⟨c', found, header⟩
    obtain rfl := Option.some.inj (found.symm.trans first.found)
    exact first.delivers scanner mem out noHeader alternates matching pieces header

/-- Two cuts of a stream that begins with one orphan trailer both deliver its spills, with
    no error, exactly when in each of them the orphan trailer shares its container with a
    header. -/
theorem orphan_trailer_tolerated_iff {cut' : List WordContainer}
    (noHeader : ∀ w ∈ J, dw.opens w = false) (one : J.countP dw.closes = 1)
    (alternates : Alternates dw.opens dw.closes false V)
    (matching : ∀ spill ∈ dw.spills V, Matching dw spill)
    (isCut : cut.flatMap WordContainer.data = J ++ V) (pieces : Pieces dw b cut)
    (isCut' : cut'.flatMap WordContainer.data = J ++ V) (pieces' : Pieces dw b cut')
    (scanner scanner' : BMDDataScanner) (mem mem' : Nat → UInt8) (out : BMDEventMemBank) :
    (Delivers dw b mem out scanner V cut ∧ Delivers dw b mem' out scanner' V cut') ↔
      Shielded dw cut ∧ Shielded dw cut' := by
  rw [delivers_iff scanner mem out noHeader one alternates matching isCut pieces,
    delivers_iff scanner' mem' out noHeader one alternates matching isCut' pieces']

theorem Shielded.head {c : WordContainer} {rest : List WordContainer}
    (trailer : c.hasTrailer dw = true) (header : ∃ w ∈ c.data, dw.opens w = true) :
    Shielded dw (c :: rest) :=
  ⟨c, List.find?_cons_of_pos trailer, header⟩

end Cut

section Example

open FakeData

/-- A cut of the orphan trailer and the first spill behind it: the container with the
    orphan trailer also has the header. -/
def lateCut : List WordContainer :=
  [⟨[0x70000001, spillHeader 5 5, 0x60a00005], 5, by decide⟩,
    ⟨[0x60a00000, 0x70000001], 5, by decide⟩]

/-- The same words; the orphan trailer comes in a container of its own. -/
def earlyCut : List WordContainer :=
  [⟨[0x70000001], 5, by decide⟩, ⟨shortSpill 5 5, 5, by decide⟩]

theorem shortSpill_matching :
    ∀ spill ∈ fakeWord.spills (shortSpill 5 5), Matching fakeWord spill := by
  have one : fakeWord.spills (shortSpill 5 5) = [shortSpill 5 5] := by decide +kernel
  rw [one]
  simp only [List.mem_singleton, forall_eq]
  exact Sound.matching ⟨by decide, spillHeader 5 5, 0x60a00005, rfl, rfl, by decide +kernel,
    by decide +kernel⟩

theorem orphan_tolerated_late :
    Delivers fakeWord 5 (fun _ => 0) (.fresh fun _ => 0) ⟨0⟩ (shortSpill 5 5) lateCut ∧
      Delivers fakeWord 5 (fun _ => 0) (.fresh fun _ => 0) ⟨0⟩ (shortSpill 5 5)
        [⟨[0x70000001, spillHeader 5 5], 5, by decide⟩,
          ⟨[0x60a00005, 0x60a00000, 0x70000001], 5, by decide⟩] := by
  refine (orphan_trailer_tolerated_iff (J := [0x70000001])
    (List.forall_mem_singleton.mpr (by decide +kernel)) (by decide +kernel) (by decide +kernel)
    shortSpill_matching (by decide +kernel)
    (by simp only [Pieces]; decide +kernel) (by decide +kernel)
    (by simp only [Pieces]; decide +kernel) ⟨0⟩ ⟨0⟩ (fun _ => 0) (fun _ => 0)
    (.fresh fun _ => 0)).mpr ⟨?_, ?_⟩
  · exact .head (by decide +kernel) ⟨spillHeader 5 5, by decide +kernel, by decide +kernel⟩
  · exact .head (by decide +kernel) ⟨spillHeader 5 5, by decide +kernel, by decide +kernel⟩

/-- Both are cuts of one such stream; the first delivers the spill, the second ends in the
    error of the last line of `process`. -/
theorem orphan_outcome_depends_on_cut :
    lateCut.flatMap WordContainer.data = [0x70000001] ++ shortSpill 5 5 ∧
      earlyCut.flatMap WordContainer.data = [0x70000001] ++ shortSpill 5 5 ∧
      Pieces fakeWord 5 lateCut ∧ Pieces fakeWord 5 earlyCut ∧
      Alternates fakeWord.opens fakeWord.closes false (shortSpill 5 5) ∧
      (∀ spill ∈ fakeWord.spills (shortSpill 5 5), Matching fakeWord spill) ∧
      Delivers fakeWord 5 (fun _ => 0) (.fresh fun _ => 0) ⟨0⟩ (shortSpill 5 5) lateCut ∧
      ¬ Delivers fakeWord 5 (fun _ => 0) (.fresh fun _ => 0) ⟨0⟩ (shortSpill 5 5) earlyCut ∧
      (DataFragmentBuilder.process fakeWord (makeContainer 5 [0x70000001])
        ⟨.new 5 fun _ => 0, .fresh fun _ => 0⟩).thrown? =
          some DataFragmentBuilder.inconsistentData := by
  have late : Pieces fakeWord 5 lateCut := by
    simp only [Pieces]
    decide +kernel
  have early : Pieces fakeWord 5 earlyCut := by
    simp only [Pieces]
    decide +kernel
  have decides {cut : List WordContainer}
      (isCut : cut.flatMap WordContainer.data = [0x70000001] ++ shortSpill 5 5)
      (pieces : Pieces fakeWord 5 cut) :=
    delivers_iff ⟨0⟩ (fun _ => 0) (.fresh fun _ => 0)
      (List.forall_mem_singleton.mpr (by decide +kernel)) (by decide +kernel) (by decide +kernel)
      shortSpill_matching isCut pieces
  have unshielded : ¬ Shielded fakeWord earlyCut := by
    rintro ⟨c, found, w, member, opening⟩
    rw [earlyCut, List.find?_cons_of_pos (by decide +kernel)] at found
    obtain rfl := Option.some.inj found
    obtain rfl := List.mem_singleton.mp member
    exact absurd opening (by decide +kernel)
  refine ⟨by decide +kernel, by decide +kernel, late, early, by decide +kernel,
    shortSpill_matching, ?_, ?_, by decide +kernel⟩
  · exact (decides (by decide +kernel) late).mpr
      (.head (by decide +kernel) ⟨spillHeader 5 5, by decide +kernel, by decide +kernel⟩)
  · exact fun delivers => unshielded ((decides (by decide +kernel) early).mp delivers)

end Example

end BMDaq
