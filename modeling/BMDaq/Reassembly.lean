import BMDaq.WordStream

/-! # Reassembly of spills

Scanner and fragment builder of one board, fed with a well formed word stream in pieces.
Every piece with at most one header and one trailer finds a branch of the builder that
accepts it, so no call throws, and by the refinement of the word stream the result does
not depend on where the pieces end.
-/

namespace BMDaq

open Bytes Segments

/-- The scanner of a stream and the fragment builder of one board behind it. -/
structure BoardChain where
  scanner : BMDDataScanner
  state : FragmentState

/-- A container goes through `BMDDataScanner::process` and `DataFragmentBuilder::process`;
    the step fails where either reports an error. -/
def BoardChain.step (dw : MDdataWordBM) (chain : BoardChain) (c : RawContainer) :
    Option BoardChain :=
  match BMDDataScanner.process dw chain.scanner c.toContainer with
  | (.OK_s, scan) =>
      (DataFragmentBuilder.process dw scan.output_ chain.state).returned?.map
        fun s => ⟨⟨scan.trigger_tag_⟩, s⟩
  | _ => none

/-- The fragment of a spill: the header with the size of both, and the words. -/
def frame (spill : List UInt32) : List UInt8 :=
  encode 8 (8 + 4 * spill.length) ++ wordBytes spill

/-- What the check of `moveToEventBank` is meant to ask of a spill. -/
def Sound (dw : MDdataWordBM) (spill : List UInt32) : Prop :=
  4 ≤ spill.length ∧ Consistent dw spill

/-- A bank that completes this spill passes the check as it is made. -/
def Passes (dw : MDdataWordBM) (spill : List UInt32) : Prop :=
  ∀ f : BMDBoardMemBank, Completed dw f → f.payload = wordBytes spill → Accepted dw f

theorem Sound.passes {dw : MDdataWordBM} {spill : List UInt32} (sound : Sound dw spill) :
    Passes dw spill := by
  intro f complete payload
  have long := sound.1
  exact (complete.accepted_iff payload (by omega)).mpr sound.2

section Guards

variable {dw : MDdataWordBM} {c : UFEDataContainer} {builder : DataFragmentBuilder}

theorem Scanned.tail_inRange (scanned : Scanned dw c) {h : Nat} (member : h ∈ c.spill_headers_) :
    c.InRange (h % 2 ^ 32) (sizeSub c.size h) := by
  have inside := scanned.headers h member
  have fits := scanned.fits
  rw [UFEDataContainer.InRange, Nat.mod_eq_of_lt (by omega), sizeSub_of_le (by omega)]
  omega

theorem Scanned.front_inRange (scanned : Scanned dw c) {t : Nat} (member : t ∈ c.spill_trailers_) :
    c.InRange 0 (t + 4) := by
  have inside := scanned.trailers t member
  rw [UFEDataContainer.InRange]
  omega

theorem Scanned.whole_inRange (scanned : Scanned dw c) {h t : Nat}
    (member : t ∈ c.spill_trailers_) (after : h ≤ t) :
    c.InRange (h % 2 ^ 32) (sizeSub t h + 4) := by
  have inside := scanned.trailers t member
  have fits := scanned.fits
  rw [UFEDataContainer.InRange, Nat.mod_eq_of_lt (by omega), sizeSub_of_le after]
  omega

theorem none_or_one {xs : List Nat} (few : xs.length ≤ 1) : xs = [] ∨ ∃ x, xs = [x] := by
  match xs, few with
  | [], _ => exact .inl rfl
  | [x], _ => exact .inr ⟨x, rfl⟩

/-- The container passes every guard of `process`: the board, the number of markers and
    their order. -/
structure Admissible (builder : DataFragmentBuilder) (c : UFEDataContainer) : Prop where
  own : c.boardId = builder.board_id_
  fewHeaders : c.spill_headers_.length ≤ 1
  fewTrailers : c.spill_trailers_.length ≤ 1
  clean : builder.mem_bank_.spill_trailers_ = []
  idle : builder.mem_bank_.spill_headers_ = [] → c.spill_headers_ = [] → c.spill_trailers_ = []
  busy : builder.mem_bank_.spill_headers_ ≠ [] →
    ∀ h ∈ c.spill_headers_, ∃ t ∈ c.spill_trailers_, t ≤ h

/-- On scanned containers one of the branches then takes it. -/
theorem Admissible.step (admissible : Admissible builder c) (tidy : LocalTidy dw builder.mem_bank_)
    (scanned : Scanned dw c) : ∃ m' f?, LocalStep c builder.mem_bank_ m' f? := by
  obtain ⟨-, fewHeaders, fewTrailers, -, idle, busy⟩ := admissible
  cases tidy with
  | empty size none clean =>
      rcases none_or_one fewHeaders with quiet | ⟨h, headers⟩
      · exact ⟨_, _, .ignored none quiet (idle none quiet)⟩
      · have tail := scanned.tail_inRange (h := h) (by simp [headers])
        rcases none_or_one fewTrailers with absent | ⟨t, trailers⟩
        · exact ⟨_, _, .opened h none headers (.inl absent) tail⟩
        · by_cases after : h ≤ t
          · exact ⟨_, _, .whole h t none headers trailers after
              (scanned.whole_inRange (by simp [trailers]) after)⟩
          · exact ⟨_, _, .opened h none headers (.inr ⟨t, trailers, by omega⟩) tail⟩
  | filling w markers =>
      have busy := busy (by simp [markers])
      rcases none_or_one fewHeaders with quiet | ⟨h, headers⟩
      · rcases none_or_one fewTrailers with absent | ⟨t, trailers⟩
        · exact ⟨_, _, .extended 8 markers quiet absent⟩
        · exact ⟨_, _, .closed 8 t markers quiet trailers
            (scanned.front_inRange (by simp [trailers]))⟩
      · obtain ⟨t, member, before⟩ := busy h (by simp [headers])
        have tail := scanned.tail_inRange (h := h) (by simp [headers])
        rcases none_or_one fewTrailers with absent | ⟨t', trailers⟩
        · rw [absent] at member
          cases member
        · obtain rfl : t = t' := by simpa [trailers] using member
          exact ⟨_, _, .turned 8 h t markers headers trailers before
            (scanned.front_inRange member) tail⟩

end Guards

section Pieces

variable {dw : MDdataWordBM} {c : UFEDataContainer} {ws : List UInt32}
  {running : Option (List UInt32)} {builder : DataFragmentBuilder}

theorem offsetsOf_length (type : DataType) (ws : List UInt32) (xDw : Nat) :
    (offsetsOf dw type ws xDw).length = ws.countP fun w => decide (dw.GetDataType w = type) := by
  induction ws generalizing xDw with
  | nil => rfl
  | cons w rest ih =>
      by_cases typed : dw.GetDataType w = type
      · simp [offsetsOf, typed, ih]
      · simp [offsetsOf, typed, ih]

/-- Inside a spill a trailer comes before any header. -/
theorem trailer_first {h t : Nat} (alternates : Alternates dw.opens dw.closes true ws)
    (headers : offsetsOf dw .SpillHeader ws 0 = [h])
    (trailers : offsetsOf dw .SpillTrailer2 ws 0 = [t]) : t ≤ h := by
  by_contra before
  obtain ⟨pre, w, mid, v, post, rfl, opening, -, -, -, -, quiet, -⟩ :=
    offsetsOf_two (by decide) headers trailers (by omega)
  have rest := (Alternates.split (some []) [] alternates).2
  rw [feedAll_extend [] [] fun x member => closes_false.mpr (quiet x member)] at rest
  simp [Alternates, opens_iff.mpr opening] at rest

/-- A well formed piece of the stream passes the guards. -/
theorem Admissible.of_alternates (own : c.boardId = builder.board_id_)
    (tidy : LocalTidy dw builder.mem_bank_)
    (rep : Represents builder.mem_bank_ (running.map wordBytes))
    (made : OfWords dw c ws) (alternates : Alternates dw.opens dw.closes running.isSome ws)
    (oneHeader : ws.countP dw.opens ≤ 1) (oneTrailer : ws.countP dw.closes ≤ 1) :
    Admissible builder c := by
  have fewHeaders := (offsetsOf_length .SpillHeader ws 0).trans_le oneHeader
  have fewTrailers := (offsetsOf_length .SpillTrailer2 ws 0).trans_le oneTrailer
  rw [← made.headers] at fewHeaders
  rw [← made.trailers] at fewTrailers
  refine ⟨own, fewHeaders, fewTrailers, tidy.noTrailers, ?_, ?_⟩
  · intro none quiet
    obtain rfl : running = .none := Option.map_eq_none_iff.mp (rep.idle none).1
    rw [made.headers] at quiet
    have unclosed := alternates.no_close fun w member =>
      opens_false.mpr (offsetsOf_nil.mp quiet w member)
    rw [made.trailers]
    exact offsetsOf_nil.mpr fun w member => closes_false.mp (unclosed w member)
  · intro filled h member
    obtain ⟨spill, rfl⟩ : ∃ spill, running = some spill := by
      cases running with
      | none => exact (filled rep.1).elim
      | some spill => exact ⟨spill, rfl⟩
    rcases none_or_one fewHeaders with absent | ⟨h', headers⟩
    · rw [absent] at member
      cases member
    obtain rfl : h = h' := by simpa [headers] using member
    rcases none_or_one fewTrailers with absent | ⟨t, trailers⟩
    · rw [made.trailers] at absent
      have unopened := alternates.no_open fun w member =>
        closes_false.mpr (offsetsOf_nil.mp absent w member)
      have none : c.spill_headers_ = [] := made.headers.trans
        (offsetsOf_nil.mpr fun w member => opens_false.mp (unopened w member))
      rw [none] at member
      cases member
    · exact ⟨t, by simp [trailers], trailer_first alternates (made.headers.symm.trans headers)
        (made.trailers.symm.trans trailers)⟩

end Pieces

section Stream

variable {dw : MDdataWordBM} {b : Int} {out : BMDEventMemBank} {chain : BoardChain}
  {read : List UInt32}

/-- The chain after the words `read`: complete spills have been moved to the event bank,
    the open one is in the local bank. -/
structure Holds (dw : MDdataWordBM) (b : Int) (out : BMDEventMemBank) (chain : BoardChain)
    (read : List UInt32) : Prop where
  board : chain.state.builder.board_id_ = b
  tidy : LocalTidy dw chain.state.builder.mem_bank_
  local_ : Represents chain.state.builder.mem_bank_ ((dw.openSpill read).map wordBytes)
  moved : chain.state.out_data_.payload = out.payload ++ (dw.spills read).flatMap frame

/-- A new builder has read nothing. -/
theorem Holds.new {dw : MDdataWordBM} {b : Int} (scanner : BMDDataScanner) (mem : Nat → UInt8)
    (out : BMDEventMemBank) : Holds dw b out ⟨scanner, ⟨.new b mem, out⟩⟩ [] where
  board := rfl
  tidy := .empty (BMDMemBank.fresh_size mem) rfl rfl
  local_ := new_represents b mem
  moved := (List.append_nil _).symm

/-- The scanner accepts every container with a word in it. -/
theorem scan_words (dw : MDdataWordBM) (scanner : BMDDataScanner) {c : WordContainer} (some : c.data ≠ []) :
    (BMDDataScanner.process dw scanner c.raw.toContainer).1 = .OK_s ∧
      (BMDDataScanner.process dw scanner c.raw.toContainer).2.output_ = c.raw.scanned dw := by
  have large : 4 ≤ c.raw.toContainer.size := by
    have pos := List.length_pos_iff.mpr some
    simp only [WordContainer.raw, RawContainer.toContainer, UFEDataContainer.size, wordBytes_length]
    omega
  obtain ⟨ok, marks⟩ := BMDDataScanner.process_output dw scanner large
  have same := (BMDDataScanner.process_output dw ⟨0⟩ large).2
  exact ⟨ok, marks.trans same.symm⟩

/-- One piece that passes the guards, where the spill it may end passes the check. -/
theorem Holds.advance (holds : Holds dw b out chain read) {c : WordContainer} (some : c.data ≠ [])
    (admissible : Admissible chain.state.builder (c.raw.scanned dw))
    (passing : ∀ spill ∈ dw.spills (read ++ c.data), Passes dw spill) :
    ∃ chain', chain.step dw c.raw = .some chain' ∧ Holds dw b out chain' (read ++ c.data) := by
  have made := c.ofWords dw
  obtain ⟨m', f?, step⟩ := admissible.step holds.tidy made.scanned
  obtain ⟨next, spill?, fed, rep', bytes⟩ := step.feeds made holds.local_
  obtain ⟨tidy', complete⟩ := step.tidy holds.tidy made.scanned
  have spills : dw.spills (read ++ c.data) = dw.spills read ++ spill?.toList := by
    rw [MDdataWordBM.spills, segments_append]
    exact congrArg (_ ++ Cut.closed ·) fed
  have running : dw.openSpill (read ++ c.data) = next := by
    rw [MDdataWordBM.openSpill, remainder_append]
    exact congrArg Cut.running fed
  have handed (f : BMDBoardMemBank) (is : f ∈ f?) :
      ∃ spill, spill? = .some spill ∧ f.payload = wordBytes spill := by
    rw [Option.mem_def.mp is, Option.map_some] at bytes
    obtain ⟨spill, found, same⟩ := Option.map_eq_some_iff.mp bytes.symm
    exact ⟨spill, found, same.symm⟩
  have accepted : ∀ f ∈ f?, Accepted dw f := by
    intro f is
    obtain ⟨spill, rfl, payload⟩ := handed f is
    exact passing spill (by simp [spills]) f (complete f is) payload
  have called := DataFragmentBuilder.process_of_localStep admissible.own holds.tidy.noTrailers step
    accepted
  obtain ⟨ok, marks⟩ := scan_words dw chain.scanner some
  rcases scan : BMDDataScanner.process dw chain.scanner c.raw.toContainer with ⟨status, after⟩
  simp only [scan] at ok marks
  subst ok
  refine ⟨⟨⟨after.trigger_tag_⟩, ⟨⟨chain.state.builder.board_id_, m'⟩,
    chain.state.out_data_.receive? f?⟩⟩, ?_, holds.board, tidy', by rw [running]; exact rep', ?_⟩
  · simp only [BoardChain.step, scan, marks, called, Outcome.returned?_done, Option.map_some]
  · rw [spills, List.flatMap_append, ← List.append_assoc, ← holds.moved]
    cases f? with
    | none =>
        rw [Option.map_none] at bytes
        rw [Option.map_eq_none_iff.mp bytes.symm]
        simp [BMDMemBank.receive?]
    | some f =>
        obtain ⟨spill, rfl, payload⟩ := handed f rfl
        have framed : f.buf = frame spill := by
          rw [BMDMemBank.fragment_buf (complete f rfl).sized, payload, wordBytes_length, frame]
        simp only [BMDMemBank.receive?, BMDMemBank.receive_payload, framed, Option.toList_some,
          List.flatMap_cons, List.flatMap_nil, List.append_nil]

/-- One well formed piece. -/
theorem Holds.step (holds : Holds dw b out chain read) {c : WordContainer}
    (own : c.board_id_ = b) (some : c.data ≠ [])
    (alternates : Alternates dw.opens dw.closes (dw.openSpill read).isSome c.data)
    (oneHeader : c.data.countP dw.opens ≤ 1) (oneTrailer : c.data.countP dw.closes ≤ 1)
    (passing : ∀ spill ∈ dw.spills (read ++ c.data), Passes dw spill) :
    ∃ chain', chain.step dw c.raw = .some chain' ∧ Holds dw b out chain' (read ++ c.data) := by
  have sameBoard : (c.raw.scanned dw).boardId = chain.state.builder.board_id_ := by
    rw [RawContainer.scanned_boardId, holds.board]
    exact own
  exact holds.advance some (Admissible.of_alternates sameBoard holds.tidy holds.local_
    (c.ofWords dw) alternates oneHeader oneTrailer) passing

/-- All pieces, one after the other. -/
theorem Holds.run {cut : List WordContainer} (holds : Holds dw b out chain read)
    (alternates : Alternates dw.opens dw.closes (dw.openSpill read).isSome
      (cut.flatMap WordContainer.data))
    (pieces : ∀ c ∈ cut, c.board_id_ = b ∧ c.data ≠ [] ∧ c.data.countP dw.opens ≤ 1 ∧
      c.data.countP dw.closes ≤ 1)
    (passing : ∀ spill ∈ dw.spills (read ++ cut.flatMap WordContainer.data), Passes dw spill) :
    ∃ chain', BMDaq.run (BoardChain.step dw) chain (cut.map WordContainer.raw) = some chain' ∧
      Holds dw b out chain' (read ++ cut.flatMap WordContainer.data) := by
  induction cut generalizing chain read with
  | nil => exact ⟨chain, rfl, by simpa using holds⟩
  | cons c rest ih =>
      obtain ⟨own, some, oneHeader, oneTrailer⟩ := pieces c List.mem_cons_self
      rw [List.flatMap_cons] at alternates passing ⊢
      obtain ⟨here, later⟩ := Alternates.split (dw.openSpill read) [] alternates
      rw [← List.append_assoc] at passing ⊢
      have passingHere : ∀ spill ∈ dw.spills (read ++ c.data), Passes dw spill := by
        intro spill member
        apply passing spill
        rw [MDdataWordBM.spills, segments_append]
        exact List.mem_append_left _ member
      obtain ⟨middle, stepped, holds'⟩ := holds.step own some here oneHeader oneTrailer passingHere
      have opened : dw.openSpill (read ++ c.data) =
          (feedAll dw.opens dw.closes ⟨dw.openSpill read, []⟩ c.data).running :=
        remainder_append read c.data
      rw [← opened] at later
      obtain ⟨chain', ran, final⟩ := ih holds' later
        (fun c' member => pieces c' (List.mem_cons_of_mem c member)) passing
      refine ⟨chain', ?_, final⟩
      rw [List.map_cons, run_cons, stepped]
      exact ran

/-- However a well formed word stream is cut into containers with at most one header and
    one trailer each, no call throws, the event bank receives exactly the spills of the
    stream, and the local bank is left with the open one. -/
theorem spills_reassembled {W : List UInt32} {cut : List WordContainer} (scanner : BMDDataScanner)
    (mem : Nat → UInt8) (out : BMDEventMemBank)
    (alternates : Alternates dw.opens dw.closes false W)
    (sound : ∀ spill ∈ dw.spills W, Sound dw spill) (isCut : cut.flatMap WordContainer.data = W)
    (pieces : ∀ c ∈ cut, c.board_id_ = b ∧ c.data ≠ [] ∧ c.data.countP dw.opens ≤ 1 ∧
      c.data.countP dw.closes ≤ 1) :
    ∃ chain, run (BoardChain.step dw) ⟨scanner, ⟨.new b mem, out⟩⟩ (cut.map WordContainer.raw) =
        some chain ∧
      chain.state.out_data_.payload = out.payload ++ (dw.spills W).flatMap frame ∧
      chain.state.builder.mem_bank_.payload = ((dw.openSpill W).map wordBytes).getD [] := by
  subst isCut
  obtain ⟨chain, ran, holds⟩ := (Holds.new scanner mem out).run alternates pieces
    fun spill member => (sound spill member).passes
  exact ⟨chain, ran, holds.moved, holds.local_.payload⟩

open FakeData in
/-- A spill cut inside its trailer, the next one left open. -/
theorem spill_cut_in_trailer :
    ∃ chain, run (BoardChain.step fakeWord) ⟨⟨0⟩, ⟨.new 5 fun _ => 0, .fresh fun _ => 0⟩⟩
        [RawContainer.mk (wordBytes [filler, spillHeader 5 5, 0x60a00005]) 5 (by decide),
          RawContainer.mk (wordBytes [0x60a00000, 0x70000001, filler, spillHeader 5 6]) 5
            (by decide)] = some chain ∧
      chain.state.out_data_.payload = encode 8 24 ++ wordBytes (shortSpill 5 5) ∧
      chain.state.builder.mem_bank_.payload = wordBytes [spillHeader 5 6] := by
  let cut : List WordContainer :=
    [⟨[filler, spillHeader 5 5, 0x60a00005], 5, by decide⟩,
      ⟨[0x60a00000, 0x70000001, filler, spillHeader 5 6], 5, by decide⟩]
  have one : fakeWord.spills (cut.flatMap WordContainer.data) = [shortSpill 5 5] := by
    decide +kernel
  have opened : fakeWord.openSpill (cut.flatMap WordContainer.data) = some [spillHeader 5 6] := by
    decide +kernel
  have sound : ∀ spill ∈ fakeWord.spills (cut.flatMap WordContainer.data), Sound fakeWord spill := by
    rw [one]
    simp only [List.mem_singleton, forall_eq]
    exact ⟨by decide, spillHeader 5 5, 0x60a00005, rfl, rfl, by decide +kernel, by decide +kernel⟩
  have pieces : ∀ c ∈ cut, c.board_id_ = 5 ∧ c.data ≠ [] ∧ c.data.countP fakeWord.opens ≤ 1 ∧
      c.data.countP fakeWord.closes ≤ 1 := by decide +kernel
  obtain ⟨chain, ran, moved, left⟩ := spills_reassembled ⟨0⟩ (fun _ => 0) (.fresh fun _ => 0)
    (by decide +kernel) sound rfl pieces
  rw [one] at moved
  rw [opened] at left
  exact ⟨chain, ran, by simpa [frame, shortSpill, spillTrailer] using moved, left⟩

end Stream

end BMDaq
