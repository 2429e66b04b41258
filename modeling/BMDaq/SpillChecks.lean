import BMDaq.Reassembly

/-! # What the consistency check lets through

`moveToEventBank` compares the header word with the word eight bytes before the trailer
marker, whatever that word is, and compares neither with the board of the builder. A call
moves a fragment exactly when its container ends a spill and these two words agree, so
malformed and misattributed spills pass together with the good ones.
-/

namespace BMDaq

open Bytes

/-- Calls to one builder, continued after exceptions, and the fragments they have moved to
    the event bank. -/
structure CallLog where
  state : FragmentState
  moved : List (List UInt8)

/-- The bytes that a call has added to the event bank, if any. -/
def appended (before after : BMDEventMemBank) : List (List UInt8) :=
  match after.payload.drop before.payload.length with
  | [] => []
  | new => [new]

/-- A scanned container is passed to the builder; an exception keeps the state it left. -/
def CallLog.step (dw : MDdataWordBM) (log : CallLog) (c : WordContainer) : Option CallLog :=
  match DataFragmentBuilder.process dw (c.raw.scanned dw) log.state with
  | .done s | .threw _ s => some ⟨s, log.moved ++ appended log.state.out_data_ s.out_data_⟩
  | .undefined _ => none

/-- The calls to the builder of board `b`, from its construction on. -/
def callLog (dw : MDdataWordBM) (b : Int) (mem : Nat → UInt8) (out : BMDEventMemBank)
    (cs : List WordContainer) : Option CallLog :=
  run (CallLog.step dw) ⟨⟨.new b mem, out⟩, []⟩ cs

/-! ## The spill that a container ends -/

/-- The spill that a local bank is being filled with. -/
def BMDMemBank.begun (m : BMDBoardMemBank) : Option (List UInt8) :=
  if m.spill_headers_ = [] then none else some m.payload

/-- The two words that `moveToEventBank` compares, in a spill behind its size header. -/
def Agrees (dw : MDdataWordBM) (spill : List UInt8) : Prop :=
  ∃ h t, wordAt? spill 0 = some h ∧
    wordAt? (encode 8 (8 + spill.length) ++ spill) (spill.length - 4) = some t ∧
    dw.GetSpillTag h = dw.GetSpillTag t ∧ dw.GetBoardId h = dw.GetBoardId t

/-- In this state the container ends the given spill, whose two words agree. -/
structure Ends (dw : MDdataWordBM) (s : FragmentState) (c : UFEDataContainer)
    (spill : List UInt8) : Prop where
  admissible : Admissible s.builder c
  ended : (follow s.builder.mem_bank_.begun c).2 = some spill
  agrees : Agrees dw spill

/-- The local bank of a builder between two calls: tidy, or left behind by a failed check,
    and then every further call throws. -/
def BetweenCalls (dw : MDdataWordBM) (m : BMDBoardMemBank) : Prop :=
  LocalTidy dw m ∨ m.spill_trailers_ ≠ []

section Defined

open FragmentState DataFragmentBuilder

variable {dw : MDdataWordBM} {c : UFEDataContainer} {s : FragmentState} {fault : Fault}

/-- The check finds both of its words in a complete bank. -/
theorem Completed.move_defined (complete : Completed dw s.builder.mem_bank_) :
    moveToEventBank dw s ≠ .undefined fault := by
  have large := complete.large
  obtain ⟨h_dw, atH, -⟩ := complete.first
  obtain ⟨t_dw, atT⟩ : ∃ w, s.builder.mem_bank_.word? (s.builder.mem_bank_.size - 4 - 8) = some w :=
    wordAt?_isSome (by simp only [UFEDataContainer.size] at large ⊢; omega)
  have trailer : trailerWord? s.builder.mem_bank_ (s.builder.mem_bank_.size - 4) = some t_dw := by
    rw [trailerWord?, if_pos (by omega), atT]
  simp only [moveToEventBank, complete.headers, complete.trailers, atH, trailer]
  split
  · intro threw
    cases threw
  · intro moved
    cases moved

theorem append_defined {pos n : Nat} (ranged : c.InRange (pos % 2 ^ 32) n) :
    append c pos n s ≠ .undefined fault := by
  intro undefined
  rw [append_of_inRange pos ranged] at undefined
  cases undefined

/-- Neither copying nor the check behind it reads out of range. -/
theorem check_defined {pos n : Nat} (ranged : c.InRange (pos % 2 ^ 32) n)
    (complete : Completed dw (s.builder.mem_bank_.append c pos n)) :
    (append c pos n s).andThen (moveToEventBank dw) ≠ .undefined fault := by
  rw [append_of_inRange pos ranged, Outcome.done_andThen]
  exact complete.move_defined

/-- On scanned containers a call returns or throws; it never reads out of range. -/
theorem process_defined (scanned : Scanned dw c) (between : BetweenCalls dw s.builder.mem_bank_) :
    process dw c s ≠ .undefined fault := by
  intro undefined
  rcases process_branch dw c s with ⟨e, -, called⟩ | ⟨-, clean, act, branch, called⟩
  · cases called.symm.trans undefined
  have tidy := between.resolve_right (not_not.mpr clean)
  rw [called] at undefined
  cases branch with
  | ignored => cases undefined
  | extended => cases undefined
  | opened h idle headers =>
      exact append_defined (scanned.tail_inRange (by simp [headers])) undefined
  | whole h t idle headers trailers after =>
      exact check_defined (scanned.whole_inRange (by simp [trailers]) after)
        (scanned.whole_slice (tidy.of_idle idle) idle clean headers trailers after) undefined
  | closed h t running headers trailers =>
      obtain ⟨w, markers, found, typed⟩ := tidy.of_busy running
      exact check_defined (scanned.front_inRange (by simp [trailers]))
        (scanned.close_slice markers clean found typed trailers (by simp [headers])) undefined
  | turned h h' t running headers trailers before =>
      obtain ⟨w, markers, found, typed⟩ := tidy.of_busy running
      rcases Outcome.andThen_undefined undefined with first | ⟨middle, -, second⟩
      · exact check_defined (scanned.front_inRange (by simp [trailers]))
          (scanned.close_slice markers clean found typed trailers (by simp [headers, before])) first
      · exact append_defined (scanned.tail_inRange (by simp [headers])) second

end Defined

section Moves

variable {dw : MDdataWordBM} {c : UFEDataContainer} {s : FragmentState}
  {m m' f : BMDBoardMemBank} {f? : Option BMDBoardMemBank}

theorem LocalTidy.represents (tidy : LocalTidy dw m) : Represents m m.begun := by
  cases tidy with
  | empty size idle clean =>
      rw [BMDMemBank.begun, if_pos idle]
      have nothing : m.payload.length = 0 := by
        have total : m.size = 8 + m.payload.length := m.size_eq
        omega
      exact ⟨idle, clean, List.length_eq_zero_iff.mp nothing⟩
  | filling w markers =>
      rw [BMDMemBank.begun, if_neg (by simp [markers])]
      exact ⟨⟨[], markers⟩, rfl⟩

/-- Every branch that returns has passed the guards. -/
theorem LocalStep.admissible (step : LocalStep c s.builder.mem_bank_ m' f?)
    (own : c.boardId = s.builder.board_id_) (clean : s.builder.mem_bank_.spill_trailers_ = []) :
    Admissible s.builder c := by
  cases step with
  | ignored idle headers trailers =>
      exact ⟨own, by simp [headers], by simp [trailers], clean, fun _ _ => trailers,
        fun busy => (busy idle).elim⟩
  | opened h idle headers trailers ranged =>
      refine ⟨own, by simp [headers], ?_, clean, ?_, fun busy => (busy idle).elim⟩
      · rcases trailers with none | ⟨t, one, -⟩
        · simp [none]
        · simp [one]
      · simp [headers]
  | whole h t idle headers trailers =>
      exact ⟨own, by simp [headers], by simp [trailers], clean, by simp [headers],
        fun busy => (busy idle).elim⟩
  | extended h running headers trailers =>
      exact ⟨own, by simp [headers], by simp [trailers], clean, fun _ _ => trailers,
        by simp [headers]⟩
  | closed h t running headers trailers =>
      exact ⟨own, by simp [headers], by simp [trailers], clean, by simp [running],
        by simp [headers]⟩
  | turned h h' t running headers trailers before =>
      exact ⟨own, by simp [headers], by simp [trailers], clean, by simp [running],
        by simp [headers, trailers, before]⟩

/-- The check of `moveToEventBank`, on the bytes behind the size header. -/
theorem Completed.agrees_iff (complete : Completed dw f) : Agrees dw f.payload ↔ Accepted dw f := by
  have large := complete.large
  have size : f.size = 8 + f.payload.length := f.size_eq
  have first : f.word? 8 = wordAt? f.payload 0 := f.payload_word 0
  have trailer : f.word? (f.size - 12) =
      wordAt? (encode 8 (8 + f.payload.length) ++ f.payload) (f.payload.length - 4) := by
    have place : f.size - 12 = f.payload.length - 4 := by omega
    rw [place, UFEDataContainer.word?, BMDMemBank.fragment_buf complete.sized]
  rw [complete.accepted_iff_words, first, trailer, Agrees]

/-- What a returning call moves is the spill that the container ends. -/
theorem LocalStep.ends_iff (step : LocalStep c s.builder.mem_bank_ m' f?)
    (admissible : Admissible s.builder c) (tidy : LocalTidy dw s.builder.mem_bank_)
    (scanned : Scanned dw c) (spill : List UInt8) :
    Ends dw s c spill ↔ ∃ f ∈ f?, Accepted dw f ∧ f.payload = spill := by
  obtain ⟨-, bytes⟩ := step.follows tidy.represents scanned.toWellMarked
  obtain ⟨-, complete⟩ := step.tidy tidy scanned
  constructor
  · rintro ⟨-, ended, agrees⟩
    rw [← bytes, Option.map_eq_some_iff] at ended
    obtain ⟨f, is, rfl⟩ := ended
    exact ⟨f, is, (complete f is).agrees_iff.mp agrees, rfl⟩
  · rintro ⟨f, is, accepted, rfl⟩
    refine ⟨admissible, ?_, (complete f is).agrees_iff.mpr accepted⟩
    rw [← bytes, Option.mem_def.mp is, Option.map_some]

theorem appended_receive? (out : BMDEventMemBank) (complete : ∀ f ∈ f?, Completed dw f) :
    appended out (out.receive? f?) = (f?.map fun f => f.buf).toList := by
  cases f? with
  | none => simp [appended, BMDMemBank.receive?]
  | some f =>
      have large := (complete f rfl).large
      have new : (out.receive f).payload.drop out.payload.length = f.buf := by
        rw [BMDMemBank.receive_payload, List.drop_left]
      simp only [appended, BMDMemBank.receive?, new, Option.map_some, Option.toList_some]
      split
      · next empty =>
          rw [UFEDataContainer.size, empty] at large
          exact absurd large (by decide)
      · rfl

end Moves

section Calls

variable {dw : MDdataWordBM} {log log' : CallLog} {c : WordContainer}

/-- What one call moves: nothing, or the spill that the container ends. -/
inductive CallLog.Moves (dw : MDdataWordBM) (log : CallLog) (c : WordContainer) (log' : CallLog) :
    Prop where
  | none : log'.moved = log.moved → (∀ spill, ¬ Ends dw log.state (c.raw.scanned dw) spill) →
      CallLog.Moves dw log c log'
  | one (f) : Completed dw f → Accepted dw f → log'.moved = log.moved ++ [f.buf] →
      (∀ spill, Ends dw log.state (c.raw.scanned dw) spill ↔ f.payload = spill) →
      CallLog.Moves dw log c log'

theorem CallLog.step_moves (between : BetweenCalls dw log.state.builder.mem_bank_)
    (c : WordContainer) :
    ∃ log', log.step dw c = some log' ∧ BetweenCalls dw log'.state.builder.mem_bank_ ∧
      log.Moves dw c log' := by
  have scanned := c.raw.scanned_spec dw
  cases called : DataFragmentBuilder.process dw (c.raw.scanned dw) log.state with
  | undefined fault => exact (process_defined scanned between called).elim
  | done s =>
      obtain ⟨own, clean, m', f?, step, accepted, rfl⟩ := DataFragmentBuilder.process_done called
      have tidy := between.resolve_right (not_not.mpr clean)
      obtain ⟨tidy', complete⟩ := step.tidy tidy scanned
      have ends := step.ends_iff (step.admissible own clean) tidy scanned
      have new := appended_receive? log.state.out_data_ complete
      refine ⟨_, by simp only [CallLog.step, called]; rfl, .inl tidy', ?_⟩
      cases f? with
      | none =>
          refine .none ?_ fun spill is => by simpa using (ends spill).mp is
          rw [new]
          exact List.append_nil _
      | some f =>
          refine .one f (complete f rfl) (accepted f rfl) (congrArg _ new) fun spill => ?_
          rw [ends]
          simp [accepted]
  | threw e s =>
      obtain ⟨-, event, bank⟩ := DataFragmentBuilder.process_threw called
      refine ⟨_, by simp only [CallLog.step, called]; rfl, ?_, .none ?_ ?_⟩
      · rcases bank with rfl | trailers
        · exact between
        · exact .inr trailers
      · simp [event, appended]
      · intro spill ends
        have tidy := between.resolve_right (not_not.mpr ends.admissible.clean)
        obtain ⟨m', f?, step⟩ := ends.admissible.step tidy scanned
        obtain ⟨f, is, accepted, -⟩ := (step.ends_iff ends.admissible tidy scanned spill).mp ends
        have returns := DataFragmentBuilder.process_of_localStep ends.admissible.own
          ends.admissible.clean step fun f' is' => Option.mem_unique is is' ▸ accepted
        rw [called] at returns
        cases returns

/-- A property of the moved fragments that can be told from the spill inside holds in every
    state of a run exactly when every spill that a container of the run ends has it. -/
theorem callLog_iff {F P : List UInt8 → Prop}
    (same : ∀ f, Completed dw f → Accepted dw f → (F f.buf ↔ P f.payload)) (b : Int)
    (mem : Nat → UInt8) (out : BMDEventMemBank) (cs : List WordContainer) :
    (∃ log, callLog dw b mem out cs = some log) ∧
      ((∀ p log, p <+: cs → callLog dw b mem out p = some log → ∀ f ∈ log.moved, F f) ↔
        ∀ p c log, p ++ [c] <+: cs → callLog dw b mem out p = some log →
          ∀ spill, Ends dw log.state (c.raw.scanned dw) spill → P spill) := by
  have start : BetweenCalls dw (DataFragmentBuilder.new b mem).mem_bank_ :=
    .inl (.empty (BMDMemBank.fresh_size mem) rfl rfl)
  have kept (log : CallLog) (c : WordContainer) (log' : CallLog)
      (between : BetweenCalls dw log.state.builder.mem_bank_)
      (stepped : log.step dw c = some log') :
      BetweenCalls dw log'.state.builder.mem_bank_ ∧ log.Moves dw c log' := by
    obtain ⟨after, stepped', both⟩ := CallLog.step_moves between c
    exact Option.some.inj (stepped'.symm.trans stepped) ▸ both
  have decides (log : CallLog) (c : WordContainer) (log' : CallLog)
      (between : BetweenCalls dw log.state.builder.mem_bank_) (good : ∀ f ∈ log.moved, F f)
      (stepped : log.step dw c = some log') : (∀ f ∈ log'.moved, F f) ↔
        ¬ ¬ ∀ spill, Ends dw log.state (c.raw.scanned dw) spill → P spill := by
    rw [not_not]
    cases (kept log c log' between stepped).2 with
    | none same never =>
        rw [same]
        exact iff_of_true good fun spill ends => (never spill ends).elim
    | one f complete accepted moved ends =>
        simp only [moved, ends, List.forall_mem_append, List.forall_mem_singleton, forall_eq',
          same f complete accepted]
        exact and_iff_right good
  have returns : ∃ log, callLog dw b mem out cs = some log :=
    run_total (fun log => BetweenCalls dw log.state.builder.mem_bank_) (fun log c between =>
      have ⟨log', stepped, between', _⟩ := CallLog.step_moves between c
      ⟨log', stepped, between'⟩) start cs
  obtain ⟨log, ran⟩ := returns
  have all := run_good_iff_of_invariant (fun log => BetweenCalls dw log.state.builder.mem_bank_)
    (fun log => ∀ f ∈ log.moved, F f) _ start (List.forall_mem_nil F)
    (fun log c log' between stepped => (kept log c log' between stepped).1) decides ran
  simp only [not_not] at all
  exact ⟨⟨log, ran⟩, all⟩

end Calls

/-! ## Trailers -/

/-- The fragment is a spill that begins with a header word and ends with a complete trailer
    of three words behind it, whose first word agrees with the header word. -/
def GenuineTrailer (dw : MDdataWordBM) (fragment : List UInt8) : Prop :=
  ∃ h t e, wordAt? fragment 8 = some h ∧ wordAt? fragment (fragment.length - 12) = some t ∧
    wordAt? fragment (fragment.length - 4) = some e ∧ 12 + 12 ≤ fragment.length ∧
    dw.GetDataType h = .SpillHeader ∧ dw.GetDataType t = .SpillTrailer1 ∧
    dw.GetDataType e = .SpillTrailer2 ∧ dw.GetSpillTag h = dw.GetSpillTag t ∧
    dw.GetBoardId h = dw.GetBoardId t

/-- The spill has room for header and trailer, and a first trailer word in its place. -/
def FullTrailer (dw : MDdataWordBM) (spill : List UInt8) : Prop :=
  16 ≤ spill.length ∧
    ∃ t, wordAt? spill (spill.length - 12) = some t ∧ dw.GetDataType t = .SpillTrailer1

section Trailers

variable {dw : MDdataWordBM} {f : BMDBoardMemBank}

theorem Completed.genuine_iff (complete : Completed dw f) (accepted : Accepted dw f) :
    GenuineTrailer dw f.buf ↔ FullTrailer dw f.payload := by
  have size : f.buf.length = 8 + f.payload.length := f.size_eq
  have place (long : 16 ≤ f.payload.length) :
      wordAt? f.buf (f.buf.length - 12) = wordAt? f.payload (f.payload.length - 12) := by
    have same : f.buf.length - 12 = 8 + (f.payload.length - 12) := by omega
    rw [same]
    exact f.payload_word _
  constructor
  · rintro ⟨h, t, e, -, atT, -, long, -, typed, -, -⟩
    have long : 16 ≤ f.payload.length := by omega
    exact ⟨long, t, (place long).symm.trans atT, typed⟩
  · rintro ⟨long, t, atT, typed⟩
    obtain ⟨h, first, header⟩ := complete.first
    obtain ⟨e, last, trailer⟩ := complete.last
    obtain ⟨h', t', atH', atT', tags, boards⟩ := complete.accepted_iff_words.mp accepted
    have atT := (place long).trans atT
    obtain rfl := Option.some.inj (first.symm.trans atH')
    obtain rfl := Option.some.inj (atT.symm.trans atT')
    exact ⟨h, t, e, first, atT, last, by omega, header, typed, trailer, tags, boards⟩

/-- All fragments of a run have a genuine trailer exactly when all spills that its
    containers end, and whose two words agree, have a full one. -/
theorem trailers_genuine_iff (dw : MDdataWordBM) (b : Int) (mem : Nat → UInt8)
    (out : BMDEventMemBank) (cs : List WordContainer) :
    (∃ log, callLog dw b mem out cs = some log) ∧
      ((∀ p log, p <+: cs → callLog dw b mem out p = some log →
          ∀ fragment ∈ log.moved, GenuineTrailer dw fragment) ↔
        ∀ p c log, p ++ [c] <+: cs → callLog dw b mem out p = some log →
          ∀ spill, Ends dw log.state (c.raw.scanned dw) spill → FullTrailer dw spill) :=
  callLog_iff (fun _ complete accepted => complete.genuine_iff accepted) b mem out cs

open FakeData in
/-- Three words pass: the word eight bytes before the trailer marker is the header word. -/
theorem short_spill_moved :
    ∃ log fragment, callLog fakeWord 5 (fun _ => 0) (.fresh fun _ => 0)
        [⟨[spillHeader 5 5, filler, 0x70000001], 5, by decide⟩] = some log ∧
      log.moved = [fragment] ∧
      fragment = encode 8 20 ++ wordBytes [spillHeader 5 5, filler, 0x70000001] ∧
      ¬ GenuineTrailer fakeWord fragment := by
  have moved : (callLog fakeWord 5 (fun _ => 0) (.fresh fun _ => 0)
      [⟨[spillHeader 5 5, filler, 0x70000001], 5, by decide⟩]).map (·.moved) =
        some [encode 8 20 ++ wordBytes [spillHeader 5 5, filler, 0x70000001]] := by decide +kernel
  obtain ⟨log, ran, one⟩ := Option.map_eq_some_iff.mp moved
  refine ⟨log, _, ran, one, rfl, ?_⟩
  rintro ⟨h, t, e, -, -, -, long, -⟩
  exact absurd long (by decide)

end Trailers

/-! ## Boards -/

/-- Header word and first trailer word of the fragment carry the board id `b`. -/
def NamesBoard (dw : MDdataWordBM) (b : Int) (fragment : List UInt8) : Prop :=
  ∃ h t, wordAt? fragment 8 = some h ∧ wordAt? fragment (fragment.length - 12) = some t ∧
    (dw.GetBoardId h : Int) = b ∧ (dw.GetBoardId t : Int) = b

/-- The header word of the spill carries the board id `b`. -/
def HeaderNames (dw : MDdataWordBM) (b : Int) (spill : List UInt8) : Prop :=
  ∃ h, wordAt? spill 0 = some h ∧ (dw.GetBoardId h : Int) = b

section Boards

variable {dw : MDdataWordBM} {f : BMDBoardMemBank}

theorem Completed.namesBoard_iff (complete : Completed dw f) (accepted : Accepted dw f) (b : Int) :
    NamesBoard dw b f.buf ↔ HeaderNames dw b f.payload := by
  have first : wordAt? f.buf 8 = wordAt? f.payload 0 := f.payload_word 0
  constructor
  · rintro ⟨h, t, atH, -, own, -⟩
    exact ⟨h, first.symm.trans atH, own⟩
  · rintro ⟨h, atH, own⟩
    obtain ⟨h', t, atH', atT, -, boards⟩ := complete.accepted_iff_words.mp accepted
    have atH := first.trans atH
    obtain rfl := Option.some.inj (atH.symm.trans atH')
    exact ⟨h, t, atH, atT, own, by rw [← boards, own]⟩

/-- All fragments of a run carry the id of their builder exactly when all spills that its
    containers end, and whose two words agree, carry it in the header word. -/
theorem boards_right_iff (dw : MDdataWordBM) (b : Int) (mem : Nat → UInt8)
    (out : BMDEventMemBank) (cs : List WordContainer) :
    (∃ log, callLog dw b mem out cs = some log) ∧
      ((∀ p log, p <+: cs → callLog dw b mem out p = some log →
          ∀ fragment ∈ log.moved, NamesBoard dw b fragment) ↔
        ∀ p c log, p ++ [c] <+: cs → callLog dw b mem out p = some log →
          ∀ spill, Ends dw log.state (c.raw.scanned dw) spill → HeaderNames dw b spill) :=
  callLog_iff (fun _ complete accepted => complete.namesBoard_iff accepted b) b mem out cs

open FakeData in
/-- A spill of board 9 in a container of board 0 becomes a fragment of board 0. -/
theorem foreign_spill_moved :
    ∃ log fragment, callLog fakeWord 0 (fun _ => 0) (.fresh fun _ => 0)
        [⟨shortSpill 9 7, 0, by decide⟩] = some log ∧
      log.moved = [fragment] ∧ fragment = encode 8 24 ++ wordBytes (shortSpill 9 7) ∧
      ¬ NamesBoard fakeWord 0 fragment := by
  have moved : (callLog fakeWord 0 (fun _ => 0) (.fresh fun _ => 0)
      [⟨shortSpill 9 7, 0, by decide⟩]).map (·.moved) =
        some [encode 8 24 ++ wordBytes (shortSpill 9 7)] := by decide +kernel
  obtain ⟨log, ran, one⟩ := Option.map_eq_some_iff.mp moved
  refine ⟨log, _, ran, one, rfl, ?_⟩
  rintro ⟨h, t, atH, -, own, -⟩
  have header : wordAt? (encode 8 24 ++ wordBytes (shortSpill 9 7)) 8 = some (spillHeader 9 7) := by
    decide +kernel
  obtain rfl := Option.some.inj (header.symm.trans atH)
  exact absurd own (by decide +kernel)

end Boards

end BMDaq
