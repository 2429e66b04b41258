import BMDaq.SpillChecks
import BMDaq.Containment

/-! # Memory accesses of a fragment builder

The fragment builder computes sizes by unsigned subtraction, copies slices of the
container and reads two words through raw pointers, with no check of its own. `traced`
follows `process` and lists these accesses in order; with the trace forgotten it is
`process`. On scanned containers every access is in range, because of where the scanner
puts markers and because the local bank keeps eight bytes in front of the first spill word.
-/

namespace BMDaq

open Bytes

inductive Access where
  /-- `a - b`, of type `size_t`. -/
  | difference (a b : Nat)
  /-- `mem_bank_.append(in, pos, n)`. -/
  | slice (pos n : Nat)
  /-- `markers[0]`. -/
  | front (markers : List Nat)
  /-- A data word at `bank.buffer() + marker - back`. -/
  | word (bank : BMDBoardMemBank) (marker back : Nat)

/-- The access is in range, for the container `c` at the input. -/
def Access.Legal (c : UFEDataContainer) : Access → Prop
  | .difference a b => b ≤ a
  | .slice pos n => pos < 2 ^ 32 ∧ pos + n ≤ c.size
  | .front markers => markers ≠ []
  | .word bank marker back => back ≤ marker ∧ marker - back + 4 ≤ bank.size

/-- A call together with the accesses it has made. -/
structure Traced where
  accesses : List Access
  outcome : Outcome UFEError FragmentState

namespace Traced

/-- No access of the kinds listed. -/
def silent (outcome : Outcome UFEError FragmentState) : Traced := ⟨[], outcome⟩

/-- The accesses come first. -/
def after (accesses : List Access) (call : Traced) : Traced :=
  ⟨accesses ++ call.accesses, call.outcome⟩

/-- What follows an exception is not executed and accesses nothing. -/
def andThen (call : Traced) (next : FragmentState → Traced) : Traced :=
  match call.outcome with
  | .done s => after call.accesses (next s)
  | .threw _ _ | .undefined _ => call

def Legal (c : UFEDataContainer) (call : Traced) : Prop := ∀ a ∈ call.accesses, a.Legal c

section Laws

variable {c : UFEDataContainer} {call : Traced} {next : FragmentState → Traced}
  {accesses : List Access}

@[simp] theorem silent_outcome (outcome : Outcome UFEError FragmentState) :
    (silent outcome).outcome = outcome := rfl

@[simp] theorem after_outcome : (after accesses call).outcome = call.outcome := rfl

@[simp] theorem andThen_outcome : (call.andThen next).outcome =
    call.outcome.andThen fun s => (next s).outcome := by
  unfold andThen
  cases ended : call.outcome <;> simp [ended, Outcome.andThen]

theorem Legal.silent (outcome : Outcome UFEError FragmentState) : (silent outcome).Legal c := by
  intro a member
  cases member

theorem Legal.after (first : ∀ a ∈ accesses, a.Legal c) (rest : call.Legal c) :
    (Traced.after accesses call).Legal c :=
  List.forall_mem_append.mpr ⟨first, rest⟩

theorem Legal.andThen (first : call.Legal c)
    (rest : ∀ s, call.outcome = .done s → (next s).Legal c) : (call.andThen next).Legal c := by
  unfold Traced.andThen
  cases ended : call.outcome with
  | done s => exact Legal.after first (rest s ended)
  | threw e s => exact first
  | undefined f => exact first

end Laws

end Traced

/-! ## The trace of a call -/

namespace FragmentState

open Traced

def tracedAppend (c : UFEDataContainer) (pos n : Nat) (s : FragmentState) : Traced :=
  ⟨[.slice pos n], append c pos n s⟩

/-- `markers[0]`. -/
def front (markers : List Nat) : Nat := markers.headD 0

def tracedMove (dw : MDdataWordBM) (s : FragmentState) : Traced :=
  let m := s.builder.mem_bank_
  ⟨[.front m.spill_headers_, .word m (front m.spill_headers_) 0,
    .front m.spill_trailers_, .word m (front m.spill_trailers_) 8], moveToEventBank dw s⟩

/-- The container from its header on is appended. -/
def tracedTail (c : UFEDataContainer) (s : FragmentState) : Traced :=
  let h := front c.spill_headers_
  after [.front c.spill_headers_, .difference c.size h] (tracedAppend c h (sizeSub c.size h) s)

/-- The container up to its trailer is appended, and the fragment is moved. -/
def tracedClose (dw : MDdataWordBM) (c : UFEDataContainer) (s : FragmentState) : Traced :=
  let t := front c.spill_trailers_
  after [.front c.spill_trailers_] ((tracedAppend c 0 (t + 4) s).andThen (tracedMove dw))

section Outcomes

variable (dw : MDdataWordBM) (c : UFEDataContainer) (pos n : Nat) (s : FragmentState)

@[simp] theorem tracedAppend_outcome : (tracedAppend c pos n s).outcome = append c pos n s := rfl

@[simp] theorem tracedMove_outcome : (tracedMove dw s).outcome = moveToEventBank dw s := rfl

@[simp] theorem tracedTail_outcome : (tracedTail c s).outcome =
    append c (front c.spill_headers_) (sizeSub c.size (front c.spill_headers_)) s := rfl

@[simp] theorem tracedClose_outcome : (tracedClose dw c s).outcome =
    (append c 0 (front c.spill_trailers_ + 4) s).andThen (moveToEventBank dw) := by
  simp only [tracedClose, after_outcome, andThen_outcome, tracedAppend_outcome, tracedMove_outcome]

end Outcomes

end FragmentState

open FragmentState Traced in
/-- `DataFragmentBuilder::process`, condition by condition, with its accesses. -/
def DataFragmentBuilder.traced (dw : MDdataWordBM) (in_data_ : UFEDataContainer)
    (s : FragmentState) : Traced :=
  let mem_bank_ := s.builder.mem_bank_
  let headers := in_data_.spill_headers_
  let trailers := in_data_.spill_trailers_
  let h := front headers
  let t := front trailers
  if in_data_.boardId ≠ s.builder.board_id_ then silent (.threw wrongBoardId s)
  else if headers.length > 1 ∨ trailers.length > 1 ∨ mem_bank_.spill_trailers_.length > 0 then
    silent (.threw multipleSpills s)
  else if mem_bank_.spill_headers_.length = 0 then
    if headers.length ≠ 0 then
      if trailers.length = 0 then tracedTail in_data_ s
      else after [.front trailers, .front headers] <|
        if t ≥ h then after [.difference t h]
          ((tracedAppend in_data_ h (sizeSub t h + 4) s).andThen (tracedMove dw))
        else tracedTail in_data_ s
    else if headers.length = 0 ∧ trailers.length = 0 then silent (.done s)
    else silent (.threw inconsistentData s)
  else if mem_bank_.spill_headers_.length = 1 then
    if headers.length = 0 ∧ trailers.length = 0 then
      after [.slice 0 in_data_.size] (silent (.done (appendAll in_data_ s)))
    else if headers.length = 0 ∧ trailers.length = 1 then tracedClose dw in_data_ s
    else if headers.length = 1 ∧ trailers.length = 1 then
      after [.front trailers, .front headers] <|
        if t ≤ h then (tracedClose dw in_data_ s).andThen (tracedTail in_data_)
        else silent (.threw inconsistentData s)
    else silent (.threw inconsistentData s)
  else silent (.threw inconsistentData s)

/-- A call with a raw container, over the event bank as it is by then. -/
structure ScannedCall where
  container : RawContainer
  out_data_ : BMDEventMemBank

/-- The container passes the scanner on its way to the builder. -/
def scannedStep (dw : MDdataWordBM) (builder : DataFragmentBuilder) (call : ScannedCall) :
    Option DataFragmentBuilder :=
  builder.laterStep dw ⟨call.container.scanned dw, call.out_data_⟩

/-! ## The trace is in range -/

section InRange

open FragmentState DataFragmentBuilder Traced

variable {dw : MDdataWordBM} {c : UFEDataContainer} {s : FragmentState}

theorem front_cons (x : Nat) (xs : List Nat) : front (x :: xs) = x := rfl

/-- With the accesses forgotten, the traced call is the call. -/
theorem traced_outcome (dw : MDdataWordBM) (c : UFEDataContainer) (s : FragmentState) :
    (traced dw c s).outcome = process dw c s := by
  simp only [traced, process, apply_ite Traced.outcome, silent_outcome, after_outcome,
    andThen_outcome, tracedAppend_outcome, tracedMove_outcome, tracedTail_outcome,
    tracedClose_outcome]
  split
  · rfl
  split
  · rfl
  next few =>
  push Not at few
  obtain ⟨fewHeaders, fewTrailers, -⟩ := few
  rcases none_or_one fewHeaders with headers | ⟨h, headers⟩
  · rcases none_or_one fewTrailers with trailers | ⟨t, trailers⟩
    · simp [headers, trailers]
    · simp [headers, trailers, front_cons]
  · rcases none_or_one fewTrailers with trailers | ⟨t, trailers⟩
    · simp [headers, trailers, front_cons]
    · simp [headers, trailers, front_cons]

/-- The slice from a header to the end of the container. -/
theorem Scanned.tail_legal (scanned : Scanned dw c) {h : Nat} (headers : c.spill_headers_ = [h]) :
    (tracedTail c s).Legal c := by
  have inside := scanned.headers h (by simp [headers])
  have fits := scanned.fits
  simp only [tracedTail, headers, front_cons, sizeSub_of_le (le_trans (Nat.le_add_right h 4) inside),
    tracedAppend, Traced.Legal, after, List.forall_mem_append, List.forall_mem_cons, Access.Legal]
  simp
  omega

/-- The two words that the check reads lie inside a complete bank. -/
theorem Completed.move_legal (complete : Completed dw s.builder.mem_bank_) :
    (tracedMove dw s).Legal c := by
  have large := complete.large
  simp only [Traced.Legal, tracedMove, complete.headers, complete.trailers, front_cons,
    List.forall_mem_cons, Access.Legal]
  simp
  omega

/-- Copying a legal slice and checking the complete bank it makes. -/
theorem Completed.checked_legal {pos n : Nat} (low : pos < 2 ^ 32) (ranged : pos + n ≤ c.size)
    (complete : Completed dw (s.builder.mem_bank_.append c pos n)) :
    ((tracedAppend c pos n s).andThen (tracedMove dw)).Legal c := by
  have copied : (tracedAppend c pos n s).Legal c := by
    intro a member
    obtain rfl := List.mem_singleton.mp member
    exact ⟨low, ranged⟩
  refine copied.andThen ?_
  intro s' ended
  obtain ⟨-, rfl⟩ := append_done ended
  exact Completed.move_legal complete

/-- The slice up to a trailer. -/
theorem Scanned.close_legal (scanned : Scanned dw c) {t : Nat} (trailers : c.spill_trailers_ = [t])
    (complete : Completed dw (s.builder.mem_bank_.append c 0 (t + 4))) :
    (tracedClose dw c s).Legal c := by
  have inside := scanned.trailers t (by simp [trailers])
  rw [tracedClose, trailers, front_cons]
  refine Legal.after ?_ (Completed.checked_legal (by decide) (by omega) complete)
  simp [Access.Legal]

/-- No branch of a call leaves the container or the local bank. -/
theorem traced_legal (scanned : Scanned dw c) (between : BetweenCalls dw s.builder.mem_bank_) :
    (traced dw c s).Legal c := by
  have fits := scanned.fits
  simp only [traced]
  split
  · exact Legal.silent _
  split
  · exact Legal.silent _
  next few =>
  push Not at few
  obtain ⟨fewHeaders, fewTrailers, noTrailers⟩ := few
  have clean := List.length_eq_zero_iff.mp (Nat.le_zero.mp noTrailers)
  have tidy := between.resolve_right (not_not.mpr clean)
  rcases tidy with ⟨empty, idle, -⟩ | ⟨w, markers, -, found, typed⟩
  · rw [if_pos (by simp [idle])]
    rcases none_or_one fewHeaders with headers | ⟨h, headers⟩
    · rw [if_neg (by simp [headers])]
      split
      · exact Legal.silent _
      · exact Legal.silent _
    · rw [if_pos (by simp [headers])]
      rcases none_or_one fewTrailers with trailers | ⟨t, trailers⟩
      · rw [if_pos (by simp [trailers])]
        exact scanned.tail_legal headers
      · rw [if_neg (by simp [trailers])]
        refine Legal.after (by simp [Access.Legal, headers, trailers]) ?_
        rw [headers, trailers, front_cons, front_cons]
        split
        · next after =>
            have inside := scanned.trailers t (by simp [trailers])
            refine Legal.after (by simpa [Access.Legal] using after) ?_
            refine Completed.checked_legal (by omega) ?_
              (scanned.whole_slice empty idle clean headers trailers after)
            rw [sizeSub_of_le after]
            omega
        · exact scanned.tail_legal headers
  · rw [if_neg (by simp [markers]), if_pos (by simp [markers])]
    rcases none_or_one fewHeaders with headers | ⟨h, headers⟩
    · rcases none_or_one fewTrailers with trailers | ⟨t, trailers⟩
      · rw [if_pos (by simp [headers, trailers])]
        refine Legal.after ?_ (Legal.silent _)
        simp [Access.Legal]
      · rw [if_neg (by simp [trailers]), if_pos (by simp [headers, trailers])]
        exact scanned.close_legal trailers
          (scanned.close_slice markers clean found typed trailers (by simp [headers]))
    · rw [if_neg (by simp [headers]), if_neg (by simp [headers])]
      rcases none_or_one fewTrailers with trailers | ⟨t, trailers⟩
      · rw [if_neg (by simp [trailers])]
        exact Legal.silent _
      · rw [if_pos (by simp [headers, trailers])]
        refine Legal.after (by simp [Access.Legal, headers, trailers]) ?_
        split
        · next before =>
            rw [headers, trailers, front_cons, front_cons] at before
            refine Legal.andThen ?_ fun s' _ => scanned.tail_legal headers
            exact scanned.close_legal trailers (scanned.close_slice markers clean found typed
              trailers (by simpa [headers] using before))
        · exact Legal.silent _

/-- A call on a scanned container returns or throws, and keeps the local bank in shape. -/
theorem BetweenCalls.laterStep {builder : DataFragmentBuilder}
    (between : BetweenCalls dw builder.mem_bank_) {call : LaterCall}
    (scanned : Scanned dw call.in_data_) :
    ∃ builder', builder.laterStep dw call = some builder' ∧ BetweenCalls dw builder'.mem_bank_ := by
  cases called : process dw call.in_data_ ⟨builder, call.out_data_⟩ with
  | undefined fault => exact (process_defined scanned between called).elim
  | done s =>
      refine ⟨s.builder, by simp only [DataFragmentBuilder.laterStep, called], ?_⟩
      obtain ⟨-, clean, m', f?, step, -, rfl⟩ := process_done called
      exact .inl (step.tidy (between.resolve_right (not_not.mpr clean)) scanned).1
  | threw e s =>
      refine ⟨s.builder, by simp only [DataFragmentBuilder.laterStep, called], ?_⟩
      rcases (process_threw called).bank with rfl | trailers
      · exact between
      · exact .inr trailers

/-- In every state that scanned containers of any bytes can lead to, exceptions included,
    the accesses of a further call are in range. -/
theorem accesses_in_range (dw : MDdataWordBM) (b : Int) (mem : Nat → UInt8)
    (earlier : List ScannedCall) :
    ∃ builder, run (scannedStep dw) (.new b mem) earlier = some builder ∧
      ∀ (c : RawContainer) (out : BMDEventMemBank),
        (traced dw (c.scanned dw) ⟨builder, out⟩).outcome =
          process dw (c.scanned dw) ⟨builder, out⟩ ∧
        (∀ a ∈ (traced dw (c.scanned dw) ⟨builder, out⟩).accesses, a.Legal (c.scanned dw)) ∧
        ∀ fault, process dw (c.scanned dw) ⟨builder, out⟩ ≠ .undefined fault := by
  have start : BetweenCalls dw (DataFragmentBuilder.new b mem).mem_bank_ :=
    .inl (.empty (BMDMemBank.fresh_size mem) rfl rfl)
  have next (builder : DataFragmentBuilder) (call : ScannedCall)
      (between : BetweenCalls dw builder.mem_bank_) :
      ∃ builder', scannedStep dw builder call = some builder' ∧
        BetweenCalls dw builder'.mem_bank_ :=
    between.laterStep (call.container.scanned_spec dw)
  obtain ⟨builder, ran⟩ := run_total
    (fun builder : DataFragmentBuilder => BetweenCalls dw builder.mem_bank_) next start earlier
  have between : BetweenCalls dw builder.mem_bank_ := by
    refine run_invariant (P := fun builder => BetweenCalls dw builder.mem_bank_)
      (Q := fun _ => True) start ?_ (fun _ _ => trivial) ran
    intro builder call builder' _ between stepped
    obtain ⟨after, stepped', between'⟩ := next builder call between
    exact Option.some.inj (stepped'.symm.trans stepped) ▸ between'
  refine ⟨builder, ran, fun c out => ⟨traced_outcome dw _ _, ?_, ?_⟩⟩
  · exact traced_legal (c.scanned_spec dw) between
  · exact fun fault => process_defined (c.scanned_spec dw) between

end InRange

end BMDaq
