import BMDaq.MemBank

/-! # The fragment builder of one board

`DataFragmentBuilder::process` sorts a container into one of seven branches, by the
markers of the container and of the local bank. `LocalStep` is the result of that sorting:
one constructor per way the call can return. It also shows that the event bank is only
ever written to, by one append of a completed local bank.
-/

namespace BMDaq

open Bytes

structure DataFragmentBuilder where
  board_id_ : Int
  mem_bank_ : BMDBoardMemBank

/-- A builder together with the event bank its output pointer leads to. -/
structure FragmentState where
  builder : DataFragmentBuilder
  out_data_ : BMDEventMemBank

namespace DataFragmentBuilder

def wrongBoardId : UFEError :=
  ⟨"Data corruption (wrong board Id).", "void DataFragmentBuilder::process()", .FATAL⟩

def multipleSpills : UFEError :=
  ⟨"Data corruption (multiple spills).", "void DataFragmentBuilder::process()", .FATAL⟩

def inconsistentData : UFEError :=
  ⟨"Data corruption (inconsistent data).", "void DataFragmentBuilder::process()", .FATAL⟩

def spillDataMismatch : UFEError :=
  ⟨"Data corruption (spill data mismatch).", "void DataFragmentBuilder::moveToEventBank()",
    .FATAL⟩

/-- `DataFragmentBuilder(id, memsize)`, on memory with content `mem`. -/
def new (id : Int) (mem : Nat → UInt8) : DataFragmentBuilder := ⟨id, .fresh mem⟩

end DataFragmentBuilder

/-- `(**out_data_).append(mem_bank_)` and `n_fragments_++`. -/
def BMDMemBank.receive (out : BMDEventMemBank) (m : BMDBoardMemBank) : BMDEventMemBank :=
  let grown := out.appendAll m.toUFEDataContainer
  grown.setHeader .n_fragments_ (grown.header_ .n_fragments_ + 1)

namespace FragmentState

variable (dw : MDdataWordBM)

/-- `mem_bank_.append(c, pos, n)`; reading outside the container is undefined. -/
def append (c : UFEDataContainer) (pos n : Nat) (s : FragmentState) :
    Outcome UFEError FragmentState :=
  if c.InRange (pos % 2 ^ 32) n then
    .done { s with builder := { s.builder with mem_bank_ := s.builder.mem_bank_.append c pos n } }
  else .undefined .outOfRange

/-- `mem_bank_.append(c)` followed by the hand-made `size_ += c.size()`. -/
def appendAll (c : UFEDataContainer) (s : FragmentState) : FragmentState :=
  let grown := s.builder.mem_bank_.appendAll c
  let resized := grown.setHeader .size_ (grown.header_ .size_ + c.size)
  { s with builder := { s.builder with mem_bank_ := resized } }

/-- The first trailer word as `moveToEventBank` finds it: eight bytes before the marker. -/
def trailerWord? (m : BMDBoardMemBank) (t : Nat) : Option UInt32 :=
  if 8 ≤ t then m.word? (t - 8) else none

def moveToEventBank (s : FragmentState) : Outcome UFEError FragmentState :=
  let m := s.builder.mem_bank_
  match m.spill_headers_, m.spill_trailers_ with
  | h :: _, t :: _ =>
    match m.word? h, trailerWord? m t with
    | some h_dw, some t_dw =>
      if dw.GetSpillTag h_dw ≠ dw.GetSpillTag t_dw ∨ dw.GetBoardId h_dw ≠ dw.GetBoardId t_dw then
        .threw DataFragmentBuilder.spillDataMismatch s
      else .done
        { builder := { s.builder with mem_bank_ := m.clear }
          out_data_ := s.out_data_.receive m }
    | _, _ => .undefined .outOfRange
  | _, _ => .undefined .outOfRange

end FragmentState

open FragmentState in
/-- `DataFragmentBuilder::process` on the container at the input location. -/
def DataFragmentBuilder.process (dw : MDdataWordBM) (in_data_ : UFEDataContainer)
    (s : FragmentState) : Outcome UFEError FragmentState :=
  let mem_bank_ := s.builder.mem_bank_
  if in_data_.boardId ≠ s.builder.board_id_ then .threw wrongBoardId s
  else if in_data_.spill_headers_.length > 1 ∨ in_data_.spill_trailers_.length > 1 ∨
      mem_bank_.spill_trailers_.length > 0 then .threw multipleSpills s
  else if mem_bank_.spill_headers_.length = 0 then
    -- No spill data so far, a header is expected.
    match in_data_.spill_headers_, in_data_.spill_trailers_ with
    | h :: _, [] => append in_data_ h (sizeSub in_data_.size h) s
    | h :: _, t :: _ =>
      if t ≥ h then
        (append in_data_ h (sizeSub t h + 4) s).andThen (moveToEventBank dw)
      -- The firmware fault of the first spill: a trailer before the first header is skipped.
      else append in_data_ h (sizeSub in_data_.size h) s
    | [], [] => .done s
    | [], _ :: _ => .threw inconsistentData s
  else if mem_bank_.spill_headers_.length = 1 then
    -- In the middle of a spill, a trailer is expected.
    match in_data_.spill_headers_, in_data_.spill_trailers_ with
    | [], [] => .done (appendAll in_data_ s)
    | [], t :: _ => (append in_data_ 0 (t + 4) s).andThen (moveToEventBank dw)
    | h :: _, t :: _ =>
      if t ≤ h then
        ((append in_data_ 0 (t + 4) s).andThen (moveToEventBank dw)).andThen
          (append in_data_ h (sizeSub in_data_.size h))
      else .threw inconsistentData s
    | _ :: _, [] => .threw inconsistentData s
  else .threw inconsistentData s

/-! ## What a call can do -/

/-- The consistency check of `moveToEventBank`, passed by the bank `m`. -/
def Accepted (dw : MDdataWordBM) (m : BMDBoardMemBank) : Prop :=
  ∃ h hs t ts h_dw t_dw, m.spill_headers_ = h :: hs ∧ m.spill_trailers_ = t :: ts ∧
    m.word? h = some h_dw ∧ FragmentState.trailerWord? m t = some t_dw ∧
    dw.GetSpillTag h_dw = dw.GetSpillTag t_dw ∧ dw.GetBoardId h_dw = dw.GetBoardId t_dw

/-- The local bank after a marker-free container in the middle of a spill. -/
def BMDMemBank.extended (m : BMDBoardMemBank) (c : UFEDataContainer) : BMDBoardMemBank :=
  (m.appendAll c).setHeader .size_ ((m.appendAll c).header_ .size_ + c.size)

/-- The branches of a call: how they change the local bank `m`, and the bank they put to
    the consistency check, if any. -/
inductive LocalStep (c : UFEDataContainer) (m : BMDBoardMemBank) :
    BMDBoardMemBank → Option BMDBoardMemBank → Prop where
  /-- No spill is open and none starts. -/
  | ignored : m.spill_headers_ = [] → c.spill_headers_ = [] → c.spill_trailers_ = [] →
      LocalStep c m m none
  /-- A spill starts and does not end here; an orphan trailer may precede it. -/
  | opened (h) : m.spill_headers_ = [] → c.spill_headers_ = [h] →
      (c.spill_trailers_ = [] ∨ ∃ t, c.spill_trailers_ = [t] ∧ t < h) →
      c.InRange (h % 2 ^ 32) (sizeSub c.size h) →
      LocalStep c m (m.append c h (sizeSub c.size h)) none
  /-- A spill starts and ends in this container. -/
  | whole (h t) : m.spill_headers_ = [] → c.spill_headers_ = [h] → c.spill_trailers_ = [t] →
      h ≤ t → c.InRange (h % 2 ^ 32) (sizeSub t h + 4) →
      LocalStep c m (m.append c h (sizeSub t h + 4)).clear (some (m.append c h (sizeSub t h + 4)))
  /-- The open spill goes on. -/
  | extended (h) : m.spill_headers_ = [h] → c.spill_headers_ = [] → c.spill_trailers_ = [] →
      LocalStep c m (m.extended c) none
  /-- The open spill ends. -/
  | closed (h t) : m.spill_headers_ = [h] → c.spill_headers_ = [] → c.spill_trailers_ = [t] →
      c.InRange 0 (t + 4) →
      LocalStep c m (m.append c 0 (t + 4)).clear (some (m.append c 0 (t + 4)))
  /-- The open spill ends and the next one starts. -/
  | turned (h h' t) : m.spill_headers_ = [h] → c.spill_headers_ = [h'] →
      c.spill_trailers_ = [t] → t ≤ h' → c.InRange 0 (t + 4) →
      c.InRange (h' % 2 ^ 32) (sizeSub c.size h') →
      LocalStep c m ((m.append c 0 (t + 4)).clear.append c h' (sizeSub c.size h'))
        (some (m.append c 0 (t + 4)))

/-- Whatever has been done to `size_` before, a bank is handed over with the right value. -/
theorem LocalStep.handed_sizeRight {c : UFEDataContainer} {m m' : BMDBoardMemBank}
    {f? : Option BMDBoardMemBank} (step : LocalStep c m m' f?) : ∀ f ∈ f?, f.SizeRight := by
  intro f is
  cases step with
  | ignored | opened | extended => cases is
  | whole | closed | turned =>
      obtain rfl := Option.mem_some.mp is
      exact BMDMemBank.append_sizeRight m

/-- The event bank after a call. -/
def BMDMemBank.receive? (out : BMDEventMemBank) : Option BMDBoardMemBank → BMDEventMemBank
  | none => out
  | some m => out.receive m

namespace BMDMemBank

variable (out : BMDEventMemBank) (m : BMDBoardMemBank)

theorem receive_payload : (out.receive m).payload = out.payload ++ m.buf := by
  simp only [receive, setHeader_payload, appendAll, append_payload, Nat.zero_mod, List.drop_zero,
    UFEDataContainer.size, List.take_length]

@[simp] theorem receive_size : (out.receive m).size = out.size + m.size := by
  rw [receive, setHeader_size, appendAll]
  exact append_size out (by simp [UFEDataContainer.InRange])

theorem receive_n_fragments :
    (out.receive m).header_ .n_fragments_ = (out.header_ .n_fragments_ + 1) % 2 ^ 16 := by
  have kept : (out.appendAll m.toUFEDataContainer).header_ .n_fragments_ =
      out.header_ .n_fragments_ := append_header out _ (by decide)
  rw [receive, header_setHeader, kept]
  rfl

theorem receive_sizeRight : (out.receive m).SizeRight := by
  rw [SizeRight, receive, header_setHeader_other _ _ _ _ (by decide), setHeader_size]
  exact append_sizeRight out

theorem receive_spill_headers (inside : ∀ h ∈ m.spill_headers_, h < m.size) :
    (out.receive m).spill_headers_ = out.spill_headers_ ++ m.spill_headers_.map (· + out.size) :=
  congrArg (out.spill_headers_ ++ ·) (UFEDataContainer.rebase_all out.size inside)

theorem receive_spill_trailers (inside : ∀ t ∈ m.spill_trailers_, t < m.size) :
    (out.receive m).spill_trailers_ =
      out.spill_trailers_ ++ m.spill_trailers_.map (· + out.size) :=
  congrArg (out.spill_trailers_ ++ ·) (UFEDataContainer.rebase_all out.size inside)

theorem receive_word {offset : Nat} (past : 24 ≤ offset) (before : offset + 4 ≤ out.size) :
    (out.receive m).word? offset = out.word? offset := by
  rw [receive, setHeader_word _ _ _ past]
  exact append_word out past before

/-- The words of a received fragment, at their new place. -/
theorem receive_word_new {offset : Nat} (within : offset + 4 ≤ m.size) :
    (out.receive m).word? (out.size + offset) = m.word? offset := by
  have past : 24 ≤ out.size + offset := le_trans out.hasHeader (Nat.le_add_right _ _)
  have moved := append_word_new out m.toUFEDataContainer 0 offset within
  rw [Nat.zero_mod, Nat.zero_add] at moved
  rw [receive, setHeader_word _ _ _ past]
  exact moved

end BMDMemBank

namespace FragmentState

variable {dw : MDdataWordBM} {s s' : FragmentState}

theorem append_done {c : UFEDataContainer} {pos n : Nat} (ends : append c pos n s = .done s') :
    c.InRange (pos % 2 ^ 32) n ∧
      s' = ⟨⟨s.builder.board_id_, s.builder.mem_bank_.append c pos n⟩, s.out_data_⟩ := by
  unfold append at ends
  split at ends
  · next ranged => exact ⟨ranged, (Outcome.done.inj ends).symm⟩
  · cases ends

theorem append_of_inRange {c : UFEDataContainer} (pos : Nat) {n : Nat}
    (ranged : c.InRange (pos % 2 ^ 32) n) :
    append c pos n s =
      .done ⟨⟨s.builder.board_id_, s.builder.mem_bank_.append c pos n⟩, s.out_data_⟩ :=
  if_pos ranged

theorem moveToEventBank_done (ends : moveToEventBank dw s = .done s') :
    Accepted dw s.builder.mem_bank_ ∧
      s' = ⟨⟨s.builder.board_id_, s.builder.mem_bank_.clear⟩,
        s.out_data_.receive s.builder.mem_bank_⟩ := by
  simp only [moveToEventBank] at ends
  split at ends
  · next h hs t ts headers trailers =>
      split at ends
      · next h_dw t_dw atH atT =>
          split at ends
          · cases ends
          · next agree =>
              push Not at agree
              exact ⟨⟨h, hs, t, ts, h_dw, t_dw, headers, trailers, atH, atT, agree.1, agree.2⟩,
                (Outcome.done.inj ends).symm⟩
      · cases ends
  · cases ends

theorem moveToEventBank_of_accepted {m : BMDBoardMemBank} (accepted : Accepted dw m) (id : Int)
    (out : BMDEventMemBank) :
    moveToEventBank dw ⟨⟨id, m⟩, out⟩ = .done ⟨⟨id, m.clear⟩, out.receive m⟩ := by
  obtain ⟨h, hs, t, ts, h_dw, t_dw, headers, trailers, atH, atT, tags, boards⟩ := accepted
  simp only [moveToEventBank, headers, trailers, atH, atT, tags, boards, ne_eq, not_true_eq_false,
    or_self, if_false]

end FragmentState

namespace DataFragmentBuilder

open FragmentState

variable {dw : MDdataWordBM} {c : UFEDataContainer} {s s' : FragmentState}

theorem only_one {xs : List Nat} {x : Nat} {rest : List Nat} (few : xs.length ≤ 1)
    (shape : xs = x :: rest) : xs = [x] := by
  cases rest with
  | nil => exact shape
  | cons y ys =>
      rw [shape, List.length_cons, List.length_cons] at few
      omega

/-- The branch of a call: what the markers of the container and of the local bank `m` say,
    and the slices that are copied and checked then. -/
inductive Branch (dw : MDdataWordBM) (c : UFEDataContainer) (m : BMDBoardMemBank) :
    (FragmentState → Outcome UFEError FragmentState) → Prop where
  | ignored : m.spill_headers_ = [] → c.spill_headers_ = [] → c.spill_trailers_ = [] →
      Branch dw c m .done
  | opened (h) : m.spill_headers_ = [] → c.spill_headers_ = [h] →
      (c.spill_trailers_ = [] ∨ ∃ t, c.spill_trailers_ = [t] ∧ t < h) →
      Branch dw c m (append c h (sizeSub c.size h))
  | whole (h t) : m.spill_headers_ = [] → c.spill_headers_ = [h] → c.spill_trailers_ = [t] →
      h ≤ t → Branch dw c m fun s => (append c h (sizeSub t h + 4) s).andThen (moveToEventBank dw)
  | extended (h) : m.spill_headers_ = [h] → c.spill_headers_ = [] → c.spill_trailers_ = [] →
      Branch dw c m fun s => .done (appendAll c s)
  | closed (h t) : m.spill_headers_ = [h] → c.spill_headers_ = [] → c.spill_trailers_ = [t] →
      Branch dw c m fun s => (append c 0 (t + 4) s).andThen (moveToEventBank dw)
  | turned (h h' t) : m.spill_headers_ = [h] → c.spill_headers_ = [h'] →
      c.spill_trailers_ = [t] → t ≤ h' → Branch dw c m fun s =>
        ((append c 0 (t + 4) s).andThen (moveToEventBank dw)).andThen
          (append c h' (sizeSub c.size h'))

/-- The errors that are raised before anything is copied. -/
def guardErrors : List UFEError := [wrongBoardId, multipleSpills, inconsistentData]

theorem guardErrors_fatal : ∀ e ∈ guardErrors, e.severity = .FATAL := by decide

theorem mismatch_not_guard : spillDataMismatch ∉ guardErrors := by decide

/-- A call is rejected with nothing changed, or it takes one of the branches. -/
theorem process_branch (dw : MDdataWordBM) (c : UFEDataContainer) (s : FragmentState) :
    (∃ e ∈ guardErrors, process dw c s = .threw e s) ∨
      (c.boardId = s.builder.board_id_ ∧ s.builder.mem_bank_.spill_trailers_ = [] ∧
        ∃ act, Branch dw c s.builder.mem_bank_ act ∧ process dw c s = act s) := by
  generalize result : process dw c s = outcome
  simp only [process] at result
  split at result
  · exact .inl ⟨_, by simp [guardErrors], result.symm⟩
  next sameBoard =>
  split at result
  · exact .inl ⟨_, by simp [guardErrors], result.symm⟩
  next few =>
  push Not at few
  obtain ⟨fewHeaders, fewTrailers, noTrailers⟩ := few
  have taken {act : FragmentState → Outcome UFEError FragmentState}
      (branch : Branch dw c s.builder.mem_bank_ act) (same : act s = outcome) :
      c.boardId = s.builder.board_id_ ∧ s.builder.mem_bank_.spill_trailers_ = [] ∧
        ∃ act, Branch dw c s.builder.mem_bank_ act ∧ outcome = act s :=
    ⟨not_not.mp sameBoard, List.length_eq_zero_iff.mp (Nat.le_zero.mp noTrailers),
      act, branch, same.symm⟩
  split at result
  · next idle =>
    have idle := List.length_eq_zero_iff.mp idle
    split at result
    · next h hs headers trailers =>
        exact .inr (taken (.opened h idle (only_one fewHeaders headers) (.inl trailers)) result)
    · next h hs t ts headers trailers =>
        have headers := only_one fewHeaders headers
        have trailers := only_one fewTrailers trailers
        split at result
        · next after => exact .inr (taken (.whole h t idle headers trailers after) result)
        · next before =>
            exact .inr (taken (.opened h idle headers
              (.inr ⟨t, trailers, Nat.lt_of_not_le before⟩)) result)
    · next headers trailers => exact .inr (taken (.ignored idle headers trailers) result)
    · exact .inl ⟨_, by simp [guardErrors], result.symm⟩
  next notIdle =>
  split at result
  · next single =>
    obtain ⟨h₀, running⟩ := List.length_eq_one_iff.mp single
    split at result
    · next headers trailers => exact .inr (taken (.extended h₀ running headers trailers) result)
    · next t ts headers trailers =>
        exact .inr (taken (.closed h₀ t running headers (only_one fewTrailers trailers)) result)
    · next h hs t ts headers trailers =>
        split at result
        · next before =>
            exact .inr (taken (.turned h₀ h t running (only_one fewHeaders headers)
              (only_one fewTrailers trailers) before) result)
        · exact .inl ⟨_, by simp [guardErrors], result.symm⟩
    · exact .inl ⟨_, by simp [guardErrors], result.symm⟩
  · exact .inl ⟨_, by simp [guardErrors], result.symm⟩

/-- Everything a returning call can have done. -/
theorem process_done (ends : process dw c s = .done s') :
    c.boardId = s.builder.board_id_ ∧ s.builder.mem_bank_.spill_trailers_ = [] ∧
      ∃ m' f?, LocalStep c s.builder.mem_bank_ m' f? ∧ (∀ f ∈ f?, Accepted dw f) ∧
        s' = ⟨⟨s.builder.board_id_, m'⟩, s.out_data_.receive? f?⟩ := by
  have handed {f : BMDBoardMemBank} (accepted : Accepted dw f) : ∀ f' ∈ some f, Accepted dw f' :=
    fun f' is => Option.mem_some.mp is ▸ accepted
  rcases process_branch dw c s with ⟨e, -, called⟩ | ⟨own, clean, act, branch, called⟩
  · cases called.symm.trans ends
  refine ⟨own, clean, ?_⟩
  rw [called] at ends
  cases branch with
  | ignored idle headers trailers =>
      obtain rfl := Outcome.done.inj ends
      exact ⟨_, none, .ignored idle headers trailers, nofun, rfl⟩
  | opened h idle headers trailers =>
      obtain ⟨ranged, rfl⟩ := append_done ends
      exact ⟨_, none, .opened h idle headers trailers ranged, nofun, rfl⟩
  | whole h t idle headers trailers after =>
      obtain ⟨middle, copied, moved⟩ := Outcome.andThen_done ends
      obtain ⟨ranged, rfl⟩ := append_done copied
      obtain ⟨accepted, rfl⟩ := moveToEventBank_done moved
      exact ⟨_, some _, .whole h t idle headers trailers after ranged, handed accepted, rfl⟩
  | extended h running headers trailers =>
      obtain rfl := Outcome.done.inj ends
      exact ⟨_, none, .extended h running headers trailers, nofun, rfl⟩
  | closed h t running headers trailers =>
      obtain ⟨middle, copied, moved⟩ := Outcome.andThen_done ends
      obtain ⟨ranged, rfl⟩ := append_done copied
      obtain ⟨accepted, rfl⟩ := moveToEventBank_done moved
      exact ⟨_, some _, .closed h t running headers trailers ranged, handed accepted, rfl⟩
  | turned h h' t running headers trailers before =>
      obtain ⟨emptied, closes, opens⟩ := Outcome.andThen_done ends
      obtain ⟨middle, copied, moved⟩ := Outcome.andThen_done closes
      obtain ⟨ranged, rfl⟩ := append_done copied
      obtain ⟨accepted, rfl⟩ := moveToEventBank_done moved
      obtain ⟨rangedNext, rfl⟩ := append_done opens
      exact ⟨_, some _, .turned h h' t running headers trailers before ranged rangedNext,
        handed accepted, rfl⟩

/-- A call that throws moves nothing: either it changes nothing at all, or it leaves a bank
    that has failed the consistency check, with its trailer marker. -/
structure Rejected (e : UFEError) (s s' : FragmentState) : Prop where
  fatal : e.severity = .FATAL
  event : s'.out_data_ = s.out_data_
  bank : s' = s ∨ s'.builder.mem_bank_.spill_trailers_ ≠ []

theorem append_threw {e : UFEError} {pos n : Nat} : append c pos n s ≠ .threw e s' := by
  intro threw
  unfold append at threw
  split at threw
  · cases threw
  · cases threw

/-- Copying a slice cannot throw, the check behind it can. -/
theorem move_threw {e : UFEError} {pos n : Nat}
    (threw : (append c pos n s).andThen (moveToEventBank dw) = .threw e s') :
    e = spillDataMismatch ∧ s'.out_data_ = s.out_data_ ∧
      s'.builder.mem_bank_.spill_trailers_ ≠ [] := by
  rcases Outcome.andThen_threw threw with first | ⟨middle, first, second⟩
  · exact (append_threw first).elim
  obtain ⟨-, rfl⟩ := append_done first
  simp only [moveToEventBank] at second
  split at second
  · next h hs t ts headers trailers =>
      split at second
      · split at second
        · obtain ⟨rfl, rfl⟩ := Outcome.threw.inj second
          refine ⟨rfl, rfl, ?_⟩
          intro none
          cases trailers.symm.trans none
        · cases second
      · cases second
  · cases second

/-- Which error a call throws tells what it has left behind. -/
theorem process_threw_cases {e : UFEError} (threw : process dw c s = .threw e s') :
    (e ∈ guardErrors ∧ s' = s) ∨ (e = spillDataMismatch ∧ s'.out_data_ = s.out_data_ ∧
      s'.builder.mem_bank_.spill_trailers_ ≠ []) := by
  rcases process_branch dw c s with ⟨e', guard, called⟩ | ⟨own, clean, act, branch, called⟩
  · obtain ⟨rfl, rfl⟩ := Outcome.threw.inj (called.symm.trans threw)
    exact .inl ⟨guard, rfl⟩
  rw [called] at threw
  cases branch with
  | ignored => cases threw
  | opened => exact (append_threw threw).elim
  | whole => exact .inr (move_threw threw)
  | extended => cases threw
  | closed => exact .inr (move_threw threw)
  | turned =>
      rcases Outcome.andThen_threw threw with first | ⟨middle, -, second⟩
      · exact .inr (move_threw first)
      · exact (append_threw second).elim

theorem process_threw {e : UFEError} (threw : process dw c s = .threw e s') :
    Rejected e s s' := by
  rcases process_threw_cases threw with ⟨guard, rfl⟩ | ⟨rfl, event, trailers⟩
  · exact ⟨guardErrors_fatal e guard, rfl, .inl rfl⟩
  · exact ⟨rfl, event, .inr trailers⟩

/-- Conversely, each such step is what the call does. -/
theorem process_of_localStep {m' : BMDBoardMemBank} {f? : Option BMDBoardMemBank}
    (sameBoard : c.boardId = s.builder.board_id_)
    (noTrailers : s.builder.mem_bank_.spill_trailers_ = [])
    (step : LocalStep c s.builder.mem_bank_ m' f?) (accepted : ∀ f ∈ f?, Accepted dw f) :
    process dw c s = .done ⟨⟨s.builder.board_id_, m'⟩, s.out_data_.receive? f?⟩ := by
  cases step with
  | ignored idle headers trailers =>
      simp [process, sameBoard, noTrailers, idle, headers, trailers, BMDMemBank.receive?]
  | opened h idle headers trailers ranged =>
      rcases trailers with trailers | ⟨t, trailers, before⟩
      · simp [process, sameBoard, noTrailers, idle, headers, trailers, append_of_inRange _ ranged,
          BMDMemBank.receive?]
      · simp [process, sameBoard, noTrailers, idle, headers, trailers, append_of_inRange _ ranged,
          Nat.not_le.mpr before, BMDMemBank.receive?]
  | whole h t idle headers trailers after ranged =>
      have moved := moveToEventBank_of_accepted (accepted _ rfl) s.builder.board_id_ s.out_data_
      simp [process, sameBoard, noTrailers, idle, headers, trailers, append_of_inRange _ ranged, after,
        moved, BMDMemBank.receive?]
  | extended h running headers trailers =>
      simp [process, sameBoard, noTrailers, running, headers, trailers, appendAll,
        BMDMemBank.extended, BMDMemBank.receive?]
  | closed h t running headers trailers ranged =>
      have moved := moveToEventBank_of_accepted (accepted _ rfl) s.builder.board_id_ s.out_data_
      simp [process, sameBoard, noTrailers, running, headers, trailers,
        append_of_inRange 0 ranged, moved, BMDMemBank.receive?]
  | turned h h' t running headers trailers before ranged rangedNext =>
      have moved := moveToEventBank_of_accepted (accepted _ rfl) s.builder.board_id_ s.out_data_
      simp [process, sameBoard, noTrailers, running, headers, trailers, before,
        append_of_inRange 0 ranged, moved, append_of_inRange _ rangedNext,
        BMDMemBank.receive?]

end DataFragmentBuilder

end BMDaq
