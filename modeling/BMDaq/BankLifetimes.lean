import BMDaq.BankInvariant

/-! # Banks over their lifetimes

The representation invariant of the banks, kept by every permitted operation: a usable
bank holds a bank value with the right `size_`, a moved-from one holds nothing, and no two
banks share memory. A whole sequence of operations is then a lawful run, in which each
operation has its effect on the banks it writes and none on the others.
-/

namespace BMDaq

open Ownership

open HeaderType (layout)

/-- The banks an operation writes. -/
def BankOp.Writes : BankOp → Nat → Prop
  | .construct i _ _, k | .constructSized i _ _ _, k | .copyConstruct i _ _ _, k
  | .copyAssign i _ _, k | .append i _ _, k | .appendSlice i _ _ _ _, k | .clear i, k => k = i
  | .moveConstruct i j, k | .moveAssign i j, k => k = i ∨ k = j

namespace Banks

variable (H : Type) [HeaderType H]

structure WellKept (s : Banks) : Prop where
  owned : Owned s.heap s.owner
  usable : ∀ i, s.status i = .usable →
    ∃ (b : BMDMemBank H) (p : Address) (slack : List UInt8), Held s i b p slack ∧ b.SizeRight
  movedFrom : ∀ i, s.status i = .movedFrom →
    (s.object i).buffer_ = none ∧ (s.object i).header_ = none
  absent : ∀ i, s.status i = .absent → s.object i = .blank

/-- What is promised of a bank that can be used: `header_` is the start of its own buffer,
    which no other bank shares, the header fits, and `header_->size_ == size()`. -/
structure HeaderValid (s : Banks) (i : Nat) : Prop where
  pointer : ∃ p memory, (s.object i).buffer_ = some p ∧ (s.object i).header_ = some p ∧
    s.heap p = some memory ∧ (s.object i).size_ ≤ memory.length
  own : ∀ k, (s.object k).buffer_ = (s.object i).buffer_ → k = i
  room : sizeofHeader H ≤ (s.object i).size_
  size : s.readHeader i (HeaderType.size_ (H := H)) = some ((s.object i).size_ % sizeT)

/-- Bank `i` has grown by the bytes `added`: only `size_` has changed before them. -/
structure Grows (s s' : Banks) (i : Nat) (added : List UInt8) : Prop where
  size : (s'.container i).size = (s.container i).size + added.length
  tail : (s'.container i).buf.drop (s.container i).size = added
  front : ∀ offset < (s.container i).size,
    (offset < (layout (HeaderType.size_ (H := H))).offset ∨
      (layout (HeaderType.size_ (H := H))).stop ≤ offset) →
    (s'.container i).buf[offset]? = (s.container i).buf[offset]?
  header : ∀ m : H, m ≠ HeaderType.size_ → s'.readHeader i m = s.readHeader i m

omit [HeaderType H] in
/-- Bank `i` has taken over what bank `j` held. -/
structure Moved (s s' : Banks) (i j : Nat) : Prop where
  contents : s'.container i = s.container j
  buffer : (s'.object i).buffer_ = (s.object j).buffer_
  header : (s'.object i).header_ = (s.object j).header_
  null : (s'.object j).header_ = none

/-- What an operation does to the banks it writes. -/
def Effect (s : Banks) (op : BankOp) (s' : Banks) : Prop :=
  match op with
  | .construct i _ _ | .constructSized i _ _ _ => (s'.object i).size_ = sizeofHeader H
  | .copyConstruct i j _ _ | .copyAssign i j _ =>
      s'.container i = s.container j ∧ s'.container j = s.container j
  | .moveConstruct i j => Moved s s' i j
  | .moveAssign i j => if i = j then s' = s else Moved s s' i j
  | .append i c _ => Grows H s s' i (s.read c).buf
  | .appendSlice i c pos size _ =>
      ∃ slice, slice = ((s.read c).buf.drop (pos % 2 ^ 32)).take size ∧ slice.length = size ∧
        Grows H s s' i slice
  | .clear i =>
      (s'.object i).size_ = sizeofHeader H ∧ (s'.object i).buffer_ = (s.object i).buffer_ ∧
        (s'.object i).header_ = (s.object i).header_

variable {H} {s s' : Banks} {i j : Nat} {b : BMDMemBank H} {p p' : Address}
  {slack slack' : List UInt8}

@[simp] theorem status_here (s : Banks) (i : Nat) (status : BankStatus) :
    (s.setStatus i status).status i = status := Function.update_self i _ _

theorem status_there {k : Nat} (ne : k ≠ i) (s : Banks) (status : BankStatus) :
    (s.setStatus i status).status k = s.status k := Function.update_of_ne ne _ _

theorem wellKept_empty : WellKept H empty where
  owned := owned_empty _
  usable := by intro i usable; cases usable
  movedFrom := by intro i moved; cases moved
  absent := by intro i _; rfl

theorem WellKept.headerValid (kept : WellKept H s) (usable : s.status i = .usable) :
    HeaderValid H s i := by
  obtain ⟨b, p, slack, held, right⟩ := kept.usable i usable
  constructor
  · refine ⟨p, b.buf ++ slack, held.buffer, held.header, held.block, ?_⟩
    rw [held.size, UFEDataContainer.size, List.length_append]
    exact Nat.le_add_right _ _
  · intro k same
    rw [held.buffer] at same
    exact kept.owned.apart k i p same held.buffer
  · rw [held.size]
    exact b.hasHeader
  · rw [held.readHeader, held.size]
    exact congrArg some right

/-- What has to be shown of each bank: it is as it was, or usable, or moved-from. -/
theorem WellKept.next (kept : WellKept H s) (owned : Owned s'.heap s'.owner)
    (each : ∀ k, Keeps s s' k ∧ s'.status k = s.status k ∨
      s'.status k = .usable ∧
        (∃ (b : BMDMemBank H) (p : Address) (slack : List UInt8), Held s' k b p slack ∧ b.SizeRight) ∨
      s'.status k = .movedFrom ∧ (s'.object k).buffer_ = none ∧ (s'.object k).header_ = none) :
    WellKept H s' := by
  constructor
  · exact owned
  · intro k usable
    obtain ⟨keeps, same⟩ | ⟨-, held⟩ | ⟨moved, -⟩ := each k
    · obtain ⟨b, p, slack, held, right⟩ := kept.usable k (same ▸ usable)
      exact ⟨b, p, slack, keeps.held held, right⟩
    · exact held
    · rw [usable] at moved
      cases moved
  · intro k moved
    obtain ⟨keeps, same⟩ | ⟨usable, -⟩ | ⟨-, null⟩ := each k
    · rw [keeps.object]
      exact kept.movedFrom k (same ▸ moved)
    · rw [moved] at usable
      cases usable
    · exact null
  · intro k absent
    obtain ⟨keeps, same⟩ | ⟨usable, -⟩ | ⟨moved, -⟩ := each k
    · exact keeps.object.trans (kept.absent k (same ▸ absent))
    · rw [absent] at usable
      cases usable
    · rw [absent] at moved
      cases moved

/-- An operation that writes one bank and leaves it with a right `size_`. -/
theorem WellKept.retarget (kept : WellKept H s) (held : Held s' i b p slack) (right : b.SizeRight)
    (changes : Changes (· = i) s s') : WellKept H (s'.setStatus i .usable) := by
  refine kept.next changes.owned fun k => ?_
  rcases eq_or_ne k i with rfl | ne
  · exact .inr (.inl ⟨status_here s' k _, b, p, slack, held.setStatus k _, right⟩)
  · have keeps := changes.others k ne
    refine .inl ⟨⟨keeps.object, keeps.heap⟩, ?_⟩
    rw [status_there ne, changes.status]

/-- A move writes two banks: the target is usable and the source moved-from afterwards. -/
theorem WellKept.handOver (kept : WellKept H s) (ne : i ≠ j) (held : Held s' i b p slack)
    (right : b.SizeRight) (null : (s'.object j).buffer_ = none ∧ (s'.object j).header_ = none)
    (changes : Changes (fun k => k = i ∨ k = j) s s') :
    WellKept H ((s'.setStatus i .usable).setStatus j .movedFrom) := by
  refine kept.next changes.owned fun k => ?_
  rcases eq_or_ne k j with rfl | source
  · exact .inr (.inr ⟨status_here _ k _, null⟩)
  rcases eq_or_ne k i with rfl | target
  · refine .inr (.inl ⟨?_, b, p, slack, (held.setStatus k _).setStatus j _, right⟩)
    rw [status_there ne, status_here]
  · have keeps := changes.others k (not_or.mpr ⟨target, source⟩)
    refine .inl ⟨⟨keeps.object, keeps.heap⟩, ?_⟩
    rw [status_there source, status_there target, changes.status]

theorem grows_of_append {c : UFEDataContainer} {pos n : Nat} (before : Held s i b p slack)
    (after : Held s' i (b.append c pos n) p' slack') (ranged : c.InRange (pos % 2 ^ 32) n) :
    Grows H s s' i ((c.buf.drop (pos % 2 ^ 32)).take n) := by
  have long : ((c.buf.drop (pos % 2 ^ 32)).take n).length = n := by
    simp only [UFEDataContainer.InRange, UFEDataContainer.size] at ranged
    rw [List.length_take, List.length_drop]
    omega
  constructor
  · rw [before.container, after.container, long]
    exact b.append_size ranged
  · rw [before.container, after.container]
    exact b.append_drop
  · intro offset inside outside
    rw [before.container] at inside ⊢
    rw [after.container]
    exact b.append_byte inside outside
  · intro m other
    rw [before.readHeader, after.readHeader, b.append_header m other]

theorem setStatus_same {status : BankStatus} (same : s.status i = status) :
    s.setStatus i status = s := by
  rw [setStatus, ← same, Function.update_eq_self]

/-! ## One operation -/

variable (H) in
/-- The operation returns, the invariant is kept, the operation has its effect, and the
    banks it does not write are untouched. -/
def GoesWell (s : Banks) (op : BankOp) : Prop :=
  ∃ s', s.step H op = some s' ∧ WellKept H s' ∧ Effect H s op s' ∧ ∀ k, ¬ op.Writes k → Keeps s s' k

/-- Operations with one target, which is usable afterwards. -/
theorem goesWell_of_yields {op : BankOp} (kept : WellKept H s)
    (yields : Yields s i b (s.perform H op)) (right : b.SizeRight)
    (marks : ∀ s' : Banks, s'.status = s.status → s'.mark op = s'.setStatus i .usable)
    (writes : ∀ k, ¬ op.Writes k → k ≠ i)
    (effect : ∀ s' p slack, Held s' i b p slack → (∀ k, k ≠ i → Keeps s s' k) →
      Effect H s op s') : GoesWell H s op := by
  obtain ⟨s', p, slack, ran, held, changes⟩ := yields
  have stepped : s.step H op = some (s'.setStatus i .usable) := by
    rw [step, ran, Option.map_some, marks s' changes.status]
  have others (k : Nat) (ne : k ≠ i) : Keeps s (s'.setStatus i .usable) k :=
    ⟨(changes.others k ne).object, (changes.others k ne).heap⟩
  exact ⟨_, stepped, kept.retarget held right changes,
    effect _ p slack (held.setStatus i _) others, fun k outside => others k (writes k outside)⟩

theorem construct_goesWell {q : Address} {memory : List UInt8} (kept : WellKept H s)
    (absent : s.status i = .absent) (free : s.heap q = none)
    (large : sizeofHeader H ≤ memory.length) : GoesWell H s (.construct i q memory) := by
  have yields := construct_yields kept.owned (kept.absent i absent) free large
  refine goesWell_of_yields kept yields (BMDMemBank.fresh_sizeRight _) (fun _ _ => rfl)
    (fun _ outside => outside) fun s' p slack held _ => ?_
  exact held.size.trans (BMDMemBank.fresh_size _)

/-- A copy: both banks hold the source's value afterwards. -/
theorem copied_effect (source : Held s j b p slack) (target : Held s' i b p' slack')
    (others : ∀ k, k ≠ i → Keeps s s' k) :
    s'.container i = s.container j ∧ s'.container j = s.container j := by
  have first : s'.container i = s.container j := by rw [target.container, source.container]
  rcases eq_or_ne j i with rfl | ne
  · exact ⟨first, first⟩
  · exact ⟨first, (others j ne).container⟩

theorem move_goesWell {op : BankOp} (kept : WellKept H s) (ne : i ≠ j)
    (performed : s.perform H op = some (s.moveAssign i j))
    (marks : ∀ s' : Banks, s'.mark op = (s'.setStatus i .usable).setStatus j .movedFrom)
    (writes : ∀ k, k = i ∨ k = j → op.Writes k)
    (effect : ∀ s' : Banks, Moved s s' i j → Effect H s op s')
    (usable : s.status j = .usable) : GoesWell H s op := by
  obtain ⟨b, p, slack, source, right⟩ := kept.usable j usable
  obtain ⟨target, gone, null, changes⟩ := moveAssign_held kept.owned ne source
  refine ⟨_, by rw [step, performed, Option.map_some, marks], kept.handOver ne target right
    ⟨gone, null⟩ changes, effect _ ?_, ?_⟩
  · have held := (target.setStatus i .usable).setStatus j .movedFrom
    exact ⟨by rw [held.container, source.container], by rw [held.buffer, source.buffer],
      by rw [held.header, source.header], null⟩
  · intro k outside
    have keeps := changes.others k (fun written => outside (writes k written))
    exact ⟨keeps.object, keeps.heap⟩

/-- Both `append`s run the same code; a whole container is the slice of all its bytes. -/
theorem append_goesWell {op : BankOp} {c : UFEDataContainer} {pos size : Nat} {place : Placement}
    (kept : WellKept H s) (usable : s.status i = .usable)
    (performed : s.perform H op = s.appendSlice H i c pos size place)
    (marks : ∀ s' : Banks, s'.mark op = s') (writes : ∀ k, ¬op.Writes k → k ≠ i)
    (effect : ∀ s' : Banks, Grows H s s' i ((c.buf.drop (pos % 2 ^ 32)).take size) →
      Effect H s op s')
    (ranged : c.InRange (pos % 2 ^ 32) size)
    (fits : s.Fits i ((s.container i).append c (pos % 2 ^ 32) size) place) : GoesWell H s op := by
  obtain ⟨b, p, slack, held, right⟩ := kept.usable i usable
  have yields := appendSlice_yields kept.owned held fits
  rw [← performed] at yields
  refine goesWell_of_yields kept yields b.append_sizeRight ?_ writes ?_
  · intro s' same
    rw [marks, setStatus_same (same ▸ usable)]
  · exact fun s' _ _ after _ => effect s' (grows_of_append held after ranged)

theorem clear_goesWell [HeaderClear H] (kept : WellKept H s) (usable : s.status i = .usable) :
    GoesWell H s (.clear i) := by
  obtain ⟨b, p, slack, held, right⟩ := kept.usable i usable
  obtain ⟨s', slack', ran, after, changes⟩ := clear_held kept.owned held
  have same : s'.setStatus i .usable = s' := setStatus_same (changes.status ▸ usable)
  refine ⟨s', by rw [step, perform, ran]; rfl, ?_, ?_, changes.others⟩
  · rw [← same]
    exact kept.retarget after b.clear_sizeRight changes
  · exact ⟨after.size.trans b.clear_size, by rw [after.buffer, held.buffer],
      by rw [after.header, held.header]⟩

/-- Every permitted operation of a well-kept state goes well. -/
theorem WellKept.goesWell [HeaderClear H] {op : BankOp} (kept : WellKept H s)
    (permitted : s.Permitted H op) : GoesWell H s op := by
  cases op with
  | construct i q memory =>
      obtain ⟨absent, free, large⟩ := permitted
      exact construct_goesWell kept absent free large
  | constructSized i size q memory =>
      obtain ⟨absent, free, large, -⟩ := permitted
      exact construct_goesWell kept absent free large
  | copyConstruct i j q room =>
      obtain ⟨absent, usable, free⟩ := permitted
      obtain ⟨b, p, slack, source, right⟩ := kept.usable j usable
      exact goesWell_of_yields kept
        (copyConstruct_yields kept.owned (kept.absent i absent) free source room) right
        (fun _ _ => rfl) (fun _ outside => outside) fun s' _ _ => copied_effect source
  | copyAssign i j place =>
      obtain ⟨-, usable, fits⟩ := permitted
      obtain ⟨b, p, slack, source, right⟩ := kept.usable j usable
      exact goesWell_of_yields kept (copyAssign_yields kept.owned source fits) right
        (fun _ _ => rfl) (fun _ outside => outside) fun s' _ _ => copied_effect source
  | moveConstruct i j =>
      obtain ⟨absent, usable⟩ := permitted
      have ne : i ≠ j := by
        rintro rfl
        rw [absent] at usable
        cases usable
      refine move_goesWell kept ne ?_ ?_ (fun _ written => written) (fun _ moved => moved) usable
      · rw [perform, moveConstruct, setObject_blank (kept.absent i absent)]
      · exact fun s' => if_neg ne
  | moveAssign i j =>
      obtain ⟨-, usable⟩ := permitted
      rcases eq_or_ne i j with rfl | ne
      · -- the guard of the source: a self-move does nothing
        refine ⟨s, ?_, kept, ?_, fun k _ => .refl s k⟩
        · simp only [step, perform, moveAssign, mark, if_true, Option.map_some]
        · rw [Effect, if_pos rfl]
      · refine move_goesWell kept ne rfl (fun s' => if_neg ne) (fun _ written => written) ?_ usable
        intro s' moved
        rw [Effect, if_neg ne]
        exact moved
  | append i c place =>
      obtain ⟨usable, -, fits⟩ := permitted
      have performed : s.perform H (.append i c place) =
          s.appendSlice H i (s.read c) 0 (s.read c).size place := rfl
      have ranged : (s.read c).InRange (0 % 2 ^ 32) (s.read c).size := by
        simp [UFEDataContainer.InRange]
      refine append_goesWell kept usable performed (fun _ => rfl) (fun _ outside => outside) ?_
        ranged fits
      intro s' grows
      have whole : ((s.read c).buf.drop (0 % 2 ^ 32)).take (s.read c).size = (s.read c).buf := by
        simp [UFEDataContainer.size]
      rw [whole] at grows
      exact grows
  | appendSlice i c pos size place =>
      obtain ⟨usable, -, ranged, fits⟩ := permitted
      have performed : s.perform H (.appendSlice i c pos size place) =
          s.appendSlice H i (s.read c) pos size place := rfl
      refine append_goesWell kept usable performed (fun _ => rfl) (fun _ outside => outside) ?_
        ranged fits
      intro s' grows
      refine ⟨_, rfl, ?_, grows⟩
      simp only [UFEDataContainer.InRange, UFEDataContainer.size] at ranged
      rw [List.length_take, List.length_drop]
      omega
  | clear i => exact clear_goesWell kept permitted

/-! ## Sequences of operations -/

/-- What no operation of a sequence writes is the same at its end. -/
theorem untouched [HeaderClear H] {ops : List BankOp} {k : Nat} (kept : WellKept H s)
    (lawful : Lawful (Permitted H) (step H) s ops) (avoided : ∀ op ∈ ops, ¬ op.Writes k)
    (ran : run (step H) s ops = some s') : Keeps s s' k := by
  refine run_lawful_rel (R := fun s s' => Keeps s s' k) (fun s => .refl s k)
    (fun _ _ _ => Keeps.trans) ?_ kept lawful avoided ran
  intro s op s' kept permitted outside stepped
  obtain ⟨s'', stepped', kept', -, others⟩ := kept.goesWell permitted
  rw [stepped, Option.some.injEq] at stepped'
  subst stepped'
  exact ⟨kept', others k outside⟩

/-- Every sequence of operations in which each bank is used as its status allows returns.
    All usable banks have a valid header then, all moved-from ones a null pointer. The next
    operation has its effect and leaves the banks it does not write as they are, and so does
    everything that follows it. -/
theorem banks_valid [HeaderClear H] (ops : List BankOp)
    (lawful : Lawful (Permitted H) (step H) empty ops) :
    ∃ s, run (step H) empty ops = some s ∧
      (∀ i, s.status i = .usable → HeaderValid H s i) ∧
      (∀ i, s.status i = .movedFrom → (s.object i).header_ = none) ∧
      ∀ op, s.Permitted H op → ∃ s', s.step H op = some s' ∧ Effect H s op s' ∧
        (∀ k, ¬ op.Writes k → s'.container k = s.container k) ∧
        ∀ later, Lawful (Permitted H) (step H) s' later →
          ∃ s'', run (step H) s' later = some s'' ∧
            ∀ k, (∀ op ∈ later, ¬ op.Writes k) →
              s''.container k = s'.container k ∧ s''.object k = s'.object k := by
  have total (s : Banks) (op : BankOp) (kept : WellKept H s) (permitted : s.Permitted H op) :
      ∃ s', s.step H op = some s' ∧ WellKept H s' := by
    obtain ⟨s', stepped, kept', -⟩ := kept.goesWell permitted
    exact ⟨s', stepped, kept'⟩
  obtain ⟨s, ran, kept⟩ := run_lawful total wellKept_empty lawful
  refine ⟨s, ran, fun i => kept.headerValid, fun i moved => (kept.movedFrom i moved).2, ?_⟩
  intro op permitted
  obtain ⟨s', stepped, kept', effect, others⟩ := kept.goesWell permitted
  refine ⟨s', stepped, effect, fun k outside => (others k outside).container, ?_⟩
  intro later lawful'
  obtain ⟨s'', ran', -⟩ := run_lawful total kept' lawful'
  refine ⟨s'', ran', fun k avoided => ?_⟩
  have keeps := untouched kept' lawful' avoided ran'
  exact ⟨keeps.container, keeps.object⟩

/-- A bank is filled and copied, the copy grows by a slice of its source in new memory and
    is moved, and the moved-from name is assigned to again. -/
def bankSession : List BankOp :=
  [.construct 0 100 (List.replicate 30 7),
    .append 0 (.container ⟨[1, 2, 3, 4, 5], 9, [], []⟩) .keep,
    .copyConstruct 1 0 200 [],
    .appendSlice 1 (.bank 0) 24 4 (.fresh 300 [0, 0]),
    .moveConstruct 2 1,
    .clear 2,
    .copyAssign 1 0 (.fresh 400 []),
    .moveAssign 0 1]

theorem bankSession_valid : ∃ s, run (step BMDEventHeader) empty bankSession = some s ∧
    (∀ i, s.status i = .usable → HeaderValid BMDEventHeader s i) ∧
    (∀ i, s.status i = .movedFrom → (s.object i).header_ = none) := by
  obtain ⟨s, ran, valid, null, -⟩ := banks_valid (H := BMDEventHeader) bankSession (by decide +kernel)
  exact ⟨s, ran, valid, null⟩

end Banks

end BMDaq
