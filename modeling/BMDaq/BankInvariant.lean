import BMDaq.Lib.Runs
import BMDaq.BankHeap

/-! # Banks keep their header pointer

A bank object in the heap stands for a bank value: `Held` says that its visible bytes and
markers are those of the value, and that `header_` is the start of its buffer. Each
operation of `BMDMemBank` takes objects that hold values to objects that hold the results
of the value operations, whatever the base class does with its memory, and is not seen by
the other banks.
-/

namespace BMDaq

open Bytes Ownership

open HeaderType (layout)

namespace Banks

/-- Which bank holds which address. -/
def owner (s : Banks) (i : Nat) : Option Address := (s.object i).buffer_

/-- The base part of bank `i` is `c`, with its bytes at `p` and `slack` behind them. -/
structure Base (s : Banks) (i : Nat) (c : UFEDataContainer) (p : Address) (slack : List UInt8) :
    Prop where
  buffer : (s.object i).buffer_ = some p
  block : s.heap p = some (c.buf ++ slack)
  size : (s.object i).size_ = c.size
  board : (s.object i).board_id_ = c.board_id_
  headers : (s.object i).spill_headers_ = c.spill_headers_
  trailers : (s.object i).spill_trailers_ = c.spill_trailers_

/-- Bank `i` holds the bank value `b`, and `header_` points at the start of its bytes. -/
structure Held {H : Type} [HeaderType H] (s : Banks) (i : Nat) (b : BMDMemBank H) (p : Address)
    (slack : List UInt8) : Prop extends Base s i b.toUFEDataContainer p slack where
  header : (s.object i).header_ = some p

/-- Nothing happened to bank `k`, neither to the object nor to its memory. -/
structure Keeps (s s' : Banks) (k : Nat) : Prop where
  object : s'.object k = s.object k
  heap : ∀ p, (s.object k).buffer_ = some p → s'.heap p = s.heap p

/-- Only the banks in `W` are written, and no two banks share memory afterwards. -/
structure Changes (W : Nat → Prop) (s s' : Banks) : Prop where
  owned : Owned s'.heap s'.owner
  others : ∀ k, ¬ W k → Keeps s s' k
  status : s'.status = s.status

section Views

variable {s s' s'' : Banks} {i k : Nat} {c : UFEDataContainer} {p : Address} {slack : List UInt8}

theorem Base.memory (base : Base s i c p slack) : s.block? i = some (c.buf ++ slack) := by
  rw [block?, base.buffer, Option.bind_some, base.block]

theorem Base.container (base : Base s i c p slack) : s.container i = c := by
  have bytes : (c.buf ++ slack).take c.size = c.buf := List.take_left
  rw [Banks.container, base.memory, base.size, base.board, base.headers, base.trailers,
    Option.getD_some, bytes]

theorem Keeps.refl (s : Banks) (k : Nat) : Keeps s s k := ⟨rfl, fun _ _ => rfl⟩

theorem Keeps.trans (first : Keeps s s' k) (second : Keeps s' s'' k) : Keeps s s'' k where
  object := second.object.trans first.object
  heap p holds := (second.heap p (by rw [first.object, holds])).trans (first.heap p holds)

theorem Keeps.base (keeps : Keeps s s' k) (base : Base s k c p slack) : Base s' k c p slack where
  buffer := by rw [keeps.object, base.buffer]
  block := by rw [keeps.heap p base.buffer, base.block]
  size := by rw [keeps.object, base.size]
  board := by rw [keeps.object, base.board]
  headers := by rw [keeps.object, base.headers]
  trailers := by rw [keeps.object, base.trailers]

theorem Keeps.block? (keeps : Keeps s s' k) : s'.block? k = s.block? k := by
  rw [Banks.block?, Banks.block?, keeps.object]
  cases holds : (s.object k).buffer_ with
  | none => rfl
  | some p => exact keeps.heap p holds

theorem Keeps.container (keeps : Keeps s s' k) : s'.container k = s.container k := by
  rw [Banks.container, keeps.block?, keeps.object, Banks.container]

variable {W W' : Nat → Prop}

theorem Changes.refl (owned : Owned s.heap s.owner) : Changes W s s :=
  ⟨owned, fun k _ => .refl s k, rfl⟩

theorem Changes.trans (first : Changes W s s') (second : Changes W s' s'') : Changes W s s'' where
  owned := second.owned
  others k outside := (first.others k outside).trans (second.others k outside)
  status := second.status.trans first.status

variable {H : Type} [HeaderType H] {b : BMDMemBank H}

theorem Keeps.held (keeps : Keeps s s' k) (held : Held s k b p slack) : Held s' k b p slack where
  toBase := keeps.base held.toBase
  header := by rw [keeps.object, held.header]

theorem Held.setStatus (held : Held s i b p slack) (k : Nat) (status : BankStatus) :
    Held (s.setStatus k status) i b p slack :=
  ⟨⟨held.buffer, held.block, held.size, held.board, held.headers, held.trailers⟩, held.header⟩

theorem Held.readHeader (held : Held s i b p slack) (m : H) :
    s.readHeader i m = some (b.header_ m) := by
  have room : (layout m).stop ≤ (b.buf ++ slack).length := by
    have inside := b.inside m
    rw [List.length_append]
    omega
  have block := held.block
  simp only [Banks.readHeader, held.header, Option.bind_some, block, if_pos room,
    Field.get_append (b.inside m)]
  rfl

end Views

/-! ## The base class and the pointer -/

section Primitives

variable {s : Banks} {i : Nat} {c : UFEDataContainer} {p : Address} {slack : List UInt8}

/-- An object may be changed without touching the memory it holds. -/
theorem setObject_changes (owned : Owned s.heap s.owner) {o : BankObject}
    (same : o.buffer_ = (s.object i).buffer_) : Changes (· = i) s (s.setObject i o) where
  owned := by
    have owners : (s.setObject i o).owner = s.owner := by
      funext k
      rcases eq_or_ne k i with rfl | ne
      · simp only [owner, setObject, Function.update_self, same]
      · simp only [owner, setObject, Function.update_of_ne ne]
    rw [owners]
    exact owned
  others k ne := ⟨Function.update_of_ne ne _ _, fun _ _ => rfl⟩
  status := rfl

theorem put_base (s : Banks) (i : Nat) (q : Address) (c : UFEDataContainer) (slack : List UInt8) :
    Base (s.put i q c slack) i c q slack := by
  constructor <;> simp only [put, Function.update_self, store_here]

theorem put_changes (owned : Owned s.heap s.owner) {q : Address}
    (free : release s.heap (s.object i).buffer_ q = none) :
    Changes (· = i) s (s.put i q c slack) where
  owned := by
    have owners : (s.put i q c slack).owner =
        Function.update (Function.update s.owner i none) i (some q) := by
      funext k
      rcases eq_or_ne k i with rfl | ne
      · simp only [owner, put, Function.update_self]
      · simp only [owner, put, Function.update_of_ne ne]
    rw [owners]
    exact (owned.drop i).take (Function.update_self i none s.owner) free
  others k ne := by
    refine ⟨Function.update_of_ne ne _ _, fun p holds => ?_⟩
    have still : Function.update s.owner i none k = some p := by
      rw [Function.update_of_ne ne]
      exact holds
    calc
      (s.put i q c slack).heap p = release s.heap (s.owner i) p :=
        (owned.drop i).store_other (.inl free) still ne
      _ = s.heap p := owned.release_other holds ne
  status := rfl

/-- Where the base class may put `c`, it does, and the rest of the object stays. -/
theorem hold_spec (owned : Owned s.heap s.owner) {place : Placement} (fits : s.Fits i c place) :
    ∃ s' p slack, s.hold i c place = some s' ∧ Base s' i c p slack ∧ Changes (· = i) s s' := by
  cases place with
  | keep =>
      cases holds : (s.object i).buffer_ with
      | none =>
          simp only [Fits, block?, holds, Option.bind_none] at fits
      | some p =>
          obtain ⟨block, there⟩ := owned.live i p holds
          have memory : s.block? i = some block := by rw [block?, holds, Option.bind_some, there]
          simp only [Fits, memory] at fits
          have free : release s.heap (s.object i).buffer_ p = none := by
            rw [holds]
            exact release_held s.heap p
          refine ⟨_, p, block.drop c.size, ?_, put_base s i p c _, put_changes owned free⟩
          simp only [hold, holds, memory, if_pos fits]
  | fresh q slack =>
      have free : s.heap q = none := fits
      refine ⟨_, q, slack, ?_, put_base s i q c slack, put_changes owned (release_free _ free)⟩
      simp only [hold, if_pos free]

theorem castHeader_changes (owned : Owned s.heap s.owner) : Changes (· = i) s (s.castHeader i) :=
  setObject_changes owned rfl

theorem clearBase_base (base : Base s i c p slack) :
    Base (s.clearBase i) i c.clear p (c.buf ++ slack) := by
  constructor <;>
    simp only [clearBase, setObject, Function.update_self, UFEDataContainer.clear,
      UFEDataContainer.size, List.length_nil, List.nil_append, base.buffer, base.block, base.board]

/-- `resize` within the memory shows or hides bytes, it does not change them. -/
theorem resize_spec (owned : Owned s.heap s.owner) (base : Base s i c p slack) {n : Nat}
    (room : n ≤ (c.buf ++ slack).length) :
    ∃ s', s.resize i n = some s' ∧
      Base s' i { c with buf := (c.buf ++ slack).take n } p ((c.buf ++ slack).drop n) ∧
      (s'.object i).header_ = (s.object i).header_ ∧ Changes (· = i) s s' := by
  refine ⟨s.setObject i { s.object i with size_ := n }, ?_, ?_, ?_, setObject_changes owned rfl⟩
  · simp only [resize, base.memory, if_pos room]
  · constructor <;>
      simp only [setObject, Function.update_self, List.take_append_drop, UFEDataContainer.size,
        base.buffer, base.block, base.board, base.headers, base.trailers]
    rw [List.length_take, Nat.min_eq_left room]
  · simp only [setObject, Function.update_self]

variable {H : Type} [HeaderType H] {b : BMDMemBank H}

/-- The cast makes an object whose base part is a bank value hold that value. -/
theorem Base.castHeader (base : Base s i b.toUFEDataContainer p slack) :
    Held (s.castHeader i) i b p slack := by
  constructor
  · constructor <;>
      simp only [Banks.castHeader, setObject, Function.update_self, base.buffer, base.block,
        base.size, base.board, base.headers, base.trailers]
  · simp only [Banks.castHeader, setObject, Function.update_self, base.buffer]

/-- A write through the pointer of a bank is the assignment to the member of its value. -/
theorem Held.writeHeader (held : Held s i b p slack) (owned : Owned s.heap s.owner) (m : H)
    (v : Nat) :
    ∃ s', s.writeHeader i m v = some s' ∧ Held s' i (b.setHeader m v) p slack ∧
      Changes (· = i) s s' := by
  have inside := b.inside m
  have room : (layout m).stop ≤ (b.buf ++ slack).length := by
    rw [List.length_append]
    omega
  refine ⟨{ s with heap := store s.heap p ((layout m).set v (b.buf ++ slack)) }, ?_, ?_, ?_⟩
  · simp only [Banks.writeHeader, held.header, held.block, if_pos room]
  · refine { held with block := ?_, size := ?_ }
    · rw [Field.set_append inside]
      exact store_here s.heap p _
    · exact held.size.trans (b.setHeader_size m v).symm
  · refine ⟨owned.write held.buffer, fun k ne => ⟨rfl, fun a holds => ?_⟩, rfl⟩
    exact owned.store_other (.inr held.buffer) holds ne

theorem Held.writeSize (held : Held s i b p slack) (owned : Owned s.heap s.owner) :
    ∃ s', s.writeSize H i = some s' ∧ Held s' i (b.setHeader HeaderType.size_ b.size) p slack ∧
      Changes (· = i) s s' := by
  rw [Banks.writeSize, held.size]
  exact held.writeHeader owned _ _

theorem Held.header_clear (held : Held s i b p slack) (owned : Owned s.heap s.owner) :
    ∃ s', s.header_clear H i = some s' ∧ Held s' i b.headerClear p slack ∧
      Changes (· = i) s s' := by
  rw [Banks.header_clear, BMDMemBank.headerClear]
  induction HeaderType.header_clear (H := H) generalizing s b with
  | nil => exact ⟨s, rfl, held, .refl owned⟩
  | cons assignment rest ih =>
      obtain ⟨middle, wrote, held', first⟩ := held.writeHeader owned assignment.1 assignment.2
      obtain ⟨s', ran, result, later⟩ := ih held' first.owned
      refine ⟨s', ?_, result, first.trans later⟩
      rw [List.foldlM_cons, wrote]
      exact ran

end Primitives

/-! ## The operations -/

section Operations

variable {H : Type} [HeaderType H] {s : Banks} {i j : Nat} {b : BMDMemBank H} {p : Address}
  {slack : List UInt8}

/-- The call returns; bank `i` holds `b` afterwards and no other bank has changed. -/
def Yields (s : Banks) (i : Nat) (b : BMDMemBank H) (call : Option Banks) : Prop :=
  ∃ s' p slack, call = some s' ∧ Held s' i b p slack ∧ Changes (· = i) s s'

/-- A container with room for the header, as a bank value. -/
private def asBank (c : UFEDataContainer) (large : sizeofHeader H ≤ c.size) : BMDMemBank H :=
  { c with hasHeader := large }

/-- How construction and both `append`s end: set the pointer, then `size_` through it. -/
private theorem settle {c : UFEDataContainer} (base : Base s i c p slack)
    (owned : Owned s.heap s.owner) (large : sizeofHeader H ≤ c.size) :
    Yields s i ((asBank c large).setHeader HeaderType.size_ c.size)
      ((s.castHeader i).writeSize H i) := by
  have pointed := castHeader_changes (i := i) owned
  have cast : Held (s.castHeader i) i (asBank c large) p slack := Base.castHeader base
  obtain ⟨s', wrote, held, sized⟩ := cast.writeSize pointed.owned
  exact ⟨s', p, slack, wrote, held, pointed.trans sized⟩

theorem Yields.after {s₁ : Banks} {call : Option Banks} (second : Yields s₁ i b call)
    (first : Changes (· = i) s s₁) : Yields s i b call := by
  obtain ⟨s', p, slack, ran, held, later⟩ := second
  exact ⟨s', p, slack, ran, held, first.trans later⟩

theorem setObject_blank (new : s.object i = .blank) : s.setObject i .blank = s := by
  rw [setObject, ← new, Function.update_eq_self]

theorem construct_yields (owned : Owned s.heap s.owner) (new : s.object i = .blank) {q : Address}
    (free : s.heap q = none) {memory : List UInt8} (large : sizeofHeader H ≤ memory.length) :
    Yields s i (BMDMemBank.fresh (H := H) (memory.getD · 0)) (s.construct H i q memory) := by
  have front : memory.take (sizeofHeader H) =
      (List.range (sizeofHeader H)).map (memory.getD · 0) := by
    apply List.ext_getElem
    · simp [large]
    · intro n inside _
      rw [List.length_take] at inside
      have within : n < memory.length := by omega
      simp [within]
  have base := put_base s i q ⟨[], 0, [], []⟩ memory
  have first : Changes (· = i) s (s.put i q ⟨[], 0, [], []⟩ memory) :=
    put_changes owned (release_free _ free)
  obtain ⟨s₂, ran, sized, -, second⟩ := resize_spec (n := sizeofHeader H) first.owned base large
  rw [List.nil_append, front] at sized
  have done := settle (H := H) sized second.owned (by simp [UFEDataContainer.size])
  have taken : s.hold i ⟨[], 0, [], []⟩ (.fresh q memory) = some (s.put i q ⟨[], 0, [], []⟩ memory) := by
    simp only [hold, if_pos free]
  simp only [construct, setObject_blank new, taken, ran, Option.bind_eq_bind, Option.bind_some]
  exact done.after (first.trans second)

theorem copyAssign_yields (owned : Owned s.heap s.owner) (source : Held s j b p slack)
    {place : Placement} (fits : s.Fits i (s.container j) place) :
    Yields s i b (s.copyAssign i j place) := by
  obtain ⟨s₁, a, behind, held, base, first⟩ := hold_spec owned fits
  rw [source.container] at base
  refine ⟨s₁.castHeader i, a, behind, ?_, base.castHeader, first.trans (castHeader_changes first.owned)⟩
  rw [copyAssign, held]
  rfl

/-- A copy construction is a copy assignment to a blank object, in fresh memory. -/
theorem copyConstruct_yields (owned : Owned s.heap s.owner) (new : s.object i = .blank)
    {q : Address} (free : s.heap q = none) (source : Held s j b p slack) (room : List UInt8) :
    Yields s i b (s.copyConstruct i j q room) := by
  have assigned : s.copyConstruct i j q room = s.copyAssign i j (.fresh q room) := by
    rw [copyConstruct, setObject_blank new]
    rfl
  rw [assigned]
  exact copyAssign_yields owned source free

theorem appendSlice_yields (owned : Owned s.heap s.owner) (held : Held s i b p slack)
    {c : UFEDataContainer} {pos size : Nat} {place : Placement}
    (fits : s.Fits i ((s.container i).append c (pos % 2 ^ 32) size) place) :
    Yields s i (b.append c pos size) (s.appendSlice H i c pos size place) := by
  obtain ⟨s₁, a, behind, ran, base, first⟩ := hold_spec owned fits
  rw [held.container] at base
  have large : sizeofHeader H ≤ (b.toUFEDataContainer.append c (pos % 2 ^ 32) size).size := by
    have before := b.hasHeader
    simp only [UFEDataContainer.size, UFEDataContainer.append_buf, List.length_append] at before ⊢
    omega
  have done := settle base first.owned large
  rw [appendSlice, ran]
  exact done.after first

/-- `clear` leaves pointer and memory where they are. -/
theorem clear_held (owned : Owned s.heap s.owner) (held : Held s i b p slack) :
    ∃ s' slack', s.clear H i = some s' ∧ Held s' i b.clear p slack' ∧ Changes (· = i) s s' := by
  have large : sizeofHeader H ≤ b.buf.length := b.hasHeader
  have first : Changes (· = i) s (s.clearBase i) := setObject_changes owned rfl
  have pointer : ((s.clearBase i).object i).header_ = some p := by
    simp only [clearBase, setObject, Function.update_self, held.header]
  obtain ⟨s₂, ran, base, same, second⟩ := resize_spec (n := sizeofHeader H) first.owned
    (clearBase_base held.toBase) (by
      simp only [UFEDataContainer.clear, List.nil_append, List.length_append]
      omega)
  have front : ((b.toUFEDataContainer.clear).buf ++ (b.buf ++ slack)).take (sizeofHeader H) =
      b.buf.take (sizeofHeader H) := List.take_append_of_le_length large
  rw [front] at base
  have room : sizeofHeader H ≤ (b.buf.take (sizeofHeader H)).length := by
    rw [List.length_take, Nat.min_eq_left large]
  have shown : Held s₂ i (asBank ⟨b.buf.take (sizeofHeader H), b.board_id_, [], []⟩ room) p _ :=
    ⟨base, same.trans pointer⟩
  obtain ⟨s', assigned, result, third⟩ := shown.header_clear second.owned
  refine ⟨s', _, ?_, result, first.trans (second.trans third)⟩
  rw [clear, ran]
  exact assigned

/-- A move between two banks: object and memory of the source go to the target, and the
    source is left with null pointers. -/
theorem moveAssign_held (owned : Owned s.heap s.owner) (ne : i ≠ j) (source : Held s j b p slack) :
    Held (s.moveAssign i j) i b p slack ∧ ((s.moveAssign i j).object j).buffer_ = none ∧
      ((s.moveAssign i j).object j).header_ = none ∧
      Changes (fun k => k = i ∨ k = j) s (s.moveAssign i j) := by
  have other : ((s.moveAssign i j).object i) = s.object j := by
    simp [moveAssign, moveBase, setObject, ne, ne.symm]
  have left : ((s.moveAssign i j).object j) = .blank := by
    simp [moveAssign, moveBase, setObject, ne, ne.symm, BankObject.blank]
  have freed : (s.moveAssign i j).heap = release s.heap (s.owner i) := by
    simp only [moveAssign, if_neg ne, moveBase, setObject, owner]
  refine ⟨⟨⟨?_, ?_, ?_, ?_, ?_, ?_⟩, ?_⟩, by rw [left]; rfl, by rw [left]; rfl, ?_, ?_, ?_⟩
  · rw [other, source.buffer]
  · rw [freed, owned.release_other source.buffer ne.symm, source.block]
  · rw [other, source.size]
  · rw [other, source.board]
  · rw [other, source.headers]
  · rw [other, source.trailers]
  · rw [other, source.header]
  · have owners : (s.moveAssign i j).owner = Function.update
        (Function.update (Function.update s.owner i none) i (Function.update s.owner i none j))
        j none := by
      funext k
      rcases eq_or_ne k j with rfl | notSource
      · simp only [owner, left, Function.update_self, BankObject.blank]
      rcases eq_or_ne k i with rfl | notTarget
      · simp only [owner, other, Function.update_of_ne ne, Function.update_of_ne ne.symm,
          Function.update_self]
      · simp [owner, moveAssign, moveBase, setObject, ne, notSource, notTarget]
    rw [owners, freed]
    exact (owned.drop i).handOver i j
  · intro k outside
    have notTarget : k ≠ i := fun same => outside (.inl same)
    have notSource : k ≠ j := fun same => outside (.inr same)
    refine ⟨?_, fun a holds => ?_⟩
    · simp [moveAssign, moveBase, setObject, ne, notSource, notTarget]
    · rw [freed]
      exact owned.release_other holds notTarget
  · simp only [moveAssign, if_neg ne, moveBase, setObject]

end Operations

end Banks

end BMDaq
