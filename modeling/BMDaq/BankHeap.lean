import BMDaq.Lib.Ownership
import BMDaq.MemBank

/-! # Memory banks and the memory under them

`BMDMemBank` adds a raw pointer to its base class: `header_` is meant to point at the
start of the buffer, which the base class allocates, reallocates and frees. Here a bank is
an object that holds addresses, and the bytes are in a heap of blocks. What the base class
does with its memory is an argument of each operation (`Placement`): it may keep the block
or move to a fresh one. Reads and writes through `header_` are undefined when the pointer
is null, when its block was freed and when the member lies outside of the block.
-/

namespace BMDaq

open Bytes Ownership

open HeaderType (layout)

abbrev Address := Nat

/-- One bank object: what the base class keeps, and `header_`. -/
structure BankObject where
  buffer_ : Option Address
  size_ : Nat
  board_id_ : Int
  spill_headers_ : List Nat
  spill_trailers_ : List Nat
  header_ : Option Address
  deriving Repr, DecidableEq

/-- After `UFEDataContainer()`: no bytes. `header_` is not initialised yet. -/
def BankObject.blank : BankObject := ⟨none, 0, 0, [], [], none⟩

/-- What has become of the name of a bank. Only the rules of use look at it. -/
inductive BankStatus where
  | absent
  | usable
  | movedFrom
  deriving Repr, DecidableEq

/-- Where an operation of the base class leaves its bytes. `slack` is the memory behind them. -/
inductive Placement where
  | keep
  | fresh (q : Address) (slack : List UInt8)
  deriving Repr, DecidableEq

/-- What `append` takes its bytes from. -/
inductive AppendSource where
  | container (c : UFEDataContainer)
  | bank (j : Nat)
  deriving Repr, DecidableEq

inductive BankOp where
  | construct (i : Nat) (q : Address) (memory : List UInt8)
  | constructSized (i s : Nat) (q : Address) (memory : List UInt8)
  | copyConstruct (i j : Nat) (q : Address) (slack : List UInt8)
  | moveConstruct (i j : Nat)
  | copyAssign (i j : Nat) (place : Placement)
  | moveAssign (i j : Nat)
  | append (i : Nat) (c : AppendSource) (place : Placement)
  | appendSlice (i : Nat) (c : AppendSource) (pos size : Nat) (place : Placement)
  | clear (i : Nat)
  deriving Repr, DecidableEq

structure Banks where
  heap : Address → Option (List UInt8)
  object : Nat → BankObject
  status : Nat → BankStatus

namespace Banks

/-- No bank has been constructed. -/
def empty : Banks := ⟨fun _ => none, fun _ => .blank, fun _ => .absent⟩

def setObject (s : Banks) (i : Nat) (o : BankObject) : Banks :=
  { s with object := Function.update s.object i o }

def setStatus (s : Banks) (i : Nat) (status : BankStatus) : Banks :=
  { s with status := Function.update s.status i status }

/-! ## The base class -/

/-- The memory of a bank. -/
def block? (s : Banks) (i : Nat) : Option (List UInt8) := (s.object i).buffer_.bind s.heap

/-- What the base class shows: the first `size()` bytes of the memory, and the markers. -/
def container (s : Banks) (i : Nat) : UFEDataContainer where
  buf := ((s.block? i).getD []).take (s.object i).size_
  board_id_ := (s.object i).board_id_
  spill_headers_ := (s.object i).spill_headers_
  spill_trailers_ := (s.object i).spill_trailers_

def read (s : Banks) : AppendSource → UFEDataContainer
  | .container c => c
  | .bank j => s.container j

/-- The base part of a bank becomes `c`, with its bytes at `q`. `header_` is not touched. -/
def put (s : Banks) (i : Nat) (q : Address) (c : UFEDataContainer) (slack : List UInt8) : Banks where
  heap := store (release s.heap (s.object i).buffer_) q (c.buf ++ slack)
  object := Function.update s.object i
    { s.object i with
      buffer_ := some q
      size_ := c.size
      board_id_ := c.board_id_
      spill_headers_ := c.spill_headers_
      spill_trailers_ := c.spill_trailers_ }
  status := s.status

/-- `put` where the base class decides to: in its own block when `c` fits there, or in a
    block that was free. -/
def hold (s : Banks) (i : Nat) (c : UFEDataContainer) : Placement → Option Banks
  | .keep =>
      match (s.object i).buffer_, s.block? i with
      | some p, some block =>
          if c.size ≤ block.length then some (s.put i p c (block.drop c.size)) else none
      | _, _ => none
  | .fresh q slack => if s.heap q = none then some (s.put i q c slack) else none

/-- `UFEDataContainer::clear()`. -/
def clearBase (s : Banks) (i : Nat) : Banks :=
  s.setObject i { s.object i with size_ := 0, spill_headers_ := [], spill_trailers_ := [] }

/-- `resize(n)`, for `n` up to the memory size. -/
def resize (s : Banks) (i n : Nat) : Option Banks :=
  match s.block? i with
  | some block => if n ≤ block.length then some (s.setObject i { s.object i with size_ := n }) else none
  | none => none

/-- `UFEDataContainer::operator=(std::move(b))`: the memory changes hands. -/
def moveBase (s : Banks) (i j : Nat) : Banks where
  heap := release s.heap (s.object i).buffer_
  object := Function.update
    (Function.update s.object i { s.object j with header_ := (s.object i).header_ })
    j { BankObject.blank with header_ := (s.object j).header_ }
  status := s.status

/-! ## The header -/

variable {H : Type} [HeaderType H]

/-- `header_->m`. -/
def readHeader (s : Banks) (i : Nat) (m : H) : Option Nat :=
  match (s.object i).header_.bind s.heap with
  | some block => if (layout m).stop ≤ block.length then some ((layout m).get block) else none
  | none => none

/-- `header_->m = v`. -/
def writeHeader (s : Banks) (i : Nat) (m : H) (v : Nat) : Option Banks :=
  match (s.object i).header_ with
  | some p =>
      match s.heap p with
      | some block =>
          if (layout m).stop ≤ block.length then
            some { s with heap := store s.heap p ((layout m).set v block) }
          else none
      | none => none
  | none => none

/-- `header_ = reinterpret_cast<HeaderType*>(this->buffer())`. -/
def castHeader (s : Banks) (i : Nat) : Banks :=
  s.setObject i { s.object i with header_ := (s.object i).buffer_ }

variable (H)

/-- `header_->size_ = this->size()`. -/
def writeSize (s : Banks) (i : Nat) : Option Banks :=
  s.writeHeader i (HeaderType.size_ (H := H)) (s.object i).size_

/-- `header_clear(header_)`. -/
def header_clear (s : Banks) (i : Nat) : Option Banks :=
  (HeaderType.header_clear (H := H)).foldlM (fun s assignment => s.writeHeader i assignment.1 assignment.2) s

/-! ## The operations of `BMDMemBank` -/

/-- `BMDMemBank()`: `memory` is what lies at the buffer when the base class has resized. -/
def construct (s : Banks) (i : Nat) (q : Address) (memory : List UInt8) : Option Banks := do
  let s ← (s.setObject i .blank).hold i ⟨[], 0, [], []⟩ (.fresh q memory)
  let s ← s.resize i (sizeofHeader H)
  (s.castHeader i).writeSize H i

/-- `BMDMemBank(const BMDMemBank &b)`. -/
def copyConstruct (s : Banks) (i j : Nat) (q : Address) (slack : List UInt8) : Option Banks := do
  let s ← (s.setObject i .blank).hold i (s.container j) (.fresh q slack)
  some (s.castHeader i)

/-- `operator=(const BMDMemBank &b)`. -/
def copyAssign (s : Banks) (i j : Nat) (place : Placement) : Option Banks := do
  let s ← s.hold i (s.container j) place
  some (s.castHeader i)

/-- `operator=(BMDMemBank &&b)`. -/
def moveAssign (s : Banks) (i j : Nat) : Banks :=
  if i = j then s
  else
    let moved := s.moveBase i j
    let pointed := moved.setObject i { moved.object i with header_ := (moved.object j).header_ }
    pointed.setObject j { pointed.object j with header_ := none }

/-- `BMDMemBank(BMDMemBank &&b)`. -/
def moveConstruct (s : Banks) (i j : Nat) : Banks := (s.setObject i .blank).moveAssign i j

/-- `append(const UFEDataContainer &c)`. -/
def append (s : Banks) (i : Nat) (c : UFEDataContainer) (place : Placement) : Option Banks := do
  let s ← s.hold i ((s.container i).append c 0 c.size) place
  (s.castHeader i).writeSize H i

/-- `append(const UFEDataContainer &c, unsigned int pos, size_t size)`. -/
def appendSlice (s : Banks) (i : Nat) (c : UFEDataContainer) (pos size : Nat) (place : Placement) :
    Option Banks := do
  let s ← s.hold i ((s.container i).append c (pos % 2 ^ 32) size) place
  (s.castHeader i).writeSize H i

/-- `clear()`. -/
def clear (s : Banks) (i : Nat) : Option Banks := do
  let s ← (s.clearBase i).resize i (sizeofHeader H)
  s.header_clear H i

/-- What the code does. -/
def perform (s : Banks) : BankOp → Option Banks
  | .construct i q memory => s.construct H i q memory
  | .constructSized i _ q memory => s.construct H i q memory
  | .copyConstruct i j q slack => s.copyConstruct i j q slack
  | .moveConstruct i j => some (s.moveConstruct i j)
  | .copyAssign i j place => s.copyAssign i j place
  | .moveAssign i j => some (s.moveAssign i j)
  | .append i c place => s.append H i (s.read c) place
  | .appendSlice i c pos size place => s.appendSlice H i (s.read c) pos size place
  | .clear i => s.clear H i

/-- A target becomes usable, the source of a move becomes moved-from. -/
def mark (s : Banks) : BankOp → Banks
  | .construct i _ _ | .constructSized i _ _ _ | .copyConstruct i _ _ _ | .copyAssign i _ _ =>
      s.setStatus i .usable
  | .moveConstruct i j | .moveAssign i j =>
      if i = j then s else (s.setStatus i .usable).setStatus j .movedFrom
  | .append _ _ _ | .appendSlice _ _ _ _ _ | .clear _ => s

def step (s : Banks) (op : BankOp) : Option Banks := (s.perform H op).map (·.mark op)

/-! ## The rules of use -/

/-- The source of an `append` can be read. -/
def Readable (s : Banks) : AppendSource → Prop
  | .container _ => True
  | .bank j => s.status j = .usable

/-- The base class can put `c` there: in memory it has, or at an address that is free. -/
def Fits (s : Banks) (i : Nat) (c : UFEDataContainer) : Placement → Prop
  | .keep =>
      match s.block? i with
      | some block => c.size ≤ block.length
      | none => False
  | .fresh q _ => s.heap q = none

/-- Only new names are constructed, nothing but assignment-to is applied to a moved-from
    bank, slices are in range, and the base class has the memory it was asked for. -/
def Permitted (s : Banks) : BankOp → Prop
  | .construct i q memory =>
      s.status i = .absent ∧ s.heap q = none ∧ sizeofHeader H ≤ memory.length
  | .constructSized i size q memory =>
      s.status i = .absent ∧ s.heap q = none ∧ sizeofHeader H ≤ memory.length ∧
        size ≤ memory.length
  | .copyConstruct i j q _ => s.status i = .absent ∧ s.status j = .usable ∧ s.heap q = none
  | .moveConstruct i j => s.status i = .absent ∧ s.status j = .usable
  | .copyAssign i j place =>
      s.status i ≠ .absent ∧ s.status j = .usable ∧ s.Fits i (s.container j) place
  | .moveAssign i j => s.status i ≠ .absent ∧ s.status j = .usable
  | .append i c place =>
      s.status i = .usable ∧ s.Readable c ∧
        s.Fits i ((s.container i).append (s.read c) 0 (s.read c).size) place
  | .appendSlice i c pos size place =>
      s.status i = .usable ∧ s.Readable c ∧ (s.read c).InRange (pos % 2 ^ 32) size ∧
        s.Fits i ((s.container i).append (s.read c) (pos % 2 ^ 32) size) place
  | .clear i => s.status i = .usable

instance (s : Banks) (c : AppendSource) : Decidable (s.Readable c) :=
  match c with
  | .container _ => .isTrue trivial
  | .bank j => inferInstanceAs (Decidable (s.status j = .usable))

instance (s : Banks) (i : Nat) (c : UFEDataContainer) (place : Placement) :
    Decidable (s.Fits i c place) :=
  match place with
  | .keep =>
      match known : s.block? i with
      | some block => decidable_of_iff (c.size ≤ block.length) (by simp only [Fits, known])
      | none => .isFalse (by simp only [Fits, known, not_false_eq_true])
  | .fresh q _ => inferInstanceAs (Decidable (s.heap q = none))

instance (s : Banks) (op : BankOp) : Decidable (s.Permitted H op) :=
  match op with
  | .construct i q memory => inferInstanceAs (Decidable
      (s.status i = .absent ∧ s.heap q = none ∧ sizeofHeader H ≤ memory.length))
  | .constructSized i size q memory => inferInstanceAs (Decidable
      (s.status i = .absent ∧ s.heap q = none ∧ sizeofHeader H ≤ memory.length ∧
        size ≤ memory.length))
  | .copyConstruct i j q _ => inferInstanceAs (Decidable
      (s.status i = .absent ∧ s.status j = .usable ∧ s.heap q = none))
  | .moveConstruct i j => inferInstanceAs (Decidable (s.status i = .absent ∧ s.status j = .usable))
  | .copyAssign i j place => inferInstanceAs (Decidable
      (s.status i ≠ .absent ∧ s.status j = .usable ∧ s.Fits i (s.container j) place))
  | .moveAssign i j => inferInstanceAs (Decidable (s.status i ≠ .absent ∧ s.status j = .usable))
  | .append i c place => inferInstanceAs (Decidable
      (s.status i = .usable ∧ s.Readable c ∧
        s.Fits i ((s.container i).append (s.read c) 0 (s.read c).size) place))
  | .appendSlice i c pos size place => inferInstanceAs (Decidable
      (s.status i = .usable ∧ s.Readable c ∧ (s.read c).InRange (pos % 2 ^ 32) size ∧
        s.Fits i ((s.container i).append (s.read c) (pos % 2 ^ 32) size) place))
  | .clear i => inferInstanceAs (Decidable (s.status i = .usable))

end Banks

end BMDaq
