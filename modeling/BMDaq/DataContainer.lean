import BMDaq.Lib.Bytes
import BMDaq.Lib.Runs

/-! # Data words and data containers

`MDdataWordBM` (bm-unpack) is only used through getters of one 32-bit word, so it is a
record of functions. `UFEDataContainer` (libufecpp) is a byte buffer with a board id and
the two marker lists the scanner fills; its `append` copies a slice together with the
markers inside it, rebased to where the slice lands.
-/

namespace BMDaq

open Bytes

/-- The word types the data acquisition looks at. -/
inductive DataType where
  | SpillHeader
  | SpillTrailer1
  | SpillTrailer2
  | TrigHeader
  | TrigTrailer1
  | other
  deriving Repr, DecidableEq

/-- The getters of a data word, as functions of the word `SetDataPtr` points at. -/
structure MDdataWordBM where
  GetDataType : UInt32 → DataType
  GetSpillTag : UInt32 → Nat
  GetBoardId : UInt32 → Nat
  GetTriggerTag : UInt32 → Nat

/-- Severity of a `UFEError`. The code only tells `SERIOUS` and `FATAL` from the rest. -/
inductive Severity where
  | SERIOUS
  | FATAL
  | other
  deriving Repr, DecidableEq

structure UFEError where
  description : String
  location : String
  severity : Severity
  deriving Repr, DecidableEq

/-- `sizeof(size_t)` and the range of a `size_t`. -/
def sizeT : Nat := 2 ^ 64

/-- Subtraction of `size_t` values wraps around. -/
def sizeSub (a b : Nat) : Nat := if b ≤ a then a - b else sizeT + a - b

theorem sizeSub_of_le {a b : Nat} (le : b ≤ a) : sizeSub a b = a - b := if_pos le

structure UFEDataContainer where
  buf : List UInt8
  board_id_ : Int
  spill_headers_ : List Nat
  spill_trailers_ : List Nat
  deriving Repr, DecidableEq

namespace UFEDataContainer

def size (c : UFEDataContainer) : Nat := c.buf.length

def boardId (c : UFEDataContainer) : Int := c.board_id_

/-- The slice `[pos, pos + n)` can be read. -/
def InRange (c : UFEDataContainer) (pos n : Nat) : Prop := pos + n ≤ c.size

instance (c : UFEDataContainer) (pos n : Nat) : Decidable (c.InRange pos n) :=
  inferInstanceAs (Decidable (pos + n ≤ c.size))

/-- Markers of a slice, rebased so that the slice starts at `base`. -/
def rebase (markers : List Nat) (pos n base : Nat) : List Nat :=
  (markers.filter (fun m => decide (pos ≤ m ∧ m < pos + n))).map (fun m => m - pos + base)

/-- `append(c, pos, n)`: the bytes `[pos, pos + n)` of `c` and the markers among them. -/
def append (dst c : UFEDataContainer) (pos n : Nat) : UFEDataContainer where
  buf := dst.buf ++ (c.buf.drop pos).take n
  board_id_ := dst.board_id_
  spill_headers_ := dst.spill_headers_ ++ rebase c.spill_headers_ pos n dst.size
  spill_trailers_ := dst.spill_trailers_ ++ rebase c.spill_trailers_ pos n dst.size

/-- `clear()`: no bytes, no markers. The board id is kept. -/
def clear (c : UFEDataContainer) : UFEDataContainer where
  buf := []
  board_id_ := c.board_id_
  spill_headers_ := []
  spill_trailers_ := []

/-- `buffer() + pos` read as a data word. -/
def word? (c : UFEDataContainer) (pos : Nat) : Option UInt32 := wordAt? c.buf pos

@[simp] theorem append_buf (dst c : UFEDataContainer) (pos n : Nat) :
    (dst.append c pos n).buf = dst.buf ++ (c.buf.drop pos).take n := rfl

@[simp] theorem append_spill_headers (dst c : UFEDataContainer) (pos n : Nat) :
    (dst.append c pos n).spill_headers_ =
      dst.spill_headers_ ++ rebase c.spill_headers_ pos n dst.size := rfl

@[simp] theorem append_spill_trailers (dst c : UFEDataContainer) (pos n : Nat) :
    (dst.append c pos n).spill_trailers_ =
      dst.spill_trailers_ ++ rebase c.spill_trailers_ pos n dst.size := rfl

theorem append_size {dst c : UFEDataContainer} {pos n : Nat} (inside : c.InRange pos n) :
    (dst.append c pos n).size = dst.size + n := by
  simp only [InRange, size] at inside
  simp only [size, append_buf, List.length_append, List.length_take, List.length_drop]
  omega

@[simp] theorem rebase_nil (pos n base : Nat) : rebase [] pos n base = [] := rfl

theorem rebase_one_inside {m pos n : Nat} (base : Nat) (after : pos ≤ m) (before : m < pos + n) :
    rebase [m] pos n base = [m - pos + base] := by
  simp [rebase, after, before]

/-- A slice that covers every marker shifts them all. -/
theorem rebase_all {markers : List Nat} {n : Nat} (base : Nat) (inside : ∀ m ∈ markers, m < n) :
    rebase markers 0 n base = markers.map (· + base) := by
  have all : markers.filter (fun m => decide (0 ≤ m ∧ m < 0 + n)) = markers := by
    rw [List.filter_eq_self]
    intro m member
    simpa using inside m member
  simp only [rebase, all, Nat.sub_zero]

end UFEDataContainer

/-- A container as the readout delivers it, before the scanner has looked at it: no
    markers yet. `BMDReadout` counts the bytes of a container in an `int`, and offsets go
    to `append` as `unsigned int`; `fits` is all of that the builders rely on. -/
structure RawContainer where
  buf : List UInt8
  board_id_ : Int
  fits : buf.length ≤ 2 ^ 32

namespace RawContainer

def toContainer (c : RawContainer) : UFEDataContainer := ⟨c.buf, c.board_id_, [], []⟩

end RawContainer

end BMDaq
