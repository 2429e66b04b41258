import BMDaq.Lib.Bytes

/-! # Length-prefixed blocks

A buffer is read by jumping from block to block, where each block starts with its own
length. A reader that is told the number of blocks and where they stop either meets both
exactly or fails.
-/

namespace BMDaq.Frames

open Bytes

/-- The length that the block at an offset states in its first bytes. -/
def lengthAt (width : Nat) (buf : List UInt8) (pos : Nat) : Nat := Field.get ⟨pos, width⟩ buf

/-- Jump exactly so many times, each time from an offset before `stop`, and end at `stop`. -/
def blocksFrom (width : Nat) (buf : List UInt8) (stop : Nat) :
    Nat → Nat → Option (List (List UInt8))
  | 0, pos => if pos = stop then some [] else none
  | jumps + 1, pos =>
      if pos < stop then
        (blocksFrom width buf stop jumps (pos + lengthAt width buf pos)).map
          ((buf.drop pos).take (lengthAt width buf pos) :: ·)
      else none

/-- A block that states its own length. -/
structure Framed (width : Nat) (block : List UInt8) : Prop where
  long : width ≤ block.length
  stated : decode (block.take width) = block.length

theorem Framed.lengthAt {width : Nat} {block : List UInt8} (framed : Framed width block)
    (front rest : List UInt8) :
    lengthAt width (front ++ (block ++ rest)) front.length = block.length := by
  rw [Frames.lengthAt, Field.get, List.drop_left, List.take_append_of_le_length framed.long,
    framed.stated]

/-- A sequence of framed blocks is read back as it was written, and only with the right number
    of jumps. -/
theorem blocksFrom_flatten {width : Nat} (some : 0 < width) (front : List UInt8)
    {blocks : List (List UInt8)} (framed : ∀ block ∈ blocks, Framed width block) (jumps : Nat) :
    blocksFrom width (front ++ blocks.flatten) (front.length + blocks.flatten.length) jumps
      front.length = if jumps = blocks.length then .some blocks else none := by
  induction blocks generalizing front jumps with
  | nil =>
      cases jumps with
      | zero => simp [blocksFrom]
      | succ jumps => simp [blocksFrom]
  | cons block rest ih =>
      have first := framed block List.mem_cons_self
      have long := first.long
      cases jumps with
      | zero =>
          have before : front.length ≠ front.length + (block :: rest).flatten.length := by
            rw [List.flatten_cons, List.length_append]
            omega
          rw [blocksFrom, if_neg before, List.length_cons, if_neg (Nat.succ_ne_zero _).symm]
      | succ jumps =>
          have later := ih (front ++ block)
            (fun b member => framed b (List.mem_cons_of_mem _ member)) jumps
          have ahead : front.length < front.length + (block.length + rest.flatten.length) := by omega
          simp only [List.append_assoc, List.length_append, Nat.add_assoc] at later
          simp only [List.flatten_cons, List.length_cons, blocksFrom, ahead, if_true,
            first.lengthAt, List.length_append, later, List.drop_left, List.take_left,
            Nat.add_right_cancel_iff]
          split
          · rfl
          · rfl

/-! ## Whole buffers -/

/-- Cut a buffer into the blocks whose lengths it states, in at most so many cuts. -/
def cut (width : Nat) : Nat → List UInt8 → Option (List (List UInt8))
  | _, [] => some []
  | 0, _ :: _ => none
  | cuts + 1, byte :: rest =>
      let length := decode ((byte :: rest).take width)
      if width ≤ length ∧ length ≤ (byte :: rest).length then
        (cut width cuts ((byte :: rest).drop length)).map ((byte :: rest).take length :: ·)
      else none

/-- Every block has a byte, so there are no more blocks than bytes. -/
def splitBlocks (width : Nat) (buf : List UInt8) : Option (List (List UInt8)) :=
  cut width buf.length buf

theorem cut_flatten {width : Nat} (some : 0 < width) {blocks : List (List UInt8)}
    (framed : ∀ block ∈ blocks, Framed width block) {cuts : Nat} (enough : blocks.length ≤ cuts) :
    cut width cuts blocks.flatten = .some blocks := by
  induction blocks generalizing cuts with
  | nil => cases cuts <;> rfl
  | cons block rest ih =>
      have first := framed block List.mem_cons_self
      have long := first.long
      cases cuts with
      | zero => cases enough
      | succ cuts =>
          have later := ih (fun b member => framed b (List.mem_cons_of_mem block member))
            (Nat.le_of_succ_le_succ enough)
          cases block with
          | nil =>
              rw [List.length_nil] at long
              omega
          | cons byte bytes =>
              have stated : decode (((byte :: bytes) ++ rest.flatten).take width) =
                  (byte :: bytes).length := by
                rw [List.take_append_of_le_length long]
                exact first.stated
              rw [List.flatten_cons, List.cons_append, cut, ← List.cons_append, stated]
              have fits : width ≤ (byte :: bytes).length ∧
                  (byte :: bytes).length ≤ ((byte :: bytes) ++ rest.flatten).length :=
                ⟨long, by rw [List.length_append]; exact Nat.le_add_right _ _⟩
              simp only [fits, and_self, if_true, List.drop_left, List.take_left, later,
                Option.map_some]

/-- Blocks that state their lengths need nothing between them. -/
theorem splitBlocks_flatten {width : Nat} (some : 0 < width) {blocks : List (List UInt8)}
    (framed : ∀ block ∈ blocks, Framed width block) :
    splitBlocks width blocks.flatten = .some blocks := by
  apply cut_flatten some framed
  rw [List.length_flatten, ← List.length_map (f := List.length)]
  apply List.length_le_sum_of_one_le
  intro length member
  obtain ⟨block, inside, rfl⟩ := List.mem_map.mp member
  exact some.trans_le (framed block inside).long

end BMDaq.Frames
