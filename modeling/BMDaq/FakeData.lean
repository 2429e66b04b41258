import BMDaq.EventBuilder

/-! # Fake data

Words and containers laid out as the repository's test helpers build them: board id from
bit 21, word type in the top four bits, a trailer of three words. They are the concrete
inputs of the examples and counterexamples in the later modules.
-/

namespace BMDaq.FakeData

open Bytes

/-- The getters on the words the test helpers write. -/
def fakeWord : MDdataWordBM where
  GetDataType w :=
    match w.toNat / 2 ^ 28 with
    | 0 => .SpillHeader
    | 6 => .SpillTrailer1
    | 7 => .SpillTrailer2
    | _ => .other
  GetSpillTag w := w.toNat % 2 ^ 16
  GetBoardId w := w.toNat / 2 ^ 21 % 2 ^ 7
  GetTriggerTag w := w.toNat % 2 ^ 16

/-- `setTrHeader`. -/
def spillHeader (board tag : Nat) : UInt32 := .ofNat (board * 2 ^ 21 + tag)

/-- `setTrTrailer`, in word order. -/
def spillTrailer (board tag : Nat) : List UInt32 :=
  [.ofNat (0x60000000 + board * 2 ^ 21 + tag), .ofNat (0x60000000 + board * 2 ^ 21), 0x70000001]

/-- The filling of `makeContainer`. -/
def filler : UInt32 := 0x30000000

/-- A whole spill in four words. -/
def shortSpill (board tag : Nat) : List UInt32 := spillHeader board tag :: spillTrailer board tag

/-- A container of the given words, as it leaves the scanner. -/
def makeContainer (board : Int) (ws : List UInt32) : UFEDataContainer :=
  (BMDDataScanner.process fakeWord ⟨0⟩ ⟨wordBytes ws, board, [], []⟩).2.output_

/-- Zeroed memory under every bank. -/
def zeroed : Memory := ⟨fun _ => 0, fun _ _ => 0⟩

/-- An event builder for boards 0 and 5. -/
abbrev twoBoards : BMDEventBuilder := (BMDEventBuilder.new 0).init [0, 5] zeroed

/-- A call with a working recorder. -/
def quiet : Environment := ⟨0, none⟩

/-- The container arrives while the recorder works. -/
def arriving (board : Int) (ws : List UInt32) : Arrival := ⟨makeContainer board ws, quiet⟩

end BMDaq.FakeData
