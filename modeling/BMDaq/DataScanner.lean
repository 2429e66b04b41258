import BMDaq.DataContainer

/-! # The data scanner

`BMDDataScanner::process` walks over the words of a container in two loops: the first one
ends when a trigger header with a non-zero tag has been seen, the second one also checks
trigger tags. Both put the offsets of spill headers and trailers into the container. The
last section says what the two loops do to the container together: one marker for every
spill word, whichever loop meets it.
-/

namespace BMDaq

open Bytes

/-- Return status of a processor (mic11api). -/
inductive proc_status_t where
  | OK_s
  | Error_s
  | FatalError_s
  deriving Repr, DecidableEq

/-- What the scanner prints through `ufe_error_print`. -/
inductive ScanReport where
  | emptyContainer
  | tagMismatch (dwId expected found : Nat)
  deriving Repr, DecidableEq

/-- The scanner's only state between words; `data_word_` is pointed anew at every word. -/
structure BMDDataScanner where
  trigger_tag_ : Nat
  deriving Repr, DecidableEq

/-- The data a scan works on. -/
structure ScanState where
  trigger_tag_ : Nat
  output_ : UFEDataContainer
  printed : List ScanReport
  deriving Repr, DecidableEq

namespace BMDDataScanner

variable (dw : MDdataWordBM)

def pushHeader (c : UFEDataContainer) (offset : Nat) : UFEDataContainer :=
  { c with spill_headers_ := c.spill_headers_ ++ [offset] }

def pushTrailer (c : UFEDataContainer) (offset : Nat) : UFEDataContainer :=
  { c with spill_trailers_ := c.spill_trailers_ ++ [offset] }

def read (w : UInt32) (dwId : Nat) (st : ScanState) : ScanState :=
  match dw.GetDataType w with
  | .TrigHeader => { st with trigger_tag_ := dw.GetTriggerTag w }
  | .SpillHeader => { st with output_ := pushHeader st.output_ (dwId * 4) }
  | .SpillTrailer2 => { st with output_ := pushTrailer st.output_ (dwId * 4) }
  | _ => st

def readAndCheck (w : UInt32) (dwId : Nat) (st : ScanState) : proc_status_t × ScanState :=
  match dw.GetDataType w with
  | .TrigHeader => (.OK_s, { st with trigger_tag_ := dw.GetTriggerTag w })
  | .TrigTrailer1 =>
      -- The error return is commented out in the source: a mismatch is only printed.
      if st.trigger_tag_ ≠ dw.GetTriggerTag w then
        (.OK_s, { st with
          printed := st.printed ++ [.tagMismatch dwId st.trigger_tag_ (dw.GetTriggerTag w)] })
      else (.OK_s, st)
  | .SpillHeader => (.OK_s, { st with output_ := pushHeader st.output_ (dwId * 4) })
  | .SpillTrailer2 => (.OK_s, { st with output_ := pushTrailer st.output_ (dwId * 4) })
  | _ => (.OK_s, st)

/-- `while (trigger_tag_ == 0 && xDw < nDw)`: also returns the words left for the second loop. -/
def firstLoop : List UInt32 → Nat → ScanState → ScanState × List UInt32 × Nat
  | [], xDw, st => (st, [], xDw)
  | w :: rest, xDw, st =>
      if st.trigger_tag_ = 0 then firstLoop rest (xDw + 1) (read dw w xDw st)
      else (st, w :: rest, xDw)

/-- `while (xDw < nDw)`. -/
def secondLoop : List UInt32 → Nat → ScanState → proc_status_t × ScanState
  | [], _, st => (.OK_s, st)
  | w :: rest, xDw, st =>
      match readAndCheck dw w xDw st with
      | (.OK_s, st') => secondLoop rest (xDw + 1) st'
      | (status, st') => (status, st')

/-- The status, the scanner afterwards, the container with its markers and the prints. -/
def process (scanner : BMDDataScanner) (output_ : UFEDataContainer) :
    proc_status_t × ScanState :=
  if output_.size / 4 = 0 then (.Error_s, ⟨scanner.trigger_tag_, output_, [.emptyContainer]⟩)
  else
    let (st, rest, xDw) := firstLoop dw (words output_.buf) 0 ⟨0, output_, []⟩
    secondLoop dw rest xDw st

end BMDDataScanner

/-! ## Markers -/

/-- Byte offsets of the words of one type, for words numbered from `xDw` on. -/
def offsetsOf (dw : MDdataWordBM) (type : DataType) : List UInt32 → Nat → List Nat
  | [], _ => []
  | w :: rest, xDw =>
      if dw.GetDataType w = type then xDw * 4 :: offsetsOf dw type rest (xDw + 1)
      else offsetsOf dw type rest (xDw + 1)

/-- A container with the markers of the given words added. -/
def UFEDataContainer.marked (dw : MDdataWordBM) (c : UFEDataContainer) (ws : List UInt32)
    (xDw : Nat) : UFEDataContainer :=
  { c with
    spill_headers_ := c.spill_headers_ ++ offsetsOf dw .SpillHeader ws xDw
    spill_trailers_ := c.spill_trailers_ ++ offsetsOf dw .SpillTrailer2 ws xDw }

section Markers

variable {dw : MDdataWordBM}

theorem offsetsOf_append (type : DataType) (first second : List UInt32) (xDw : Nat) :
    offsetsOf dw type (first ++ second) xDw =
      offsetsOf dw type first xDw ++ offsetsOf dw type second (xDw + first.length) := by
  induction first generalizing xDw with
  | nil => rfl
  | cons w rest ih =>
      have shift : xDw + 1 + rest.length = xDw + (w :: rest).length := by
        rw [List.length_cons]
        omega
      simp only [List.cons_append, offsetsOf, ih, shift]
      split <;> rfl

theorem mem_offsetsOf {type : DataType} {ws : List UInt32} {xDw m : Nat} :
    m ∈ offsetsOf dw type ws xDw ↔
      ∃ i w, ws[i]? = some w ∧ dw.GetDataType w = type ∧ m = (xDw + i) * 4 := by
  induction ws generalizing xDw with
  | nil => simp [offsetsOf]
  | cons v rest ih =>
      have tail : (∃ i w, (v :: rest)[i + 1]? = some w ∧ dw.GetDataType w = type ∧
          m = (xDw + (i + 1)) * 4) ↔ m ∈ offsetsOf dw type rest (xDw + 1) := by
        simp only [List.getElem?_cons_succ, ih, Nat.add_assoc, Nat.add_comm 1]
      have head : (∃ i w, (v :: rest)[i]? = some w ∧ dw.GetDataType w = type ∧
          m = (xDw + i) * 4) ↔
            (dw.GetDataType v = type ∧ m = xDw * 4) ∨ m ∈ offsetsOf dw type rest (xDw + 1) := by
        rw [← tail]
        constructor
        · rintro ⟨_ | i, w, found, typed, place⟩
          · simp only [List.getElem?_cons_zero, Option.some.injEq] at found
            exact .inl ⟨found ▸ typed, place⟩
          · exact .inr ⟨i, w, found, typed, place⟩
        · rintro (⟨typed, place⟩ | ⟨i, w, found, typed, place⟩)
          · exact ⟨0, v, rfl, typed, place⟩
          · exact ⟨i + 1, w, found, typed, place⟩
      rw [head, offsetsOf]
      split
      · next typed => simp only [List.mem_cons, typed, true_and]
      · next typed => simp only [typed, false_and, false_or]

theorem offsetsOf_pairwise (type : DataType) (ws : List UInt32) (xDw : Nat) :
    (offsetsOf dw type ws xDw).Pairwise (· < ·) := by
  induction ws generalizing xDw with
  | nil => exact List.Pairwise.nil
  | cons w rest ih =>
      rw [offsetsOf]
      split
      · apply List.Pairwise.cons _ (ih (xDw + 1))
        intro m later
        obtain ⟨i, _, _, _, place⟩ := mem_offsetsOf.mp later
        omega
      · exact ih (xDw + 1)

/-- Membership in the offsets of a whole buffer, read off the bytes. -/
theorem mem_offsetsOf_words {type : DataType} {buf : List UInt8} {m : Nat} :
    m ∈ offsetsOf dw type (words buf) 0 ↔
      ∃ i < buf.length / 4, ∃ w,
        wordAt? buf (4 * i) = some w ∧ dw.GetDataType w = type ∧ m = 4 * i := by
  simp only [mem_offsetsOf, words_getElem?, Nat.zero_add, Nat.mul_comm _ 4]
  constructor
  · rintro ⟨i, w, found, typed, place⟩
    have inside := wordAt?_inside found
    exact ⟨i, by omega, w, found, typed, place⟩
  · rintro ⟨i, _, w, found, typed, place⟩
    exact ⟨i, w, found, typed, place⟩

namespace UFEDataContainer

theorem marked_nil (c : UFEDataContainer) (xDw : Nat) : c.marked dw [] xDw = c := by
  simp only [marked, offsetsOf, List.append_nil]

theorem marked_append (c : UFEDataContainer) (first second : List UInt32) (xDw : Nat) :
    (c.marked dw first xDw).marked dw second (xDw + first.length) =
      c.marked dw (first ++ second) xDw := by
  simp only [marked, offsetsOf_append, List.append_assoc]

end UFEDataContainer

namespace BMDDataScanner

/-- Both word handlers have the same effect on the container. -/
theorem read_output (w : UInt32) (xDw : Nat) (st : ScanState) :
    (read dw w xDw st).output_ = st.output_.marked dw [w] xDw := by
  cases type : dw.GetDataType w <;>
    simp [read, type, UFEDataContainer.marked, offsetsOf, pushHeader, pushTrailer]

theorem readAndCheck_output (dw : MDdataWordBM) (w : UInt32) (xDw : Nat) (st : ScanState) :
    (readAndCheck dw w xDw st).1 = .OK_s ∧
      (readAndCheck dw w xDw st).2.output_ = st.output_.marked dw [w] xDw := by
  cases type : dw.GetDataType w <;>
    simp [readAndCheck, type, UFEDataContainer.marked, offsetsOf, pushHeader, pushTrailer]
  split <;> exact ⟨rfl, rfl⟩

/-- The first loop marks a prefix of the words and leaves the rest, correctly numbered. -/
theorem firstLoop_output (dw : MDdataWordBM) (ws : List UInt32) (xDw : Nat) (st : ScanState) :
    ∃ seen rest st', firstLoop dw ws xDw st = (st', rest, xDw + seen.length) ∧
      ws = seen ++ rest ∧ st'.output_ = st.output_.marked dw seen xDw := by
  induction ws generalizing xDw st with
  | nil => exact ⟨[], [], st, rfl, rfl, (UFEDataContainer.marked_nil _ _).symm⟩
  | cons w ws ih =>
      rw [firstLoop]
      split
      · obtain ⟨seen, rest, st', ends, split, marks⟩ := ih (xDw + 1) (read dw w xDw st)
        refine ⟨w :: seen, rest, st', ?_, congrArg (List.cons w) split, ?_⟩
        · rw [ends, List.length_cons, Nat.add_assoc, Nat.add_comm 1]
        · rw [marks, read_output]
          exact UFEDataContainer.marked_append _ [w] seen xDw
      · exact ⟨[], w :: ws, st, rfl, rfl, (UFEDataContainer.marked_nil _ _).symm⟩

/-- The second loop never stops early. -/
theorem secondLoop_cons (dw : MDdataWordBM) (w : UInt32) (ws : List UInt32) (xDw : Nat) (st : ScanState) :
    secondLoop dw (w :: ws) xDw st = secondLoop dw ws (xDw + 1) (readAndCheck dw w xDw st).2 := by
  have ok := (readAndCheck_output dw w xDw st).1
  rw [secondLoop]
  split
  · next st' eq => rw [eq]
  · next status st' notOk eq =>
      rw [eq] at ok
      exact absurd ok notOk

theorem secondLoop_output (dw : MDdataWordBM) (ws : List UInt32) (xDw : Nat) (st : ScanState) :
    (secondLoop dw ws xDw st).1 = .OK_s ∧
      (secondLoop dw ws xDw st).2.output_ = st.output_.marked dw ws xDw := by
  induction ws generalizing xDw st with
  | nil => exact ⟨rfl, (UFEDataContainer.marked_nil _ _).symm⟩
  | cons w ws ih =>
      rw [secondLoop_cons]
      refine ⟨(ih _ _).1, ?_⟩
      rw [(ih _ _).2, (readAndCheck_output dw w xDw st).2]
      exact UFEDataContainer.marked_append _ [w] ws xDw

/-- A scan of at least one whole word succeeds and marks every spill word once. -/
theorem process_output (dw : MDdataWordBM) (scanner : BMDDataScanner) {c : UFEDataContainer} (large : 4 ≤ c.size) :
    (process dw scanner c).1 = .OK_s ∧
      (process dw scanner c).2.output_ = c.marked dw (words c.buf) 0 := by
  obtain ⟨seen, rest, st', ends, split, marks⟩ :=
    firstLoop_output dw (words c.buf) 0 ⟨0, c, []⟩
  obtain ⟨ok, more⟩ := secondLoop_output dw rest (0 + seen.length) st'
  rw [process, if_neg (by omega), ends]
  refine ⟨ok, ?_⟩
  rw [more, marks, split]
  exact UFEDataContainer.marked_append c seen rest 0

theorem process_small (scanner : BMDDataScanner) {c : UFEDataContainer} (small : c.size < 4) :
    process dw scanner c = (.Error_s, ⟨scanner.trigger_tag_, c, [.emptyContainer]⟩) := by
  rw [process, if_pos (Nat.div_eq_of_lt small)]

/-- A scan appends the offsets of the spill headers and trailers, in increasing order and
each once, whatever the trigger words in between and whatever the scanner saw before. -/
theorem process_finds_markers (dw : MDdataWordBM) (scanner : BMDDataScanner)
    (c : UFEDataContainer) :
    (4 ≤ c.size → ∃ headers trailers,
      (process dw scanner c).1 = .OK_s ∧
      (process dw scanner c).2.output_ = { c with
        spill_headers_ := c.spill_headers_ ++ headers
        spill_trailers_ := c.spill_trailers_ ++ trailers } ∧
      headers.Pairwise (· < ·) ∧
      (∀ m, m ∈ headers ↔ ∃ i < c.size / 4, ∃ w,
        wordAt? c.buf (4 * i) = some w ∧ dw.GetDataType w = .SpillHeader ∧ m = 4 * i) ∧
      trailers.Pairwise (· < ·) ∧
      (∀ m, m ∈ trailers ↔ ∃ i < c.size / 4, ∃ w,
        wordAt? c.buf (4 * i) = some w ∧ dw.GetDataType w = .SpillTrailer2 ∧ m = 4 * i)) ∧
    (c.size < 4 → (process dw scanner c).1 = .Error_s ∧
      (process dw scanner c).2.output_ = c) := by
  constructor
  · intro large
    obtain ⟨ok, marks⟩ := process_output dw scanner large
    refine ⟨_, _, ok, marks, ?_, ?_, ?_, ?_⟩
    · exact offsetsOf_pairwise .SpillHeader (words c.buf) 0
    · exact fun m => mem_offsetsOf_words
    · exact offsetsOf_pairwise .SpillTrailer2 (words c.buf) 0
    · exact fun m => mem_offsetsOf_words
  · intro small
    rw [process_small scanner small]
    exact ⟨rfl, rfl⟩

end BMDDataScanner

end Markers

/-- The container that leaves the scanner. -/
def RawContainer.scanned (dw : MDdataWordBM) (c : RawContainer) : UFEDataContainer :=
  (BMDDataScanner.process dw ⟨0⟩ c.toContainer).2.output_

namespace RawContainer

variable {dw : MDdataWordBM} (c : RawContainer)

theorem scanned_eq : c.scanned dw = ⟨c.buf, c.board_id_,
    offsetsOf dw .SpillHeader (words c.buf) 0, offsetsOf dw .SpillTrailer2 (words c.buf) 0⟩ := by
  by_cases large : 4 ≤ c.buf.length
  · rw [scanned, (BMDDataScanner.process_output dw ⟨0⟩ (c := c.toContainer) large).2]
    rfl
  · have small : c.buf.length < 4 := Nat.lt_of_not_le large
    rw [scanned, BMDDataScanner.process_small _ (c := c.toContainer) small, words_eq_nil small]
    rfl

@[simp] theorem scanned_buf : (c.scanned dw).buf = c.buf := by rw [scanned_eq]

@[simp] theorem scanned_boardId : (c.scanned dw).boardId = c.board_id_ := by
  rw [UFEDataContainer.boardId, scanned_eq]

@[simp] theorem scanned_spill_headers : (c.scanned dw).spill_headers_ =
    offsetsOf dw .SpillHeader (words c.buf) 0 := by rw [scanned_eq]

@[simp] theorem scanned_spill_trailers : (c.scanned dw).spill_trailers_ =
    offsetsOf dw .SpillTrailer2 (words c.buf) 0 := by rw [scanned_eq]

end RawContainer

end BMDaq
