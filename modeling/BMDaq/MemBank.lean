import BMDaq.DataContainer

/-! # Memory banks

A bank is a data container whose first bytes are overlaid by a header structure. The
header type enters the code through its size, its members and its `header_clear`
overload only, so it is represented by the enumeration of its members with their layout.
A bank value carries the proof that its buffer is large enough for the header.
-/

namespace BMDaq

open Bytes

/-- What the bank template uses of its header type. `H` lists the members. -/
class HeaderType (H : Type) where
  sizeof : Nat
  layout : H → Field
  size_ : H
  /-- The assignments made by `header_clear`, in order. -/
  header_clear : List (H × Nat)
  fits : ∀ m, (layout m).stop ≤ sizeof
  apart : ∀ m m', m ≠ m' → (layout m).Apart (layout m')
  size_wide : (layout size_).width = 8

/-- `struct BMDDataFragmenHeader`. -/
inductive BMDDataFragmenHeader where
  | size_
  deriving Repr, DecidableEq

/-- `struct BMDEventHeader`. -/
inductive BMDEventHeader where
  | size_
  | time_
  | event_id_
  | type_
  | n_subevents_
  | n_fragments_
  deriving Repr, DecidableEq

instance : HeaderType BMDDataFragmenHeader where
  sizeof := 8
  layout := fun | .size_ => ⟨0, 8⟩
  size_ := .size_
  header_clear := [(.size_, 8)]
  fits := by intro m; cases m; decide
  apart := by intro m m' ne; cases m; cases m'; exact (ne rfl).elim
  size_wide := rfl

instance : HeaderType BMDEventHeader where
  sizeof := 24
  layout := fun
    | .size_ => ⟨0, 8⟩
    | .time_ => ⟨8, 8⟩
    | .event_id_ => ⟨16, 4⟩
    | .type_ => ⟨20, 1⟩
    | .n_subevents_ => ⟨21, 1⟩
    | .n_fragments_ => ⟨22, 2⟩
  size_ := .size_
  header_clear := [(.size_, 24), (.n_fragments_, 0), (.n_subevents_, 0), (.type_, 0)]
  fits := by intro m; cases m <;> decide
  apart := by intro m m' ne; cases m <;> cases m' <;> first | exact (ne rfl).elim | decide
  size_wide := rfl

open HeaderType (layout)

/-- `sizeof(HeaderType)`. -/
abbrev sizeofHeader (H : Type) [HeaderType H] : Nat := HeaderType.sizeof H

@[simp] theorem sizeof_fragment : sizeofHeader BMDDataFragmenHeader = 8 := rfl

structure BMDMemBank (H : Type) [HeaderType H] extends UFEDataContainer where
  hasHeader : sizeofHeader H ≤ toUFEDataContainer.size

/-- The fragment bank of one board. -/
abbrev BMDBoardMemBank := BMDMemBank BMDDataFragmenHeader

/-- The bank in which an event is collected. -/
abbrev BMDEventMemBank := BMDMemBank BMDEventHeader

namespace BMDMemBank

variable {H : Type} [HeaderType H]

/-- `header_->m`. -/
def header_ (b : BMDMemBank H) (m : H) : Nat := (layout m).get b.buf

/-- The bytes after the header. -/
def payload (b : BMDMemBank H) : List UInt8 := b.buf.drop (sizeofHeader H)

theorem inside (b : BMDMemBank H) (m : H) : (layout m).stop ≤ b.buf.length :=
  le_trans (HeaderType.fits m) b.hasHeader

/-- `header_->m = v`. -/
def setHeader (b : BMDMemBank H) (m : H) (v : Nat) : BMDMemBank H where
  buf := (layout m).set v b.buf
  board_id_ := b.board_id_
  spill_headers_ := b.spill_headers_
  spill_trailers_ := b.spill_trailers_
  hasHeader := by
    have same := Field.set_length (v := v) (b.inside m)
    simpa only [UFEDataContainer.size, same] using b.hasHeader

/-- Construction: the base class hands out memory whose content is `mem`; only `size_` of
    the header is assigned. -/
def fresh (mem : Nat → UInt8) : BMDMemBank H :=
  let blank : BMDMemBank H :=
    { buf := (List.range (sizeofHeader H)).map mem
      board_id_ := 0
      spill_headers_ := []
      spill_trailers_ := []
      hasHeader := by simp [UFEDataContainer.size] }
  blank.setHeader HeaderType.size_ blank.size

/-- `append(c, pos, size)`: the base class appends, then `size_` is refreshed. The offset
    is passed as `unsigned int`. -/
def append (b : BMDMemBank H) (c : UFEDataContainer) (pos size : Nat) : BMDMemBank H :=
  let grown : BMDMemBank H :=
    { b.toUFEDataContainer.append c (pos % 2 ^ 32) size with
      hasHeader := by
        have old := b.hasHeader
        simp only [UFEDataContainer.size, UFEDataContainer.append_buf, List.length_append] at old ⊢
        omega }
  grown.setHeader HeaderType.size_ grown.size

/-- `append(c)`: the whole container. -/
def appendAll (b : BMDMemBank H) (c : UFEDataContainer) : BMDMemBank H := b.append c 0 c.size

/-- `header_clear(header_)`. -/
def headerClear (b : BMDMemBank H) : BMDMemBank H :=
  (HeaderType.header_clear (H := H)).foldl (fun b assignment => b.setHeader assignment.1 assignment.2) b

/-- `clear()`: the base class drops bytes and markers, `resize` makes the header bytes
    visible again as they were, and `header_clear` assigns its members. -/
def clear (b : BMDMemBank H) : BMDMemBank H :=
  let emptied : BMDMemBank H :=
    { b.toUFEDataContainer.clear with
      buf := b.buf.take (sizeofHeader H)
      hasHeader := by
        have old := b.hasHeader
        simp only [UFEDataContainer.size, List.length_take] at old ⊢
        omega }
  emptied.headerClear

section Header

variable (b : BMDMemBank H) (m m' : H) (v : Nat)

@[simp] theorem setHeader_size : (b.setHeader m v).size = b.size := Field.set_length (b.inside m)

@[simp] theorem setHeader_spill_headers : (b.setHeader m v).spill_headers_ = b.spill_headers_ := rfl

@[simp] theorem setHeader_spill_trailers :
    (b.setHeader m v).spill_trailers_ = b.spill_trailers_ := rfl

@[simp] theorem setHeader_payload : (b.setHeader m v).payload = b.payload :=
  Field.drop_set (b.inside m) (HeaderType.fits m)

theorem header_setHeader : (b.setHeader m v).header_ m = v % 256 ^ (layout m).width :=
  Field.get_set (b.inside m)

theorem header_setHeader_other (ne : m ≠ m') : (b.setHeader m v).header_ m' = b.header_ m' :=
  Field.get_set_apart (b.inside m) (HeaderType.apart m m' ne)

theorem setHeader_word (past : sizeofHeader H ≤ offset) :
    (b.setHeader m v).word? offset = b.word? offset :=
  wordAt?_set (b.inside m) (le_trans (HeaderType.fits m) past)

end Header

theorem size_eq (b : BMDMemBank H) : b.size = sizeofHeader H + b.payload.length := by
  have large := b.hasHeader
  simp only [UFEDataContainer.size] at large ⊢
  rw [payload, List.length_drop]
  omega

/-- Past the header, words of the bank are words of its payload. -/
theorem payload_word (b : BMDMemBank H) (offset : Nat) :
    b.word? (sizeofHeader H + offset) = wordAt? b.payload offset :=
  (wordAt?_drop b.buf _ offset).symm

/-- `header_->size_ == size()`, compared as `size_t` values. -/
def SizeRight (b : BMDMemBank H) : Prop := b.header_ HeaderType.size_ = b.size % sizeT

instance (b : BMDMemBank H) : Decidable b.SizeRight :=
  inferInstanceAs (Decidable (b.header_ HeaderType.size_ = b.size % sizeT))

theorem size_range : 256 ^ (layout (HeaderType.size_ (H := H))).width = sizeT := by
  rw [HeaderType.size_wide]
  rfl

theorem setHeader_sizeRight (b : BMDMemBank H) : (b.setHeader HeaderType.size_ b.size).SizeRight := by
  rw [SizeRight, header_setHeader, setHeader_size, size_range]

/-- With the right `size_`, the bytes of a fragment are determined by its payload. -/
theorem fragment_buf {b : BMDBoardMemBank} (right : b.SizeRight) :
    b.buf = encode 8 (8 + b.payload.length) ++ b.payload := by
  have large : 8 ≤ b.buf.length := b.hasHeader
  have front : (b.buf.take 8).length = 8 := by rw [List.length_take]; omega
  have value : decode (b.buf.take 8) = b.size % 256 ^ 8 := right
  have header : encode 8 (b.size % 256 ^ 8) = b.buf.take 8 := by
    have back := encode_decode (b.buf.take 8)
    rwa [front, value] at back
  calc
    b.buf = b.buf.take 8 ++ b.buf.drop 8 := (List.take_append_drop 8 b.buf).symm
    _ = encode 8 b.size ++ b.payload := by
      rw [← header, encode_mod]
      rfl
    _ = encode 8 (8 + b.payload.length) ++ b.payload := by
      rw [size_eq, sizeof_fragment]

section Fresh

variable (mem : Nat → UInt8)

theorem fresh_sizeRight : (fresh mem : BMDMemBank H).SizeRight := setHeader_sizeRight _

@[simp] theorem fresh_size : (fresh mem : BMDMemBank H).size = sizeofHeader H := by
  rw [fresh, setHeader_size]
  simp only [UFEDataContainer.size, List.length_map, List.length_range]

@[simp] theorem fresh_payload : (fresh mem : BMDMemBank H).payload = [] := by
  have sizes := size_eq (fresh mem : BMDMemBank H)
  rw [fresh_size] at sizes
  exact List.length_eq_zero_iff.mp (by omega)

/-- The memory under a fragment bank does not show: its only member is assigned. -/
theorem fresh_fragment (mem mem' : Nat → UInt8) :
    (fresh mem : BMDBoardMemBank) = fresh mem' := by
  have same : (fresh mem : BMDBoardMemBank).buf = (fresh mem' : BMDBoardMemBank).buf := by
    rw [fragment_buf (fresh_sizeRight mem), fragment_buf (fresh_sizeRight mem'), fresh_payload,
      fresh_payload]
  simp only [fresh, setHeader, mk.injEq, UFEDataContainer.mk.injEq, and_self, and_true] at same ⊢
  exact same

end Fresh

section Append

variable (b : BMDMemBank H) {c : UFEDataContainer} {pos n : Nat}

theorem append_sizeRight : (b.append c pos n).SizeRight := setHeader_sizeRight _

theorem append_payload :
    (b.append c pos n).payload = b.payload ++ (c.buf.drop (pos % 2 ^ 32)).take n := by
  rw [append, setHeader_payload, payload, UFEDataContainer.append_buf,
    List.drop_append_of_le_length b.hasHeader, payload]

theorem append_size (ranged : c.InRange (pos % 2 ^ 32) n) : (b.append c pos n).size = b.size + n := by
  rw [append, setHeader_size]
  exact UFEDataContainer.append_size ranged

@[simp] theorem append_spill_headers : (b.append c pos n).spill_headers_ =
    b.spill_headers_ ++ UFEDataContainer.rebase c.spill_headers_ (pos % 2 ^ 32) n b.size := rfl

@[simp] theorem append_spill_trailers : (b.append c pos n).spill_trailers_ =
    b.spill_trailers_ ++ UFEDataContainer.rebase c.spill_trailers_ (pos % 2 ^ 32) n b.size := rfl

theorem append_header (m : H) (ne : m ≠ HeaderType.size_) :
    (b.append c pos n).header_ m = b.header_ m := by
  rw [append, header_setHeader_other _ _ _ _ ne.symm]
  exact Field.get_append (b.inside m) _

/-- After the base class has appended, the members are still inside. -/
theorem inside_append (c : UFEDataContainer) (pos n : Nat) (m : H) :
    (layout m).stop ≤ (b.toUFEDataContainer.append c pos n).buf.length := by
  have large := b.inside m
  rw [UFEDataContainer.append_buf, List.length_append]
  omega

/-- The slice is what stands behind the old end of the bank. -/
theorem append_drop : (b.append c pos n).buf.drop b.size = (c.buf.drop (pos % 2 ^ 32)).take n := by
  calc
    (b.append c pos n).buf.drop b.size
      = (b.toUFEDataContainer.append c (pos % 2 ^ 32) n).buf.drop b.size :=
        Field.drop_set (b.inside_append c _ n _) (b.inside _)
    _ = (c.buf.drop (pos % 2 ^ 32)).take n := by
      rw [UFEDataContainer.append_buf]
      exact List.drop_left

/-- The bytes before the old end stay, except for those of `size_`. -/
theorem append_byte {offset : Nat} (before : offset < b.size)
    (outside : offset < (layout (HeaderType.size_ (H := H))).offset ∨
      (layout (HeaderType.size_ (H := H))).stop ≤ offset) :
    (b.append c pos n).buf[offset]? = b.buf[offset]? := by
  calc
    (b.append c pos n).buf[offset]?
      = (b.toUFEDataContainer.append c (pos % 2 ^ 32) n).buf[offset]? :=
        Field.getElem?_set (b.inside_append c _ n _) outside
    _ = b.buf[offset]? := by
      rw [UFEDataContainer.append_buf]
      exact List.getElem?_append_left before

/-- Words already past the header stay where they are. -/
theorem append_word {offset : Nat} (past : sizeofHeader H ≤ offset) (before : offset + 4 ≤ b.size) :
    (b.append c pos n).word? offset = b.word? offset := by
  rw [append, setHeader_word _ _ _ past]
  exact wordAt?_append_left before _

/-- Words of the appended slice are found behind the old end of the bank. -/
theorem append_word_new (c : UFEDataContainer) (pos offset : Nat) (within : offset + 4 ≤ n) :
    (b.append c pos n).word? (b.size + offset) = c.word? (pos % 2 ^ 32 + offset) := by
  rw [append, setHeader_word _ _ _ (le_trans b.hasHeader (Nat.le_add_right _ _))]
  simp only [UFEDataContainer.word?, UFEDataContainer.append_buf, UFEDataContainer.size]
  rw [wordAt?_append_right, wordAt?_take within, wordAt?_drop]

end Append

section Clear

variable (b : BMDMemBank H)

theorem headerClear_size : b.headerClear.size = b.size := by
  unfold headerClear
  induction HeaderType.header_clear (H := H) generalizing b with
  | nil => rfl
  | cons assignment rest ih => rw [List.foldl_cons, ih, setHeader_size]

theorem headerClear_markers : b.headerClear.spill_headers_ = b.spill_headers_ ∧
    b.headerClear.spill_trailers_ = b.spill_trailers_ := by
  unfold headerClear
  induction HeaderType.header_clear (H := H) generalizing b with
  | nil => exact ⟨rfl, rfl⟩
  | cons assignment rest ih => exact ih (b.setHeader assignment.1 assignment.2)

@[simp] theorem clear_size : b.clear.size = sizeofHeader H := by
  have large := b.hasHeader
  rw [clear, headerClear_size]
  simp only [UFEDataContainer.size, List.length_take] at large ⊢
  omega

@[simp] theorem clear_payload : b.clear.payload = [] := by
  have sizes := size_eq b.clear
  rw [clear_size] at sizes
  exact List.length_eq_zero_iff.mp (by omega)

@[simp] theorem clear_spill_headers : b.clear.spill_headers_ = [] := (headerClear_markers _).1

@[simp] theorem clear_spill_trailers : b.clear.spill_trailers_ = [] := (headerClear_markers _).2

end Clear

end BMDMemBank

/-- What a `header_clear` overload is for: the last value it gives to `size_` is the size of
    the header. -/
class HeaderClear (H : Type) [HeaderType H] : Prop where
  resets : ∃ before after, HeaderType.header_clear (H := H) =
      before ++ (HeaderType.size_, sizeofHeader H) :: after ∧
    ∀ assignment ∈ after, assignment.1 ≠ HeaderType.size_

instance : HeaderClear BMDDataFragmenHeader := ⟨[], [], rfl, by simp⟩

instance : HeaderClear BMDEventHeader := ⟨[], _, rfl, by decide⟩

namespace BMDMemBank

variable {H : Type} [HeaderType H]

theorem assignments_header_other {m : H} {assignments : List (H × Nat)}
    (others : ∀ assignment ∈ assignments, assignment.1 ≠ m) (b : BMDMemBank H) :
    (assignments.foldl (fun b assignment => b.setHeader assignment.1 assignment.2) b).header_ m =
      b.header_ m := by
  induction assignments generalizing b with
  | nil => rfl
  | cons assignment rest ih =>
      rw [List.foldl_cons, ih fun a member => others a (List.mem_cons_of_mem _ member)]
      exact header_setHeader_other b _ m _ (others assignment List.mem_cons_self)

theorem clear_sizeRight [HeaderClear H] (b : BMDMemBank H) : b.clear.SizeRight := by
  obtain ⟨before, after, assigned, others⟩ := HeaderClear.resets (H := H)
  rw [SizeRight, clear_size, clear, headerClear, assigned, List.foldl_append, List.foldl_cons,
    assignments_header_other others, header_setHeader, size_range]

end BMDMemBank

/-- `header_clear` of an event header: `size_` is the header's own size, the counters and
    the type are zero. -/
theorem event_clear_header (b : BMDEventMemBank) : b.clear.header_ .size_ = 24 ∧
    b.clear.header_ .n_fragments_ = 0 ∧ b.clear.header_ .n_subevents_ = 0 ∧
    b.clear.header_ .type_ = 0 := by
  simp only [BMDMemBank.clear, BMDMemBank.headerClear, HeaderType.header_clear, List.foldl_cons,
    List.foldl_nil]
  refine ⟨?_, ?_, ?_, ?_⟩ <;>
    simp [BMDMemBank.header_setHeader_other, BMDMemBank.header_setHeader, HeaderType.layout]

end BMDaq
