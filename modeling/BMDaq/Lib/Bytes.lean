import Mathlib

/-! # Little-endian fields and words of a byte buffer

A header overlaid on a raw buffer is a family of fixed-width fields. `Field.get` and
`Field.set` read and overwrite one of them; everything outside the field is unchanged,
which is what the frame lemmas below record. 32-bit words are read at arbitrary byte
offsets, and a buffer of whole words is read back as the list it was written from.
-/

namespace BMDaq.Bytes

/-- The lowest `width` bytes of a number, least significant first. -/
def encode : Nat → Nat → List UInt8
  | 0, _ => []
  | width + 1, v => UInt8.ofNat v :: encode width (v / 256)

/-- The number with the given little-endian bytes. -/
def decode : List UInt8 → Nat
  | [] => 0
  | b :: bs => b.toNat + 256 * decode bs

@[simp] theorem encode_length (width v : Nat) : (encode width v).length = width := by
  induction width generalizing v with
  | zero => rfl
  | succ width ih => simp only [encode, List.length_cons, ih]

theorem decode_encode (width v : Nat) : decode (encode width v) = v % 256 ^ width := by
  induction width generalizing v with
  | zero => simp only [encode, decode, pow_zero, Nat.mod_one]
  | succ width ih =>
      have low : (UInt8.ofNat v).toNat = v % 256 := UInt8.toNat_ofNat'
      rw [encode, decode, ih, low, pow_succ', Nat.mod_mul]

theorem encode_decode (bytes : List UInt8) : encode bytes.length (decode bytes) = bytes := by
  induction bytes with
  | nil => rfl
  | cons b bs ih =>
      have small : b.toNat < 256 := b.toNat_lt
      have low : UInt8.ofNat (b.toNat + 256 * decode bs) = b := by
        apply UInt8.toNat_inj.mp
        rw [UInt8.toNat_ofNat', Nat.add_mul_mod_self_left, Nat.mod_eq_of_lt small]
      have high : (b.toNat + 256 * decode bs) / 256 = decode bs := by omega
      simp only [List.length_cons, decode, encode, low, high, ih]

theorem encode_mod (width v : Nat) : encode width (v % 256 ^ width) = encode width v := by
  have back := encode_decode (encode width v)
  rwa [decode_encode, encode_length] at back

theorem decode_lt (bytes : List UInt8) : decode bytes < 256 ^ bytes.length := by
  have back := decode_encode bytes.length (decode bytes)
  rw [encode_decode] at back
  rw [back]
  exact Nat.mod_lt _ (Nat.pow_pos (by decide))

/-! ## Fields -/

/-- A fixed-width field of a structure overlaid on a buffer. -/
structure Field where
  offset : Nat
  width : Nat
  deriving Repr, DecidableEq

namespace Field

def stop (f : Field) : Nat := f.offset + f.width

def get (f : Field) (buf : List UInt8) : Nat := decode ((buf.drop f.offset).take f.width)

/-- Overwrite the field in place; a value too wide for it is truncated. -/
def set (f : Field) (v : Nat) (buf : List UInt8) : List UInt8 :=
  buf.take f.offset ++ (encode f.width v ++ buf.drop f.stop)

/-- Two fields that share no byte. -/
def Apart (f g : Field) : Prop := f.stop ≤ g.offset ∨ g.stop ≤ f.offset

instance (f g : Field) : Decidable (Apart f g) :=
  inferInstanceAs (Decidable (f.stop ≤ g.offset ∨ g.stop ≤ f.offset))

variable {f g : Field} {buf : List UInt8} {v : Nat}

@[simp] theorem set_length (inside : f.stop ≤ buf.length) : (f.set v buf).length = buf.length := by
  simp only [stop] at inside
  simp only [set, stop, List.length_append, List.length_take, List.length_drop, encode_length]
  omega

theorem get_set (inside : f.stop ≤ buf.length) : f.get (f.set v buf) = v % 256 ^ f.width := by
  have before : (buf.take f.offset).length = f.offset := by
    simp only [stop] at inside
    rw [List.length_take]
    omega
  have here : ((f.set v buf).drop f.offset).take f.width = encode f.width v := by
    rw [set, List.drop_left' before, List.take_left' (encode_length _ _)]
  rw [get, here, decode_encode]

/-- Bytes past the field survive an overwrite. -/
theorem drop_set {n : Nat} (inside : f.stop ≤ buf.length) (past : f.stop ≤ n) :
    (f.set v buf).drop n = buf.drop n := by
  have front : (buf.take f.offset ++ encode f.width v).length = f.stop := by
    simp only [stop] at inside ⊢
    simp only [List.length_append, List.length_take, encode_length]
    omega
  have split : n = f.stop + (n - f.stop) := by omega
  rw [set, ← List.append_assoc, split, ← front, List.drop_length_add_append, front,
    List.drop_drop]

/-- Bytes before the field survive an overwrite. -/
theorem take_set {n : Nat} (inside : f.stop ≤ buf.length) (before : n ≤ f.offset) :
    (f.set v buf).take n = buf.take n := by
  simp only [stop] at inside
  rw [set, List.take_append_of_le_length (by rw [List.length_take]; omega), List.take_take,
    Nat.min_eq_left before]

theorem get_set_apart (inside : f.stop ≤ buf.length) (apart : Apart f g) :
    g.get (f.set v buf) = g.get buf := by
  rcases apart with after | before
  · rw [get, get, drop_set inside after]
  · simp only [stop] at before
    have window (xs : List UInt8) :
        (xs.drop g.offset).take g.width = (xs.take (g.offset + g.width)).drop g.offset := by
      rw [List.drop_take, Nat.add_sub_cancel_left]
    rw [get, get, window, window, take_set inside before]

theorem get_append (inside : f.stop ≤ buf.length) (more : List UInt8) :
    f.get (buf ++ more) = f.get buf := by
  simp only [stop] at inside
  rw [get, get, List.drop_append_of_le_length (by omega),
    List.take_append_of_le_length (by rw [List.length_drop]; omega)]

theorem set_append (inside : f.stop ≤ buf.length) (more : List UInt8) :
    f.set v (buf ++ more) = f.set v buf ++ more := by
  have start : f.offset ≤ buf.length := le_trans (Nat.le_add_right _ _) inside
  rw [set, set, List.take_append_of_le_length start, List.drop_append_of_le_length inside]
  simp only [List.append_assoc]

/-- A byte outside of the field survives an overwrite. -/
theorem getElem?_set {n : Nat} (inside : f.stop ≤ buf.length) (outside : n < f.offset ∨ f.stop ≤ n) :
    (f.set v buf)[n]? = buf[n]? := by
  cases outside with
  | inl before =>
      have front := congrArg (·[n]?) (take_set (v := v) inside (Nat.succ_le_of_lt before))
      simpa only [List.getElem?_take, Nat.lt_succ_self, if_true] using front
  | inr past =>
      have back := congrArg (·[0]?) (drop_set (v := v) inside past)
      simpa only [List.getElem?_drop, Nat.add_zero] using back

theorem get_lt : f.get buf < 256 ^ f.width := by
  refine (decode_lt _).trans_le (Nat.pow_le_pow_right (by decide) ?_)
  exact List.length_take_le _ _

end Field

/-! ## Words -/

/-- The 32-bit word at a byte offset, when all four of its bytes are there. -/
def wordAt? (buf : List UInt8) (offset : Nat) : Option UInt32 :=
  if offset + 4 ≤ buf.length then some (UInt32.ofNat (Field.get ⟨offset, 4⟩ buf)) else none

theorem wordAt?_drop (buf : List UInt8) (n offset : Nat) :
    wordAt? (buf.drop n) offset = wordAt? buf (n + offset) := by
  simp only [wordAt?, Field.get, List.drop_drop, List.length_drop]
  by_cases inside : n + offset + 4 ≤ buf.length
  · rw [if_pos inside, if_pos (by omega)]
  · rw [if_neg inside, if_neg (by omega)]

theorem wordAt?_append_left {buf : List UInt8} {offset : Nat} (inside : offset + 4 ≤ buf.length)
    (more : List UInt8) : wordAt? (buf ++ more) offset = wordAt? buf offset := by
  rw [wordAt?, wordAt?, if_pos inside, if_pos (by rw [List.length_append]; omega),
    Field.get_append (by simpa only [Field.stop] using inside)]

theorem wordAt?_append_right (buf more : List UInt8) (offset : Nat) :
    wordAt? (buf ++ more) (buf.length + offset) = wordAt? more offset := by
  rw [← wordAt?_drop, List.drop_left]

theorem wordAt?_take {buf : List UInt8} {n offset : Nat} (inside : offset + 4 ≤ n) :
    wordAt? (buf.take n) offset = wordAt? buf offset := by
  conv_rhs => rw [← List.take_append_drop n buf]
  by_cases long : n ≤ buf.length
  · rw [wordAt?_append_left (by rw [List.length_take]; omega)]
  · rw [List.take_of_length_le (by omega), List.drop_eq_nil_of_le (by omega), List.append_nil]

theorem wordAt?_inside {buf : List UInt8} {offset : Nat} {w : UInt32}
    (found : wordAt? buf offset = some w) : offset + 4 ≤ buf.length := by
  by_contra outside
  rw [wordAt?, if_neg outside] at found
  cases found

theorem wordAt?_isSome {buf : List UInt8} {offset : Nat} (inside : offset + 4 ≤ buf.length) :
    ∃ w, wordAt? buf offset = some w :=
  ⟨_, if_pos inside⟩

/-- A word past an overwritten field is still the word that was there. -/
theorem wordAt?_set {f : Field} {buf : List UInt8} {v offset : Nat}
    (inside : f.stop ≤ buf.length) (past : f.stop ≤ offset) :
    wordAt? (f.set v buf) offset = wordAt? buf offset := by
  have same := congrArg (fun xs => wordAt? xs (offset - f.stop))
    (Field.drop_set (v := v) inside (le_refl f.stop))
  simpa only [wordAt?_drop, Nat.add_sub_cancel' past] using same

/-- The whole words of a buffer; up to three trailing bytes are left out. -/
def words : List UInt8 → List UInt32
  | b₀ :: b₁ :: b₂ :: b₃ :: rest => UInt32.ofNat (decode [b₀, b₁, b₂, b₃]) :: words rest
  | _ => []

/-- A list of words as bytes. -/
def wordBytes (ws : List UInt32) : List UInt8 := ws.flatMap (fun w => encode 4 w.toNat)

private theorem words_short {buf : List UInt8}
    (short : ∀ b₀ b₁ b₂ b₃ rest, buf = b₀ :: b₁ :: b₂ :: b₃ :: rest → False) :
    words buf = [] ∧ buf.length < 4 := by
  match buf, short with
  | [], _ | [_], _ | [_, _], _ | [_, _, _], _ => exact ⟨rfl, by simp⟩
  | b₀ :: b₁ :: b₂ :: b₃ :: rest, short => exact (short b₀ b₁ b₂ b₃ rest rfl).elim

theorem words_length (buf : List UInt8) : (words buf).length = buf.length / 4 := by
  induction buf using words.induct with
  | case1 b₀ b₁ b₂ b₃ rest ih =>
      simp only [words, List.length_cons, ih]
      omega
  | case2 buf short =>
      obtain ⟨empty, few⟩ := words_short short
      rw [empty, Nat.div_eq_of_lt few, List.length_nil]

theorem words_eq_nil {buf : List UInt8} (small : buf.length < 4) : words buf = [] := by
  rw [← List.length_eq_zero_iff, words_length]
  exact Nat.div_eq_of_lt small

theorem words_getElem? (buf : List UInt8) (i : Nat) : (words buf)[i]? = wordAt? buf (4 * i) := by
  induction buf using words.induct generalizing i with
  | case1 b₀ b₁ b₂ b₃ rest ih =>
      cases i with
      | zero => simp [words, wordAt?, Field.get]
      | succ i =>
          have peel := wordAt?_drop (b₀ :: b₁ :: b₂ :: b₃ :: rest) 4 (4 * i)
          rw [words, List.getElem?_cons_succ, ih, show 4 * (i + 1) = 4 + 4 * i by ring, ← peel]
          rfl
  | case2 buf short =>
      obtain ⟨empty, few⟩ := words_short short
      rw [empty, List.getElem?_nil, wordAt?, if_neg (by omega)]

@[simp] theorem wordBytes_append (xs ys : List UInt32) :
    wordBytes (xs ++ ys) = wordBytes xs ++ wordBytes ys := List.flatMap_append

@[simp] theorem wordBytes_length (ws : List UInt32) : (wordBytes ws).length = 4 * ws.length := by
  induction ws with
  | nil => rfl
  | cons w ws ih =>
      simp only [wordBytes, List.flatMap_cons, List.length_append, encode_length,
        List.length_cons] at ih ⊢
      omega

theorem words_wordBytes (ws : List UInt32) : words (wordBytes ws) = ws := by
  induction ws with
  | nil => rfl
  | cons w ws ih =>
      have value : UInt32.ofNat (decode (encode 4 w.toNat)) = w := by
        rw [decode_encode, Nat.mod_eq_of_lt (by simpa using w.toNat_lt), UInt32.ofNat_toNat]
      have peel : wordBytes (w :: ws) = encode 4 w.toNat ++ wordBytes ws := rfl
      simp only [peel, encode, List.cons_append, List.nil_append, words, ih]
      exact congrArg (List.cons · ws) value

theorem wordBytes_wordAt? (ws : List UInt32) (i : Nat) :
    wordAt? (wordBytes ws) (4 * i) = ws[i]? := by
  rw [← words_getElem?, words_wordBytes]

theorem wordBytes_drop (xs ys : List UInt32) :
    (wordBytes (xs ++ ys)).drop (4 * xs.length) = wordBytes ys := by
  rw [wordBytes_append]
  exact List.drop_left' (wordBytes_length xs)

theorem wordBytes_take (xs ys : List UInt32) :
    (wordBytes (xs ++ ys)).take (4 * xs.length) = wordBytes xs := by
  rw [wordBytes_append]
  exact List.take_left' (wordBytes_length xs)

end BMDaq.Bytes
