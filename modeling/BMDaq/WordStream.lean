import BMDaq.Lib.Segments
import BMDaq.BankMarkers

/-! # The word stream of a board

A container of whole words contributes its words to the stream of its board. The spills
of the stream are its segments from a header word to the next second trailer word; the
fragment builder cuts the stream in the same places, container by container.
-/

namespace BMDaq

open Bytes Segments

namespace MDdataWordBM

variable (dw : MDdataWordBM)

def opens (w : UInt32) : Bool := decide (dw.GetDataType w = .SpillHeader)

def closes (w : UInt32) : Bool := decide (dw.GetDataType w = .SpillTrailer2)

/-- The complete spills of a word stream, header and second trailer word included. -/
def spills (ws : List UInt32) : List (List UInt32) := segments dw.opens dw.closes ws

/-- The beginning of the spill that the stream leaves open. -/
def openSpill (ws : List UInt32) : Option (List UInt32) := remainder dw.opens dw.closes ws

end MDdataWordBM

/-- A container of whole words as the readout delivers it. -/
structure WordContainer where
  data : List UInt32
  board_id_ : Int
  fits : 4 * data.length ≤ 2 ^ 32

def WordContainer.raw (c : WordContainer) : RawContainer :=
  ⟨wordBytes c.data, c.board_id_, by rw [wordBytes_length]; exact c.fits⟩

section Marks

variable {dw : MDdataWordBM} {type type' : DataType} {ws : List UInt32} {xDw m m' : Nat}

theorem offsetsOf_nil : offsetsOf dw type ws xDw = [] ↔ ∀ w ∈ ws, dw.GetDataType w ≠ type := by
  induction ws generalizing xDw with
  | nil => simp [offsetsOf]
  | cons w rest ih =>
      by_cases typed : dw.GetDataType w = type
      · simp [offsetsOf, typed]
      · simp [offsetsOf, typed, ih]

/-- A single marker splits the words around the word it marks. -/
theorem offsetsOf_one (one : offsetsOf dw type ws xDw = [m]) :
    ∃ pre w post, ws = pre ++ w :: post ∧ dw.GetDataType w = type ∧
      (∀ v ∈ pre, dw.GetDataType v ≠ type) ∧ (∀ v ∈ post, dw.GetDataType v ≠ type) ∧
      m = 4 * (xDw + pre.length) := by
  induction ws generalizing xDw with
  | nil => cases one
  | cons w rest ih =>
      by_cases typed : dw.GetDataType w = type
      · simp only [offsetsOf, typed, if_true, List.cons.injEq] at one
        refine ⟨[], w, rest, rfl, typed, List.forall_mem_nil _, offsetsOf_nil.mp one.2, ?_⟩
        rw [List.length_nil]
        omega
      · simp only [offsetsOf, typed, if_false] at one
        obtain ⟨pre, v, post, rfl, marked, before, after, place⟩ := ih one
        refine ⟨w :: pre, v, post, rfl, marked, ?_, after, ?_⟩
        · simpa [typed] using before
        · rw [place, List.length_cons]
          omega

/-- Two markers of different kinds split the words into three quiet parts. -/
theorem offsetsOf_two (differ : type ≠ type') (first : offsetsOf dw type ws 0 = [m])
    (second : offsetsOf dw type' ws 0 = [m']) (le : m ≤ m') :
    ∃ pre w mid v post, ws = pre ++ w :: (mid ++ v :: post) ∧ dw.GetDataType w = type ∧
      dw.GetDataType v = type' ∧ (∀ x ∈ pre, dw.GetDataType x ≠ type) ∧
      (∀ x ∈ mid, dw.GetDataType x ≠ type') ∧ (∀ x ∈ post, dw.GetDataType x ≠ type) ∧
      (∀ x ∈ pre, dw.GetDataType x ≠ type') ∧ (∀ x ∈ mid, dw.GetDataType x ≠ type) ∧
      (∀ x ∈ post, dw.GetDataType x ≠ type') ∧
      m = 4 * pre.length ∧ m' = 4 * (pre.length + 1 + mid.length) := by
  obtain ⟨pre, w, tail, rfl, marked, before, after, place⟩ := offsetsOf_one first
  have notOther : dw.GetDataType w ≠ type' := marked ▸ differ
  rw [offsetsOf_append] at second
  simp only [offsetsOf, notOther, if_false, Nat.zero_add] at second place
  have early : offsetsOf dw type' pre 0 = [] := by
    refine List.eq_nil_iff_forall_not_mem.mpr fun k member => ?_
    have listed : k ∈ [m'] := second ▸ List.mem_append_left _ member
    obtain ⟨i, v, found, -, at_i⟩ := mem_offsetsOf.mp member
    obtain ⟨inside, -⟩ := List.getElem?_eq_some_iff.mp found
    rw [List.mem_singleton] at listed
    omega
  rw [early, List.nil_append] at second
  obtain ⟨mid, v, post, rfl, closing, quiet, rest, place'⟩ := offsetsOf_one second
  refine ⟨pre, w, mid, v, post, rfl, marked, closing, before, quiet,
    fun x member => after x (by simp [member]), offsetsOf_nil.mp early,
    fun x member => after x (by simp [member]), rest, place, place'⟩

theorem opens_iff {w : UInt32} : dw.opens w = true ↔ dw.GetDataType w = .SpillHeader :=
  decide_eq_true_iff

theorem closes_iff {w : UInt32} : dw.closes w = true ↔ dw.GetDataType w = .SpillTrailer2 :=
  decide_eq_true_iff

theorem opens_false {w : UInt32} : dw.opens w = false ↔ dw.GetDataType w ≠ .SpillHeader :=
  decide_eq_false_iff_not

theorem closes_false {w : UInt32} : dw.closes w = false ↔ dw.GetDataType w ≠ .SpillTrailer2 :=
  decide_eq_false_iff_not

end Marks

/-- A scanned container whose buffer is the given words. -/
structure OfWords (dw : MDdataWordBM) (c : UFEDataContainer) (ws : List UInt32) : Prop where
  bytes : c.buf = wordBytes ws
  headers : c.spill_headers_ = offsetsOf dw .SpillHeader ws 0
  trailers : c.spill_trailers_ = offsetsOf dw .SpillTrailer2 ws 0
  scanned : Scanned dw c

theorem WordContainer.ofWords (dw : MDdataWordBM) (c : WordContainer) :
    OfWords dw (c.raw.scanned dw) c.data := by
  have data : words c.raw.buf = c.data := words_wordBytes c.data
  exact
    { bytes := c.raw.scanned_buf
      headers := by rw [c.raw.scanned_spill_headers, data]
      trailers := by rw [c.raw.scanned_spill_trailers, data]
      scanned := c.raw.scanned_spec dw }

section Feeds

variable {dw : MDdataWordBM} {ws : List UInt32} {h t : Nat}

/-- A header with no trailer behind it leaves a spill open that begins there. -/
theorem feed_opened (header : offsetsOf dw .SpillHeader ws 0 = [h])
    (trailers : offsetsOf dw .SpillTrailer2 ws 0 = [] ∨
      ∃ t, offsetsOf dw .SpillTrailer2 ws 0 = [t] ∧ t < h) :
    ∃ spill, feedAll dw.opens dw.closes ⟨none, []⟩ ws = ⟨some spill, []⟩ ∧
      (wordBytes ws).drop h = wordBytes spill := by
  rcases trailers with none | ⟨t, trailer, before⟩
  · obtain ⟨pre, w, post, rfl, marked, quiet, -, rfl⟩ := offsetsOf_one header
    have noTrailer := offsetsOf_nil.mp none
    refine ⟨w :: post, ?_, by rw [Nat.zero_add, wordBytes_drop]⟩
    exact feedAll_open [] (fun v member => opens_false.mpr (quiet v member))
      (opens_iff.mpr marked) fun v member => closes_false.mpr (noTrailer v (by simp [member]))
  · obtain ⟨pre, v, mid, w, post, rfl, closing, marked, -, quiet, last, quiet', -, -, -, rfl⟩ :=
      offsetsOf_two (by decide) trailer header (Nat.le_of_lt before)
    have regroup : pre ++ v :: (mid ++ w :: post) = (pre ++ v :: mid) ++ w :: post := by simp
    have notHeader : dw.GetDataType v ≠ .SpillHeader := by rw [closing]; decide
    have place : 4 * (pre.length + 1 + mid.length) = 4 * (pre ++ v :: mid).length := by
      simp only [List.length_append, List.length_cons]
      omega
    refine ⟨w :: post, ?_, by rw [place, regroup, wordBytes_drop]⟩
    rw [regroup]
    refine feedAll_open [] (fun x member => opens_false.mpr ?_) (opens_iff.mpr marked)
      fun x member => closes_false.mpr (last x member)
    rcases List.mem_append.mp member with early | late
    · exact quiet' x early
    · rcases List.mem_cons.mp late with rfl | later
      · exact notHeader
      · exact quiet x later

/-- A header with a trailer behind it closes the spill between them. -/
theorem feed_whole (header : offsetsOf dw .SpillHeader ws 0 = [h])
    (trailer : offsetsOf dw .SpillTrailer2 ws 0 = [t]) (after : h ≤ t) :
    ∃ spill, feedAll dw.opens dw.closes ⟨none, []⟩ ws = ⟨none, [spill]⟩ ∧
      ((wordBytes ws).drop h).take (t - h + 4) = wordBytes spill := by
  obtain ⟨pre, w, mid, v, post, rfl, marked, closing, quiet, inner, rest, -, -, -, rfl, rfl⟩ :=
    offsetsOf_two (by decide) header trailer after
  have length : 4 * (pre.length + 1 + mid.length) - 4 * pre.length + 4 =
      4 * (w :: (mid ++ [v])).length := by
    simp only [List.length_cons, List.length_append, List.length_nil]
    omega
  have regroup : w :: (mid ++ v :: post) = (w :: (mid ++ [v])) ++ post := by simp
  refine ⟨w :: (mid ++ [v]), ?_, by rw [length, wordBytes_drop, regroup, wordBytes_take]⟩
  have opened := feedAll_open [] (fun x member => opens_false.mpr (quiet x member))
    (opens_iff.mpr marked) fun x member => closes_false.mpr (inner x member)
  have closed := feedAll_close [] (w :: mid) (List.forall_mem_nil _)
    (closes_iff.mpr closing) fun x member => opens_false.mpr (rest x member)
  have halves : pre ++ w :: (mid ++ v :: post) = (pre ++ w :: mid) ++ ([] ++ v :: post) := by simp
  rw [halves, feedAll_append, opened, closed]
  rfl

/-- A trailer with no header behind it closes the open spill. -/
theorem feed_closed (spill : List UInt32) (headers : offsetsOf dw .SpillHeader ws 0 = [])
    (trailer : offsetsOf dw .SpillTrailer2 ws 0 = [t]) :
    ∃ front, feedAll dw.opens dw.closes ⟨some spill, []⟩ ws = ⟨none, [spill ++ front]⟩ ∧
      (wordBytes ws).take (t + 4) = wordBytes front := by
  have noHeader := offsetsOf_nil.mp headers
  obtain ⟨pre, v, post, rfl, closing, quiet, -, rfl⟩ := offsetsOf_one trailer
  have length : 4 * (0 + pre.length) + 4 = 4 * (pre ++ [v]).length := by
    simp only [List.length_append, List.length_singleton]
    omega
  have regroup : pre ++ v :: post = (pre ++ [v]) ++ post := by simp
  refine ⟨pre ++ [v], ?_, by rw [length, regroup, wordBytes_take]⟩
  exact feedAll_close [] spill (fun x member => closes_false.mpr (quiet x member))
    (closes_iff.mpr closing) fun x member => opens_false.mpr (noHeader x (by simp [member]))

/-- A trailer with a header behind it closes the open spill and opens the next one. -/
theorem feed_turned (spill : List UInt32) (header : offsetsOf dw .SpillHeader ws 0 = [h])
    (trailer : offsetsOf dw .SpillTrailer2 ws 0 = [t]) (before : t ≤ h) :
    ∃ front next, feedAll dw.opens dw.closes ⟨some spill, []⟩ ws = ⟨some next, [spill ++ front]⟩ ∧
      (wordBytes ws).take (t + 4) = wordBytes front ∧ (wordBytes ws).drop h = wordBytes next := by
  obtain ⟨pre, v, mid, w, post, rfl, closing, marked, quiet, inner, last, -, -, -, rfl, rfl⟩ :=
    offsetsOf_two (by decide) trailer header before
  have first : 4 * pre.length + 4 = 4 * (pre ++ [v]).length := by
    simp only [List.length_append, List.length_singleton]
    omega
  have second : 4 * (pre.length + 1 + mid.length) = 4 * (pre ++ v :: mid).length := by
    simp only [List.length_append, List.length_cons]
    omega
  have regroup : pre ++ v :: (mid ++ w :: post) = (pre ++ [v]) ++ (mid ++ w :: post) := by simp
  have regroup' : pre ++ v :: (mid ++ w :: post) = (pre ++ v :: mid) ++ w :: post := by simp
  refine ⟨pre ++ [v], w :: post, ?_, by rw [first, regroup, wordBytes_take],
    by rw [second, regroup', wordBytes_drop]⟩
  have nothing : ∀ x ∈ ([] : List UInt32), dw.opens x = false := List.forall_mem_nil _
  have closed := feedAll_close [] spill (fun x member => closes_false.mpr (quiet x member))
    (closes_iff.mpr closing) nothing
  have opened := feedAll_open [spill ++ (pre ++ [v])]
    (fun x member => opens_false.mpr (inner x member)) (opens_iff.mpr marked)
    fun x member => closes_false.mpr (last x member)
  have halves : pre ++ v :: (mid ++ w :: post) = (pre ++ v :: []) ++ (mid ++ w :: post) := by simp
  rw [halves, feedAll_append, closed]
  exact opened

variable {c : UFEDataContainer} {m m' : BMDBoardMemBank} {f? : Option BMDBoardMemBank}
  {running : Option (List UInt32)}

/-- What the builder makes of a container is what the stream makes of its words. -/
theorem LocalStep.follow_words (step : LocalStep c m m' f?) (made : OfWords dw c ws)
    (rep : Represents m (running.map wordBytes)) :
    ∃ next, ∃ spill? : Option (List UInt32),
      feedAll dw.opens dw.closes ⟨running, []⟩ ws = ⟨next, spill?.toList⟩ ∧
      follow (running.map wordBytes) c = (next.map wordBytes, spill?.map wordBytes) := by
  have idle_none (idle : m.spill_headers_ = []) : running = none :=
    Option.map_eq_none_iff.mp (rep.idle idle).1
  have busy_some {h : Nat} (busy : m.spill_headers_ = [h]) : ∃ spill, running = some spill := by
    obtain ⟨spill, is, -⟩ := Option.map_eq_some_iff.mp (rep.busy busy).2
    exact ⟨spill, is⟩
  have header := made.headers
  have trailer := made.trailers
  cases step with
  | ignored idle headers trailers =>
      obtain rfl := idle_none idle
      rw [headers] at header
      refine ⟨none, none, feedAll_skip [] fun w member => ?_, ?_⟩
      · exact opens_false.mpr (offsetsOf_nil.mp header.symm w member)
      · simp only [follow, headers, Option.map_none]
  | opened h idle headers trailers =>
      obtain rfl := idle_none idle
      rw [headers] at header
      rw [trailer] at trailers
      obtain ⟨spill, fed, bytes⟩ := feed_opened header.symm trailers
      rw [← made.bytes] at bytes
      refine ⟨some spill, none, fed, ?_⟩
      rcases trailers with none | ⟨t, one, before⟩
      · simp only [follow, headers, trailer, none, bytes, Option.map_none, Option.map_some]
      · simp only [follow, headers, trailer, one, Nat.not_le.mpr before, if_false, bytes,
          Option.map_none, Option.map_some]
  | whole h t idle headers trailers after =>
      obtain rfl := idle_none idle
      rw [headers] at header
      rw [trailers] at trailer
      obtain ⟨spill, fed, bytes⟩ := feed_whole header.symm trailer.symm after
      rw [← made.bytes] at bytes
      refine ⟨none, some spill, fed, ?_⟩
      simp only [follow, headers, trailers, after, if_true, bytes, Option.map_none, Option.map_some]
  | extended h busy headers trailers =>
      obtain ⟨spill, rfl⟩ := busy_some busy
      rw [trailers] at trailer
      refine ⟨some (spill ++ ws), none, feedAll_extend [] spill fun w member => ?_, ?_⟩
      · exact closes_false.mpr (offsetsOf_nil.mp trailer.symm w member)
      · simp only [follow, headers, trailers, made.bytes, Option.map_some, wordBytes_append,
          Option.map_none]
  | closed h t busy headers trailers =>
      obtain ⟨spill, rfl⟩ := busy_some busy
      rw [headers] at header
      rw [trailers] at trailer
      obtain ⟨front, fed, bytes⟩ := feed_closed spill header.symm trailer.symm
      rw [← made.bytes] at bytes
      refine ⟨none, some (spill ++ front), fed, ?_⟩
      simp only [follow, headers, trailers, bytes, Option.map_some, Option.map_none,
        wordBytes_append]
  | turned h h' t busy headers trailers before =>
      obtain ⟨spill, rfl⟩ := busy_some busy
      rw [headers] at header
      rw [trailers] at trailer
      obtain ⟨front, next, fed, bytes, bytes'⟩ :=
        feed_turned spill header.symm trailer.symm before
      rw [← made.bytes] at bytes bytes'
      refine ⟨some next, some (spill ++ front), fed, ?_⟩
      simp only [follow, headers, trailers, bytes, bytes', Option.map_some, wordBytes_append]

/-- One call, seen from the word stream. -/
theorem LocalStep.feeds (step : LocalStep c m m' f?) (made : OfWords dw c ws)
    (rep : Represents m (running.map wordBytes)) :
    ∃ next, ∃ spill? : Option (List UInt32),
      feedAll dw.opens dw.closes ⟨running, []⟩ ws = ⟨next, spill?.toList⟩ ∧
      Represents m' (next.map wordBytes) ∧
      f?.map BMDMemBank.payload = spill?.map wordBytes := by
  obtain ⟨next, spill?, fed, followed⟩ := step.follow_words made rep
  obtain ⟨rep', bytes⟩ := step.follows rep made.scanned.toWellMarked
  rw [followed] at rep' bytes
  exact ⟨next, spill?, fed, rep', bytes⟩

end Feeds

/-- The word two places before the end of a spill agrees with its first word. -/
def Consistent (dw : MDdataWordBM) (spill : List UInt32) : Prop :=
  ∃ h t, spill[0]? = some h ∧ spill[spill.length - 3]? = some t ∧
    dw.GetSpillTag h = dw.GetSpillTag t ∧ dw.GetBoardId h = dw.GetBoardId t

section Check

variable {dw : MDdataWordBM} {f : BMDBoardMemBank} {spill : List UInt32}

theorem payload_size (bytes : f.payload = wordBytes spill) : f.size = 8 + 4 * spill.length := by
  rw [f.size_eq, bytes, wordBytes_length]
  rfl

/-- The words of a bank behind its header are those of the spill. -/
theorem payload_words (bytes : f.payload = wordBytes spill) (i : Nat) :
    f.word? (8 + 4 * i) = spill[i]? := by
  have behind := f.payload_word (4 * i)
  rwa [bytes, wordBytes_wordAt?] at behind

/-- The check of `moveToEventBank` on a complete bank. -/
theorem Completed.accepted_iff_words (complete : Completed dw f) :
    Accepted dw f ↔ ∃ h t, f.word? 8 = some h ∧ f.word? (f.size - 12) = some t ∧
      dw.GetSpillTag h = dw.GetSpillTag t ∧ dw.GetBoardId h = dw.GetBoardId t := by
  have large := complete.large
  have trailer : FragmentState.trailerWord? f (f.size - 4) = f.word? (f.size - 12) := by
    rw [FragmentState.trailerWord?, if_pos (by omega), Nat.sub_sub]
  rw [← trailer]
  constructor
  · rintro ⟨h, hs, t, ts, h_dw, t_dw, headers, trailers, atH, atT, tags, boards⟩
    obtain ⟨rfl, -⟩ := List.cons.inj (complete.headers.symm.trans headers)
    obtain ⟨rfl, -⟩ := List.cons.inj (complete.trailers.symm.trans trailers)
    exact ⟨h_dw, t_dw, atH, atT, tags, boards⟩
  · rintro ⟨h, t, atH, atT, tags, boards⟩
    exact ⟨8, [], _, [], h, t, complete.headers, complete.trailers, atH, atT, tags, boards⟩

/-- On a spill of at least three words it compares the first word with the third last one. -/
theorem Completed.accepted_iff (complete : Completed dw f) (bytes : f.payload = wordBytes spill)
    (long : 3 ≤ spill.length) : Accepted dw f ↔ Consistent dw spill := by
  have first : f.word? 8 = spill[0]? := payload_words bytes 0
  have trailer : f.word? (f.size - 12) = spill[spill.length - 3]? := by
    have size := payload_size bytes
    have place : f.size - 12 = 8 + 4 * (spill.length - 3) := by omega
    rw [place, payload_words bytes]
  rw [complete.accepted_iff_words, first, trailer, Consistent]

end Check

end BMDaq
