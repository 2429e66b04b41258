import BMDaq.DataScanner

/-! # Trigger-tag diagnostics

The scanner compares the tag of a trigger trailer with `trigger_tag_`, where zero also
stands for "no trigger seen yet". `tagAfter` is the value of that variable behind any
words; the first loop ends exactly where a non-zero tag has been seen, so the reports of
the second loop are about trailers with a non-zero header somewhere before them.
-/

namespace BMDaq

open Bytes

/-- The word a report is about. -/
def ScanReport.dwId : ScanReport → Option Nat
  | .emptyContainer => none
  | .tagMismatch dwId _ _ => some dwId

section Spec

variable (dw : MDdataWordBM)

/-- `h` is the last trigger header of the words `seen`. -/
def LastTrigHeader (seen : List UInt32) (h : UInt32) : Prop :=
  ∃ before between, seen = before ++ h :: between ∧ dw.GetDataType h = .TrigHeader ∧
    ∀ w ∈ between, dw.GetDataType w ≠ .TrigHeader

/-- A trigger header with a non-zero tag is among the words `seen`. -/
def Armed (seen : List UInt32) : Prop :=
  ∃ w ∈ seen, dw.GetDataType w = .TrigHeader ∧ dw.GetTriggerTag w ≠ 0

/-- Word `j` is a trailer whose tag is not the one of the last header, in a container that
    has shown a non-zero tag before. -/
def TagMismatch (ws : List UInt32) (j expected found : Nat) : Prop :=
  ∃ w, ws[j]? = some w ∧ dw.GetDataType w = .TrigTrailer1 ∧ Armed dw (ws.take j) ∧
    ∃ h, LastTrigHeader dw (ws.take j) h ∧ expected = dw.GetTriggerTag h ∧
      found = dw.GetTriggerTag w ∧ expected ≠ found

/-- Every trigger trailer carries the tag of the latest header before it. -/
def Tagged (stream : List UInt32) : Prop :=
  ∀ seen t later, stream = seen ++ t :: later → dw.GetDataType t = .TrigTrailer1 →
    ∀ h, LastTrigHeader dw seen h → dw.GetTriggerTag h = dw.GetTriggerTag t

/-- What one word does to `trigger_tag_`. -/
def nextTag (tag : Nat) (w : UInt32) : Nat :=
  if dw.GetDataType w = .TrigHeader then dw.GetTriggerTag w else tag

/-- `trigger_tag_` behind the words `seen`. -/
def tagAfter (tag : Nat) (seen : List UInt32) : Nat := seen.foldl (nextTag dw) tag

/-- What the second loop prints. -/
def mismatches (tag : Nat) : List UInt32 → Nat → List ScanReport
  | [], _ => []
  | w :: rest, xDw =>
      (if dw.GetDataType w = .TrigTrailer1 ∧ tag ≠ dw.GetTriggerTag w then
        [.tagMismatch xDw tag (dw.GetTriggerTag w)] else []) ++
      mismatches (nextTag dw tag w) rest (xDw + 1)

end Spec

section Tags

variable {dw : MDdataWordBM} {seen ws : List UInt32} {tag : Nat}

@[simp] theorem tagAfter_nil : tagAfter dw tag [] = tag := rfl

@[simp] theorem tagAfter_cons (w : UInt32) :
    tagAfter dw tag (w :: ws) = tagAfter dw (nextTag dw tag w) ws := rfl

@[simp] theorem tagAfter_append :
    tagAfter dw tag (seen ++ ws) = tagAfter dw (tagAfter dw tag seen) ws := List.foldl_append

theorem tagAfter_quiet (quiet : ∀ w ∈ ws, dw.GetDataType w ≠ .TrigHeader) :
    tagAfter dw tag ws = tag := by
  induction ws with
  | nil => rfl
  | cons w rest ih =>
      have same : nextTag dw tag w = tag := if_neg (quiet w List.mem_cons_self)
      rw [tagAfter_cons, same]
      exact ih fun v member => quiet v (List.mem_cons_of_mem w member)

/-- The scanner remembers the tag of the last header. -/
theorem LastTrigHeader.remembered {h : UInt32} (last : LastTrigHeader dw seen h) :
    tagAfter dw tag seen = dw.GetTriggerTag h := by
  obtain ⟨before, between, rfl, typed, quiet⟩ := last
  rw [tagAfter_append, tagAfter_cons, tagAfter_quiet quiet]
  exact if_pos typed

theorem exists_lastTrigHeader (some : ∃ w ∈ seen, dw.GetDataType w = .TrigHeader) :
    ∃ h, LastTrigHeader dw seen h := by
  induction seen using List.reverseRecOn with
  | nil =>
      obtain ⟨_, member, _⟩ := some
      cases member
  | append_singleton seen w ih =>
      by_cases typed : dw.GetDataType w = .TrigHeader
      · exact ⟨w, seen, [], rfl, typed, nofun⟩
      · obtain ⟨v, member, header⟩ := some
        have inside : v ∈ seen := by
          cases List.mem_append.mp member with
          | inl old => exact old
          | inr last =>
              rw [List.mem_singleton.mp last] at header
              exact absurd header typed
        obtain ⟨h, before, between, rfl, found, quiet⟩ := ih ⟨v, inside, header⟩
        refine ⟨h, before, between ++ [w], by simp, found, ?_⟩
        intro u last
        cases List.mem_append.mp last with
        | inl old => exact quiet u old
        | inr new =>
            rw [List.mem_singleton.mp new]
            exact typed

theorem LastTrigHeader.after {h : UInt32} (last : LastTrigHeader dw ws h) :
    LastTrigHeader dw (seen ++ ws) h := by
  obtain ⟨before, between, rfl, found⟩ := last
  exact ⟨seen ++ before, between, (List.append_assoc ..).symm, found⟩

/-- As long as nothing but zero tags has been seen, the variable is zero. -/
theorem tagAfter_unarmed (unarmed : ¬Armed dw seen) : tagAfter dw 0 seen = 0 := by
  by_cases some : ∃ w ∈ seen, dw.GetDataType w = .TrigHeader
  · obtain ⟨h, last⟩ := exists_lastTrigHeader some
    rw [last.remembered]
    obtain ⟨before, between, rfl, typed, _⟩ := last
    by_contra nonzero
    exact unarmed ⟨h, by simp, typed, nonzero⟩
  · apply tagAfter_quiet
    intro w member typed
    exact some ⟨w, member, typed⟩

theorem mem_mismatches {xDw j expected found : Nat} :
    .tagMismatch j expected found ∈ mismatches dw tag ws xDw ↔
      ∃ i w, j = xDw + i ∧ ws[i]? = some w ∧ dw.GetDataType w = .TrigTrailer1 ∧
        expected = tagAfter dw tag (ws.take i) ∧ found = dw.GetTriggerTag w ∧ expected ≠ found := by
  induction ws generalizing tag xDw with
  | nil => simp [mismatches]
  | cons v rest ih =>
      rw [mismatches, List.mem_append, ih]
      constructor
      · intro here
        cases here with
        | inl first =>
            split at first
            · next both =>
                simp only [List.mem_singleton, ScanReport.tagMismatch.injEq] at first
                obtain ⟨rfl, rfl, rfl⟩ := first
                exact ⟨0, v, rfl, rfl, both.1, rfl, rfl, both.2⟩
            · cases first
        | inr later =>
            obtain ⟨i, w, place, at_i, rest⟩ := later
            exact ⟨i + 1, w, by omega, at_i, rest⟩
      · intro ⟨i, w, place, at_i, typed, last, own, other⟩
        cases i with
        | zero =>
            left
            simp only [List.getElem?_cons_zero, Option.some.injEq] at at_i
            subst at_i last own
            rw [if_pos ⟨typed, other⟩, place]
            exact List.mem_singleton_self _
        | succ i => exact .inr ⟨i, w, by omega, at_i, typed, last, own, other⟩

/-- Reports come in the order of the words, one for a word at most. -/
theorem mismatches_ordered (dw : MDdataWordBM) (tag : Nat) (ws : List UInt32) (xDw : Nat) :
    ((mismatches dw tag ws xDw).filterMap ScanReport.dwId).Pairwise (· < ·) := by
  induction ws generalizing tag xDw with
  | nil => exact List.Pairwise.nil
  | cons w rest ih =>
      rw [mismatches]
      split
      · rw [List.singleton_append, List.filterMap_cons_some (f := ScanReport.dwId) rfl]
        refine List.Pairwise.cons ?_ (ih _ _)
        intro j later
        obtain ⟨report, inside, is⟩ := List.mem_filterMap.mp later
        cases report with
        | emptyContainer => cases is
        | tagMismatch j' expected found =>
            cases is
            obtain ⟨i, _, place, _⟩ := mem_mismatches.mp inside
            omega
      · exact ih _ _

end Tags

namespace BMDDataScanner

variable {dw : MDdataWordBM}

theorem read_tag (dw : MDdataWordBM) (w : UInt32) (xDw : Nat) (st : ScanState) :
    (read dw w xDw st).trigger_tag_ = nextTag dw st.trigger_tag_ w ∧
      (read dw w xDw st).printed = st.printed := by
  cases type : dw.GetDataType w <;> simp [read, type, nextTag]

theorem readAndCheck_tag (dw : MDdataWordBM) (w : UInt32) (xDw : Nat) (st : ScanState) :
    (readAndCheck dw w xDw st).2.trigger_tag_ = nextTag dw st.trigger_tag_ w ∧
      (readAndCheck dw w xDw st).2.printed = st.printed ++
        (if dw.GetDataType w = .TrigTrailer1 ∧ st.trigger_tag_ ≠ dw.GetTriggerTag w then
          [.tagMismatch xDw st.trigger_tag_ (dw.GetTriggerTag w)] else []) := by
  cases type : dw.GetDataType w <;> simp [readAndCheck, type, nextTag]
  split <;> simp_all

/-- The first loop prints nothing, and it ends behind the first non-zero tag. -/
theorem firstLoop_tag (dw : MDdataWordBM) (ws : List UInt32) (xDw : Nat) (st : ScanState) :
    ∃ seen rest st', firstLoop dw ws xDw st = (st', rest, xDw + seen.length) ∧ ws = seen ++ rest ∧
      st'.trigger_tag_ = tagAfter dw st.trigger_tag_ seen ∧ st'.printed = st.printed ∧
      (rest ≠ [] → st'.trigger_tag_ ≠ 0) ∧
      ∀ i < seen.length, tagAfter dw st.trigger_tag_ (seen.take i) = 0 := by
  induction ws generalizing xDw st with
  | nil => exact ⟨[], [], st, rfl, rfl, rfl, rfl, nofun, nofun⟩
  | cons w ws ih =>
      rw [firstLoop]
      split
      · next zero =>
          obtain ⟨seen, rest, st', ends, split, tag, printed, armed, before⟩ :=
            ih (xDw + 1) (read dw w xDw st)
          obtain ⟨next, quiet⟩ := read_tag dw w xDw st
          rw [next] at tag before
          refine ⟨w :: seen, rest, st', ?_, congrArg (List.cons w) split, tag,
            printed.trans quiet, armed, ?_⟩
          · rw [ends, List.length_cons, Nat.add_assoc, Nat.add_comm 1]
          · intro i small
            cases i with
            | zero => exact zero
            | succ i => exact before i (Nat.lt_of_succ_lt_succ small)
      · next armed => exact ⟨[], w :: ws, st, rfl, rfl, rfl, rfl, fun _ => armed, nofun⟩

theorem secondLoop_printed (ws : List UInt32) (xDw : Nat) (st : ScanState) :
    (secondLoop dw ws xDw st).2.printed = st.printed ++ mismatches dw st.trigger_tag_ ws xDw := by
  induction ws generalizing xDw st with
  | nil => exact (List.append_nil _).symm
  | cons w ws ih =>
      obtain ⟨tag, printed⟩ := readAndCheck_tag dw w xDw st
      rw [secondLoop_cons, ih, tag, printed, mismatches, List.append_assoc]

/-- What a scan prints about tags, in terms of the words in front of a trailer. -/
theorem process_printed (dw : MDdataWordBM) (scanner : BMDDataScanner) {c : UFEDataContainer}
    (large : 4 ≤ c.size) :
    ∃ seen rest, words c.buf = seen ++ rest ∧ (rest ≠ [] → tagAfter dw 0 seen ≠ 0) ∧
      (∀ i < seen.length, tagAfter dw 0 (seen.take i) = 0) ∧
      (process dw scanner c).2.printed = mismatches dw (tagAfter dw 0 seen) rest seen.length := by
  obtain ⟨seen, rest, st', ends, split, tag, printed, armed, before⟩ :=
    firstLoop_tag dw (words c.buf) 0 ⟨0, c, []⟩
  refine ⟨seen, rest, split, tag ▸ armed, before, ?_⟩
  rw [process, if_neg (by omega), ends]
  show (secondLoop dw rest (0 + seen.length) st').2.printed = _
  rw [secondLoop_printed, printed, tag, Nat.zero_add]
  rfl

/-- The first loop does not get past a header with a non-zero tag: what follows such a
    header is behind the words it has read. -/
theorem length_le_of_armed {seen rest : List UInt32} {j : Nat}
    (before : ∀ i < seen.length, tagAfter dw 0 (seen.take i) = 0)
    (armed : Armed dw ((seen ++ rest).take j)) : seen.length ≤ j := by
  obtain ⟨v, member, header, nonzero⟩ := armed
  by_contra inside
  have short : (seen ++ rest).take j = seen.take j := by
    rw [List.take_append_of_le_length (by omega)]
  rw [short] at member
  obtain ⟨i, at_i⟩ := List.getElem?_of_mem member
  have small : i < j := by
    have bound := (List.getElem?_eq_some_iff.mp at_i).1
    rw [List.length_take] at bound
    omega
  rw [List.getElem?_take_of_lt small] at at_i
  have zero := before (i + 1) (by omega)
  rw [List.take_add_one, at_i, tagAfter_append] at zero
  exact nonzero (by simpa [nextTag, header] using zero)

/-- A scan reports the mismatches of its container and no others. -/
theorem mem_printed (dw : MDdataWordBM) (scanner : BMDDataScanner) (c : UFEDataContainer)
    (j expected found : Nat) :
    .tagMismatch j expected found ∈ (process dw scanner c).2.printed ↔
      TagMismatch dw (words c.buf) j expected found := by
  by_cases large : 4 ≤ c.size
  · obtain ⟨seen, rest, split, armed, before, printed⟩ := process_printed dw scanner large
    rw [printed, mem_mismatches, split]
    constructor
    · intro ⟨i, w, place, at_i, typed, last, own, other⟩
      subst place
      have nonempty : rest ≠ [] := List.ne_nil_of_mem (List.mem_of_getElem? at_i)
      rw [← tagAfter_append] at last
      obtain ⟨v, member, header, nonzero⟩ : Armed dw seen := by
        by_contra unarmed
        exact armed nonempty (tagAfter_unarmed unarmed)
      refine ⟨w, by rw [List.getElem?_append_right (by omega), Nat.add_sub_cancel_left]; exact at_i,
        typed, ?_⟩
      rw [List.take_length_add_append]
      refine ⟨⟨v, List.mem_append_left _ member, header, nonzero⟩, ?_⟩
      obtain ⟨h, latest⟩ : ∃ h, LastTrigHeader dw (seen ++ rest.take i) h :=
        exists_lastTrigHeader ⟨v, List.mem_append_left _ member, header⟩
      exact ⟨h, latest, last.trans latest.remembered, own, other⟩
    · intro ⟨w, at_j, typed, ⟨v, member, header, nonzero⟩, h, latest, last, own, other⟩
      have beyond : seen.length ≤ j := length_le_of_armed before ⟨v, member, header, nonzero⟩
      obtain ⟨i, rfl⟩ := Nat.exists_eq_add_of_le beyond
      rw [List.getElem?_append_right (by omega), Nat.add_sub_cancel_left] at at_j
      rw [List.take_length_add_append] at latest
      have remembered : tagAfter dw 0 (seen ++ rest.take i) = _ := latest.remembered
      rw [tagAfter_append] at remembered
      exact ⟨i, w, rfl, at_j, typed, last.trans remembered.symm, own, other⟩
  · rw [process_small scanner (by omega), words_eq_nil (Nat.lt_of_not_le large)]
    constructor
    · intro member
      simp at member
    · intro ⟨w, at_j, _⟩
      simp at at_j

theorem printed_ordered (dw : MDdataWordBM) (scanner : BMDDataScanner) (c : UFEDataContainer) :
    ((process dw scanner c).2.printed.filterMap ScanReport.dwId).Pairwise (· < ·) := by
  by_cases large : 4 ≤ c.size
  · obtain ⟨seen, rest, _, _, _, printed⟩ := process_printed dw scanner large
    rw [printed]
    exact mismatches_ordered ..
  · rw [process_small scanner (by omega)]
    exact List.Pairwise.nil

end BMDDataScanner

/-- No cut of a tagged stream has a mismatch in one of its containers. -/
theorem Tagged.no_mismatch {dw : MDdataWordBM} {stream : List UInt32} (tagged : Tagged dw stream)
    {before ws after : List UInt32} (cut : stream = before ++ (ws ++ after)) (j expected found : Nat) :
    ¬TagMismatch dw ws j expected found := by
  intro ⟨w, at_j, typed, _, h, latest, is, own, other⟩
  obtain ⟨small, here⟩ := List.getElem?_eq_some_iff.mp at_j
  have split : stream = (before ++ ws.take j) ++ w :: (ws.drop (j + 1) ++ after) := by
    rw [cut, List.append_assoc, ← List.cons_append, ← here, ← List.drop_eq_getElem_cons small,
      ← List.append_assoc (ws.take j), List.take_append_drop]
  have same := tagged _ w _ split typed h latest.after
  rw [is, own] at other
  exact other same

/-- A scan reports exactly the mismatching trailers of its container, in order and each once.
    A stream whose trailers carry the tags of their headers gives no report, wherever it is
    cut. -/
theorem trigger_tags_exact (dw : MDdataWordBM) (scanner : BMDDataScanner) :
    (∀ c : UFEDataContainer,
      (∀ j expected found,
        .tagMismatch j expected found ∈ (BMDDataScanner.process dw scanner c).2.printed ↔
          TagMismatch dw (words c.buf) j expected found) ∧
      ((BMDDataScanner.process dw scanner c).2.printed.filterMap ScanReport.dwId).Pairwise (· < ·)) ∧
    ∀ stream, Tagged dw stream → ∀ cut : List UFEDataContainer,
      cut.flatMap (fun c => words c.buf) = stream → ∀ c ∈ cut, ∀ j expected found,
        .tagMismatch j expected found ∉ (BMDDataScanner.process dw scanner c).2.printed := by
  constructor
  · intro c
    exact ⟨BMDDataScanner.mem_printed dw scanner c, BMDDataScanner.printed_ordered dw scanner c⟩
  · intro stream tagged cut isCut c member j expected found reported
    obtain ⟨before, after, rfl⟩ := List.append_of_mem member
    rw [List.flatMap_append, List.flatMap_cons] at isCut
    have mismatch := (BMDDataScanner.mem_printed dw scanner c j expected found).mp reported
    exact tagged.no_mismatch isCut.symm j expected found mismatch

end BMDaq
