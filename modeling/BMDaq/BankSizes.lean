import BMDaq.FakeData
import BMDaq.FragmentBuilder

/-! # The size member of the bank headers

`append` refreshes `size_`, and so do construction and `clear`. The branch for a container
without markers adds the size of the container once more on top of `append`; it is the
only one that leaves a wrong value behind, and the next `append` repairs it.
-/

namespace BMDaq

/-- One call that returns. -/
def DataFragmentBuilder.okStep (dw : MDdataWordBM) (s : FragmentState) (c : UFEDataContainer) :
    Option FragmentState :=
  (DataFragmentBuilder.process dw c s).returned?

/-- `header_->size_ == size()` in the local bank and in the event bank. -/
def SizesRight (s : FragmentState) : Prop := s.builder.mem_bank_.SizeRight ∧ s.out_data_.SizeRight

instance (s : FragmentState) : Decidable (SizesRight s) :=
  inferInstanceAs (Decidable (s.builder.mem_bank_.SizeRight ∧ s.out_data_.SizeRight))

/-- In the middle of a spill a container with data and without markers arrives. -/
structure CountedTwice (s : FragmentState) (c : UFEDataContainer) : Prop where
  middle : s.builder.mem_bank_.spill_headers_.length = 1
  noHeader : c.spill_headers_ = []
  noTrailer : c.spill_trailers_ = []
  data : c.size % sizeT ≠ 0

section Sizes

variable {dw : MDdataWordBM} {c : UFEDataContainer} {m m' : BMDBoardMemBank}
  {f? : Option BMDBoardMemBank} {s s' : FragmentState}

theorem extended_sizeRight_iff (m : BMDBoardMemBank) (c : UFEDataContainer) :
    (m.extended c).SizeRight ↔ c.size % sizeT = 0 := by
  have appended : (m.appendAll c).size = m.size + c.size :=
    BMDMemBank.append_size m (by simp [UFEDataContainer.InRange])
  have refreshed : (m.appendAll c).header_ .size_ = (m.size + c.size) % sizeT := by
    rw [← appended]
    exact BMDMemBank.append_sizeRight m
  have range : 256 ^ (HeaderType.layout BMDDataFragmenHeader.size_).width = sizeT := rfl
  have stored : (m.extended c).header_ HeaderType.size_ =
      ((m.size + c.size) % sizeT + c.size) % sizeT := by
    rw [← refreshed, ← range]
    exact BMDMemBank.header_setHeader _ _ _
  rw [BMDMemBank.SizeRight, stored, BMDMemBank.extended, BMDMemBank.setHeader_size, appended, sizeT]
  omega

theorem receive?_sizeRight {out : BMDEventMemBank} (right : out.SizeRight)
    (f? : Option BMDBoardMemBank) : (out.receive? f?).SizeRight := by
  cases f? with
  | none => exact right
  | some f => exact out.receive_sizeRight f

/-- A call keeps both sizes right unless it counts a container twice. -/
theorem okStep_sizesRight_iff (right : SizesRight s)
    (ok : DataFragmentBuilder.okStep dw s c = some s') : SizesRight s' ↔ ¬ CountedTwice s c := by
  obtain ⟨-, -, m', f?, step, -, rfl⟩ :=
    DataFragmentBuilder.process_done (Outcome.returned?_eq_some.mp ok)
  have event := receive?_sizeRight right.2 f?
  have plain (other : m'.SizeRight) (notTwice : ¬ CountedTwice s c) :
      SizesRight ⟨⟨s.builder.board_id_, m'⟩, s.out_data_.receive? f?⟩ ↔ ¬ CountedTwice s c :=
    iff_of_true ⟨other, event⟩ notTwice
  have idle_plain (idle : s.builder.mem_bank_.spill_headers_ = []) : ¬ CountedTwice s c := by
    intro twice
    simpa [idle] using twice.middle
  cases step with
  | ignored idle => exact plain right.1 (idle_plain idle)
  | opened h idle => exact plain (BMDMemBank.append_sizeRight _) (idle_plain idle)
  | whole h t idle => exact plain (BMDMemBank.clear_sizeRight _) (idle_plain idle)
  | extended h running headers trailers =>
      have size := extended_sizeRight_iff s.builder.mem_bank_ c
      constructor
      · exact fun right' twice => twice.data (size.mp right'.1)
      · intro once
        refine ⟨size.mpr ?_, event⟩
        by_contra data
        exact once ⟨by rw [running]; rfl, headers, trailers, data⟩
  | closed h t running headers trailers =>
      exact plain (BMDMemBank.clear_sizeRight _) fun twice =>
        nomatch trailers.symm.trans twice.noTrailer
  | turned h h' t running headers =>
      exact plain (BMDMemBank.append_sizeRight _) fun twice =>
        nomatch headers.symm.trans twice.noHeader

/-- In a run of returning calls both sizes are right in every state exactly when no call
    counts a container twice. -/
theorem sizes_right_iff {b : Int} {mem : Nat → UInt8} {out : BMDEventMemBank}
    {cs : List UFEDataContainer} (right : out.SizeRight)
    (ran : run (DataFragmentBuilder.okStep dw) ⟨.new b mem, out⟩ cs = some s) :
    (∀ p s', p <+: cs → run (DataFragmentBuilder.okStep dw) ⟨.new b mem, out⟩ p = some s' →
      SizesRight s') ↔
    ∀ p c s', p ++ [c] <+: cs →
      run (DataFragmentBuilder.okStep dw) ⟨.new b mem, out⟩ p = some s' → ¬ CountedTwice s' c :=
  run_good_iff ⟨BMDMemBank.fresh_sizeRight mem, right⟩
    (fun _ _ _ good ok => okStep_sizesRight_iff good ok) ran

open FakeData in
/-- A spill in one container leaves both sizes right. -/
theorem sizes_right_one_spill :
    ∃ s, run (DataFragmentBuilder.okStep fakeWord)
        ⟨.new 5 fun _ => 0, .fresh fun _ => 0⟩ [makeContainer 5 (shortSpill 5 5)] = some s ∧
      SizesRight s ∧ s.out_data_.header_ .n_fragments_ = 1 := by
  have moved : (run (DataFragmentBuilder.okStep fakeWord) ⟨.new 5 fun _ => 0, .fresh fun _ => 0⟩
      [makeContainer 5 (shortSpill 5 5)]).map (·.out_data_.header_ .n_fragments_) = some 1 := by
    decide +kernel
  obtain ⟨s, ran, count⟩ := Option.map_eq_some_iff.mp moved
  have all := (sizes_right_iff (BMDMemBank.fresh_sizeRight _) ran).mpr (by
    intro p c s' inside before twice
    have first : p = [] ∧ c = makeContainer 5 (shortSpill 5 5) := by
      have short := inside.length_le
      rw [List.length_append, List.length_singleton, List.length_singleton] at short
      obtain rfl : p = [] := List.length_eq_zero_iff.mp (by omega)
      simpa using inside
    have marked : (makeContainer 5 (shortSpill 5 5)).spill_headers_ ≠ [] := by decide +kernel
    exact marked (first.2 ▸ twice.noHeader))
  exact ⟨s, ran, all _ s (List.prefix_refl _) ran, count⟩

open FakeData in
/-- The second container of a spill has no markers: the local bank holds 20 bytes after
    it, and its header says 24. -/
theorem size_counted_twice :
    ∃ s, run (DataFragmentBuilder.okStep fakeWord)
        ⟨.new 5 fun _ => 0, .fresh fun _ => 0⟩
        [makeContainer 5 [spillHeader 5 5, filler], makeContainer 5 [filler]] = some s ∧
      s.builder.mem_bank_.size = 20 ∧ s.builder.mem_bank_.header_ .size_ = 24 ∧
      ¬ SizesRight s := by
  have sizes : (run (DataFragmentBuilder.okStep fakeWord) ⟨.new 5 fun _ => 0, .fresh fun _ => 0⟩
      [makeContainer 5 [spillHeader 5 5, filler], makeContainer 5 [filler]]).map
        (fun s => (s.builder.mem_bank_.size, s.builder.mem_bank_.header_ .size_,
          decide (SizesRight s))) = some (20, 24, false) := by decide +kernel
  obtain ⟨s, ran, values⟩ := Option.map_eq_some_iff.mp sizes
  simp only [Prod.mk.injEq, decide_eq_false_iff_not] at values
  exact ⟨s, ran, values⟩

end Sizes

end BMDaq
