import BMDaq.SpillAssembly

/-! # Markers of the banks

A scanned container marks spill words and nothing else. From there on every marker is
copied and rebased twice, into the local bank and into the event bank. `LocalTidy`,
`Completed` and `EventTidy` say where the markers of the three kinds of bank are and which
words they point at.
-/

namespace BMDaq

open Bytes

/-- What the scanner guarantees of a container. -/
structure Scanned (dw : MDdataWordBM) (c : UFEDataContainer) : Prop extends WellMarked c where
  headerWord : ∀ h ∈ c.spill_headers_, ∃ w, c.word? h = some w ∧ dw.GetDataType w = .SpillHeader
  trailerWord : ∀ t ∈ c.spill_trailers_, ∃ w, c.word? t = some w ∧ dw.GetDataType w = .SpillTrailer2
  aligned : ∀ m, m ∈ c.spill_headers_ ∨ m ∈ c.spill_trailers_ → 4 ∣ m

/-- An empty local bank, or one that holds the beginning of a spill. -/
inductive LocalTidy (dw : MDdataWordBM) (m : BMDBoardMemBank) : Prop where
  | empty : m.size = 8 → m.spill_headers_ = [] → m.spill_trailers_ = [] → LocalTidy dw m
  | filling (w) : m.spill_headers_ = [8] → m.spill_trailers_ = [] → m.word? 8 = some w →
      dw.GetDataType w = .SpillHeader → LocalTidy dw m

/-- A local bank at the moment it is handed over. -/
structure Completed (dw : MDdataWordBM) (f : BMDBoardMemBank) : Prop where
  headers : f.spill_headers_ = [8]
  trailers : f.spill_trailers_ = [f.size - 4]
  large : 16 ≤ f.size
  first : ∃ w, f.word? 8 = some w ∧ dw.GetDataType w = .SpillHeader
  last : ∃ w, f.word? (f.size - 4) = some w ∧ dw.GetDataType w = .SpillTrailer2
  sized : f.SizeRight

namespace LocalTidy

variable {dw : MDdataWordBM} {m : BMDBoardMemBank}

theorem noTrailers (tidy : LocalTidy dw m) : m.spill_trailers_ = [] := by
  cases tidy with
  | empty _ _ clean => exact clean
  | filling _ _ clean => exact clean

theorem of_idle (tidy : LocalTidy dw m) (none : m.spill_headers_ = []) : m.size = 8 := by
  cases tidy with
  | empty size => exact size
  | filling w markers => cases none.symm.trans markers

theorem of_busy (tidy : LocalTidy dw m) {h : Nat} (one : m.spill_headers_ = [h]) :
    ∃ w, m.spill_headers_ = [8] ∧ m.word? 8 = some w ∧ dw.GetDataType w = .SpillHeader := by
  cases tidy with
  | empty size idle => cases idle.symm.trans one
  | filling w markers clean found typed => exact ⟨w, markers, found, typed⟩

end LocalTidy

section Scan

variable {dw : MDdataWordBM}

/-- The words at the offsets that the scanner records. -/
theorem offsetsOf_word {type : DataType} {buf : List UInt8} {m : Nat}
    (marked : m ∈ offsetsOf dw type (words buf) 0) :
    (∃ w, wordAt? buf m = some w ∧ dw.GetDataType w = type) ∧ 4 ∣ m := by
  obtain ⟨i, w, found, typed, rfl⟩ := mem_offsetsOf.mp marked
  rw [words_getElem?] at found
  rw [Nat.zero_add, Nat.mul_comm]
  exact ⟨⟨w, found, typed⟩, Nat.dvd_mul_right 4 i⟩

theorem RawContainer.scanned_spec (dw : MDdataWordBM) (c : RawContainer) :
    Scanned dw (c.scanned dw) := by
  rw [c.scanned_eq]
  have inside {type : DataType} {m : Nat} (marked : m ∈ offsetsOf dw type (words c.buf) 0) :
      m + 4 ≤ c.buf.length := by
    obtain ⟨⟨w, found, -⟩, -⟩ := offsetsOf_word marked
    exact wordAt?_inside found
  exact
    { fits := c.fits
      headers := fun h marked => inside marked
      trailers := fun t marked => inside marked
      headerWord := fun h marked => (offsetsOf_word marked).1
      trailerWord := fun t marked => (offsetsOf_word marked).1
      aligned := fun m marked => marked.elim (fun m => (offsetsOf_word m).2)
        (fun m => (offsetsOf_word m).2) }

variable {c : UFEDataContainer} {m m' : BMDBoardMemBank} {f? : Option BMDBoardMemBank}

/-- No word is a header and a trailer, so markers of the two kinds are a word apart. -/
theorem Scanned.apart (scanned : Scanned dw c) {h t : Nat} (header : h ∈ c.spill_headers_)
    (trailer : t ∈ c.spill_trailers_) : h + 4 ≤ t ∨ t + 4 ≤ h := by
  obtain ⟨w, atH, isHeader⟩ := scanned.headerWord h header
  obtain ⟨v, atT, isTrailer⟩ := scanned.trailerWord t trailer
  have other : h ≠ t := by
    rintro rfl
    obtain rfl : w = v := Option.some.inj (atH.symm.trans atT)
    cases isHeader.symm.trans isTrailer
  have first := scanned.aligned h (.inl header)
  have second := scanned.aligned t (.inr trailer)
  omega

/-- A slice that starts at the header, appended to an empty bank. -/
theorem Scanned.open_slice (scanned : Scanned dw c) {h n : Nat} (empty : m.size = 8)
    (idle : m.spill_headers_ = []) (headers : c.spill_headers_ = [h]) (some : 4 ≤ n)
    (ranged : h + n ≤ c.size) :
    (m.append c h n).spill_headers_ = [8] ∧ (m.append c h n).size = 8 + n ∧
      ∃ w, (m.append c h n).word? 8 = .some w ∧ dw.GetDataType w = .SpillHeader := by
  have fits := scanned.fits
  have low : h % 2 ^ 32 = h := Nat.mod_eq_of_lt (by omega)
  obtain ⟨w, found, typed⟩ := scanned.headerWord h (by simp [headers])
  refine ⟨?_, ?_, w, ?_, typed⟩
  · rw [BMDMemBank.append_spill_headers, low, idle, headers, empty,
      UFEDataContainer.rebase_one_inside _ (le_refl h) (by omega)]
    simp
  · rw [BMDMemBank.append_size _ (by rw [low]; exact ranged), empty]
  · have moved := BMDMemBank.append_word_new m c h 0 (n := n) (by omega)
    rw [empty, low] at moved
    exact moved.trans found

/-- The slice from the header to the trailer of a container, appended to an empty bank. -/
theorem Scanned.whole_slice (scanned : Scanned dw c) {h t : Nat} (empty : m.size = 8)
    (idle : m.spill_headers_ = []) (clean : m.spill_trailers_ = [])
    (headers : c.spill_headers_ = [h]) (trailers : c.spill_trailers_ = [t]) (after : h ≤ t) :
    Completed dw (m.append c h (sizeSub t h + 4)) := by
  have inside := scanned.trailers t (by simp [trailers])
  have fits := scanned.fits
  have apart := scanned.apart (h := h) (t := t) (by simp [headers]) (by simp [trailers])
  have length : sizeSub t h = t - h := sizeSub_of_le after
  have low : h % 2 ^ 32 = h := Nat.mod_eq_of_lt (by omega)
  obtain ⟨markers, grown, first⟩ := scanned.open_slice (n := sizeSub t h + 4) empty idle headers
    (by omega) (by omega)
  obtain ⟨v, found, closing⟩ := scanned.trailerWord t (by simp [trailers])
  exact
    { headers := markers
      trailers := by
        rw [BMDMemBank.append_spill_trailers, low, clean, trailers, grown, empty,
          UFEDataContainer.rebase_one_inside _ after (by omega)]
        simp only [List.nil_append, List.cons.injEq, and_true]
        omega
      large := by omega
      first := first
      last := by
        have moved := BMDMemBank.append_word_new m c h (t - h) (n := sizeSub t h + 4)
          (by omega)
        have place : (m.append c h (sizeSub t h + 4)).size - 4 = m.size + (t - h) := by omega
        rw [low, Nat.add_sub_cancel' after] at moved
        exact ⟨v, by rw [place]; exact moved.trans found, closing⟩
      sized := m.append_sizeRight }

/-- The beginning of a container up to its trailer, appended to a filling bank. -/
theorem Scanned.close_slice (scanned : Scanned dw c) {t : Nat} {w : UInt32}
    (headers : m.spill_headers_ = [8]) (trailers : m.spill_trailers_ = [])
    (atHeader : m.word? 8 = some w) (typed : dw.GetDataType w = .SpillHeader)
    (last : c.spill_trailers_ = [t]) (later : ∀ h ∈ c.spill_headers_, t ≤ h) :
    Completed dw (m.append c 0 (t + 4)) := by
  obtain ⟨v, found, closing⟩ := scanned.trailerWord t (by simp [last])
  have long : 8 + 4 ≤ m.size := wordAt?_inside atHeader
  have size : (m.append c 0 (t + 4)).size = m.size + (t + 4) := by
    have inside := scanned.trailers t (by simp [last])
    exact BMDMemBank.append_size _ (by rw [UFEDataContainer.InRange]; omega)
  have none : UFEDataContainer.rebase c.spill_headers_ 0 (t + 4) m.size = [] := by
    simp only [UFEDataContainer.rebase, List.map_eq_nil_iff, List.filter_eq_nil_iff,
      decide_eq_true_eq]
    intro h member
    have after := later h member
    have apart := scanned.apart member (t := t) (by simp [last])
    omega
  exact
    { headers := by
        rw [BMDMemBank.append_spill_headers, Nat.zero_mod, none, headers, List.append_nil]
      trailers := by
        rw [BMDMemBank.append_spill_trailers, Nat.zero_mod, trailers, last, size,
          UFEDataContainer.rebase_one_inside _ (Nat.zero_le t) (by omega)]
        simp only [List.nil_append, List.cons.injEq, and_true]
        omega
      large := by omega
      first := ⟨w, (BMDMemBank.append_word m (by simp) long).trans atHeader, typed⟩
      last := by
        have moved := BMDMemBank.append_word_new m c 0 t (n := t + 4) (by omega)
        have place : (m.append c 0 (t + 4)).size - 4 = m.size + t := by omega
        rw [Nat.zero_mod, Nat.zero_add] at moved
        exact ⟨v, by rw [place]; exact moved.trans found, closing⟩
      sized := m.append_sizeRight }

/-- The rest of a container from its header on, appended to an empty bank. -/
theorem Scanned.tail_tidy (scanned : Scanned dw c) {h : Nat} (empty : m.size = 8)
    (idle : m.spill_headers_ = []) (clean : m.spill_trailers_ = [])
    (headers : c.spill_headers_ = [h]) (earlier : ∀ t ∈ c.spill_trailers_, t < h) :
    LocalTidy dw (m.append c h (sizeSub c.size h)) := by
  have inside := scanned.headers h (by simp [headers])
  have fits := scanned.fits
  have length : sizeSub c.size h = c.size - h := sizeSub_of_le (by omega)
  have low : h % 2 ^ 32 = h := Nat.mod_eq_of_lt (by omega)
  obtain ⟨markers, -, w, found, typed⟩ := scanned.open_slice (n := sizeSub c.size h) empty idle
    headers (by omega) (by omega)
  have none : UFEDataContainer.rebase c.spill_trailers_ h (sizeSub c.size h) 8 = [] := by
    simp only [UFEDataContainer.rebase, List.map_eq_nil_iff, List.filter_eq_nil_iff,
      decide_eq_true_eq]
    intro t member
    have before := earlier t member
    omega
  refine .filling w markers ?_ found typed
  rw [BMDMemBank.append_spill_trailers, low, clean, empty, none, List.append_nil]

/-- One call keeps the local bank tidy and hands over only complete fragments. -/
theorem LocalStep.tidy (step : LocalStep c m m' f?) (tidy : LocalTidy dw m)
    (scanned : Scanned dw c) : LocalTidy dw m' ∧ ∀ f ∈ f?, Completed dw f := by
  have cleared (m : BMDBoardMemBank) : LocalTidy dw m.clear :=
    .empty m.clear_size m.clear_spill_headers m.clear_spill_trailers
  have handed {f : BMDBoardMemBank} (complete : Completed dw f) :
      ∀ f' ∈ some f, Completed dw f' := by
    intro f' is
    rw [← Option.mem_some.mp is]
    exact complete
  have clean := tidy.noTrailers
  cases step with
  | ignored => exact ⟨tidy, nofun⟩
  | opened h idle headers trailers ranged =>
      refine ⟨scanned.tail_tidy (tidy.of_idle idle) idle clean headers ?_, nofun⟩
      intro t member
      rcases trailers with none | ⟨t', one, before⟩
      · rw [none] at member
        cases member
      · rw [one, List.mem_singleton] at member
        exact member ▸ before
  | whole h t idle headers trailers after =>
      exact ⟨cleared _,
        handed (scanned.whole_slice (tidy.of_idle idle) idle clean headers trailers after)⟩
  | extended h running headers trailers =>
      obtain ⟨w, markers, found, typed⟩ := tidy.of_busy running
      have long : 8 + 4 ≤ m.size := wordAt?_inside found
      refine ⟨.filling w ?_ ?_ ?_ typed, nofun⟩
      · simp only [BMDMemBank.extended, BMDMemBank.setHeader_spill_headers,
          BMDMemBank.appendAll, BMDMemBank.append_spill_headers, headers, markers,
          UFEDataContainer.rebase_nil, List.append_nil]
      · simp only [BMDMemBank.extended, BMDMemBank.setHeader_spill_trailers,
          BMDMemBank.appendAll, BMDMemBank.append_spill_trailers, trailers, clean,
          UFEDataContainer.rebase_nil, List.append_nil]
      · rw [BMDMemBank.extended, BMDMemBank.setHeader_word _ _ _ (by simp)]
        exact (BMDMemBank.append_word m (by simp) long).trans found
  | closed h t running headers trailers =>
      obtain ⟨w, markers, found, typed⟩ := tidy.of_busy running
      exact ⟨cleared _,
        handed (scanned.close_slice markers clean found typed trailers (by simp [headers]))⟩
  | turned h h' t running headers trailers before =>
      obtain ⟨w, markers, found, typed⟩ := tidy.of_busy running
      have apart := scanned.apart (h := h') (t := t) (by simp [headers]) (by simp [trailers])
      refine ⟨scanned.tail_tidy (BMDMemBank.clear_size _) (BMDMemBank.clear_spill_headers _)
        (BMDMemBank.clear_spill_trailers _) headers ?_,
        handed (scanned.close_slice markers clean found typed trailers (by simp [headers, before]))⟩
      intro t' member
      rw [trailers, List.mem_singleton] at member
      omega

end Scan

/-- A container that comes from the scanner. -/
def ScannerFilled (dw : MDdataWordBM) (c : UFEDataContainer) : Prop :=
  ∃ raw : RawContainer, c = raw.scanned dw

theorem ScannerFilled.spec {dw : MDdataWordBM} {c : UFEDataContainer} (filled : ScannerFilled dw c) :
    Scanned dw c := by
  obtain ⟨raw, rfl⟩ := filled
  exact raw.scanned_spec dw

theorem FakeData.makeContainer_filled (board : Int) {ws : List UInt32}
    (small : 4 * ws.length ≤ 2 ^ 32) :
    ScannerFilled FakeData.fakeWord (FakeData.makeContainer board ws) :=
  ⟨⟨wordBytes ws, board, by rwa [wordBytes_length]⟩, rfl⟩

/-- The local banks of all boards stay tidy, and every completed fragment is the content of
    a complete bank. -/
theorem Bench.Accepts.tidy {dw : MDdataWordBM} {mem : Memory} {cs : List UFEDataContainer}
    (accepted : Bench.Accepts dw mem cs) (scanned : ∀ c ∈ cs, Scanned dw c) :
    (∀ b, LocalTidy dw (((Bench.start mem).run dw cs).builder b).mem_bank_) ∧
      ∀ f ∈ completions dw mem cs, ∃ m, Completed dw m ∧ f.bytes = m.buf := by
  induction accepted with
  | nil => exact ⟨fun b => .empty (BMDMemBank.fresh_size _) rfl rfl, nofun⟩
  | @snoc cs c out s _ called ih =>
      obtain ⟨locals, log⟩ := ih fun c' member => scanned c' (List.mem_append_left _ member)
      obtain ⟨f?, moved, -, -, stepped⟩ := Bench.step_done called
      obtain ⟨tidy, handed⟩ := moved.tidy (locals c.boardId) (scanned c (by simp))
      rw [completions] at log ⊢
      rw [Bench.run_snoc, stepped]
      constructor
      · intro b
        by_cases own : b = c.boardId
        · simpa only [own, Function.update_self] using tidy
        · simpa only [Function.update_of_ne own] using locals b
      · intro f member
        rcases List.mem_append.mp member with old | new
        · exact log f old
        · cases f? with
          | none => exact (List.not_mem_nil new).elim
          | some m =>
              rw [Bench.handedOver, List.mem_singleton] at new
              exact ⟨m, handed m rfl, by rw [new]⟩

/-! ## The event bank -/

/-- `h₀, t₀, h₁, t₁, …` -/
def interleave (headers trailers : List Nat) : List Nat :=
  (headers.zip trailers).flatMap fun pair => [pair.1, pair.2]

/-- The event bank has one header and one trailer marker per fragment, in alternating
    order, and they mark spill words. -/
structure EventTidy (dw : MDdataWordBM) (bank : BMDEventMemBank) : Prop where
  paired : bank.spill_headers_.length = bank.spill_trailers_.length
  counted : bank.header_ .n_fragments_ = bank.spill_headers_.length % 2 ^ 16
  ordered : (interleave bank.spill_headers_ bank.spill_trailers_ ++ [bank.size]).Pairwise (· < ·)
  headerWord : ∀ h ∈ bank.spill_headers_, 24 ≤ h ∧
    ∃ w, bank.word? h = some w ∧ dw.GetDataType w = .SpillHeader
  trailerWord : ∀ t ∈ bank.spill_trailers_, 24 ≤ t ∧
    ∃ w, bank.word? t = some w ∧ dw.GetDataType w = .SpillTrailer2

section Event

variable {dw : MDdataWordBM} {bank : BMDEventMemBank} {f : BMDBoardMemBank}

theorem interleave_snoc {hs ts : List Nat} (paired : hs.length = ts.length) (h t : Nat) :
    interleave (hs ++ [h]) (ts ++ [t]) = interleave hs ts ++ [h, t] := by
  simp [interleave, List.zip_append paired]

theorem EventTidy.cleared (headers : bank.spill_headers_ = []) (trailers : bank.spill_trailers_ = [])
    (zero : bank.header_ .n_fragments_ = 0) : EventTidy dw bank where
  paired := by rw [headers, trailers]
  counted := by rw [headers, zero]; rfl
  ordered := by simp [interleave, headers]
  headerWord := by simp [headers]
  trailerWord := by simp [trailers]

/-- Words of the event bank stay where they are when a fragment is received. -/
theorem EventTidy.word_kept {type : DataType} {m : Nat}
    (old : 24 ≤ m ∧ ∃ w, bank.word? m = some w ∧ dw.GetDataType w = type) :
    24 ≤ m ∧ ∃ w, (bank.receive f).word? m = some w ∧ dw.GetDataType w = type := by
  obtain ⟨past, w, found, typed⟩ := old
  exact ⟨past, w, (bank.receive_word f past (wordAt?_inside found)).trans found, typed⟩

/-- The markers of a complete fragment are rebased behind those of the bank. -/
theorem EventTidy.receive (tidy : EventTidy dw bank) (complete : Completed dw f) :
    EventTidy dw (bank.receive f) := by
  have large := complete.large
  have past : 24 ≤ bank.size := bank.hasHeader
  have headers : (bank.receive f).spill_headers_ = bank.spill_headers_ ++ [8 + bank.size] := by
    have inside : ∀ h ∈ f.spill_headers_, h < f.size := by
      simp only [complete.headers, List.mem_singleton, forall_eq]
      omega
    rw [BMDMemBank.receive_spill_headers _ _ inside, complete.headers]
    rfl
  have trailers : (bank.receive f).spill_trailers_ =
      bank.spill_trailers_ ++ [f.size - 4 + bank.size] := by
    have inside : ∀ t ∈ f.spill_trailers_, t < f.size := by
      simp only [complete.trailers, List.mem_singleton, forall_eq]
      omega
    rw [BMDMemBank.receive_spill_trailers _ _ inside, complete.trailers]
    rfl
  have moved {offset : Nat} (within : offset + 4 ≤ f.size) {type : DataType}
      (there : ∃ w, f.word? offset = some w ∧ dw.GetDataType w = type) :
      24 ≤ offset + bank.size ∧
        ∃ w, (bank.receive f).word? (offset + bank.size) = some w ∧ dw.GetDataType w = type := by
    obtain ⟨w, found, typed⟩ := there
    rw [Nat.add_comm offset]
    exact ⟨by omega, w, (bank.receive_word_new f within).trans found, typed⟩
  exact
    { paired := by simp only [headers, trailers, List.length_append, tidy.paired, List.length_singleton]
      counted := by
        rw [BMDMemBank.receive_n_fragments, tidy.counted, headers, List.length_append,
          Nat.mod_add_mod]
        rfl
      ordered := by
        have sorted := tidy.ordered
        rw [headers, trailers, interleave_snoc tidy.paired, BMDMemBank.receive_size]
        simp only [List.pairwise_append, List.pairwise_cons, List.mem_append, List.mem_cons,
          List.not_mem_nil, or_false, List.Pairwise.nil] at sorted ⊢
        grind
      headerWord := by
        intro h member
        rw [headers, List.mem_append, List.mem_singleton] at member
        rcases member with old | rfl
        · exact EventTidy.word_kept (tidy.headerWord h old)
        · exact moved (by omega) complete.first
      trailerWord := by
        intro t member
        rw [trailers, List.mem_append, List.mem_singleton] at member
        rcases member with old | rfl
        · exact EventTidy.word_kept (tidy.trailerWord t old)
        · exact moved (by omega) complete.last }

end Event

section Runs

variable {dw : MDdataWordBM} {boards : List Int} {mem : Memory} {id : Nat}
  {arrivals : List Arrival} {eb eb' : BMDEventBuilder}

/-- An event bank in use: tidy, and short of a complete event. -/
def Collecting (dw : MDdataWordBM) (boards : List Int) (eb : BMDEventBuilder) : Prop :=
  ∃ bank, eb.spill_mem_bank_ = some bank ∧ EventTidy dw bank ∧
    bank.spill_headers_.length < boards.dedup.length

/-- One call keeps the event bank tidy, whether it is written and cleared or not. -/
theorem Ledger.collecting_next {cs : List UFEDataContainer} {c : UFEDataContainer} {now : Nat}
    {groups : List (List Fragment)} {pending : List Fragment}
    (ledger : Ledger dw boards mem id cs eb groups pending) (few : boards.dedup.length ≤ 65535)
    (scanned : ∀ c' ∈ cs ++ [c], Scanned dw c') (collecting : Collecting dw boards eb)
    (advanced : BMDEventBuilder.Advanced dw c now eb eb') : Collecting dw boards eb' := by
  obtain ⟨bank₀, atBank, tidy, short⟩ := collecting
  have locals := (ledger.accepted.tidy fun c' member => scanned c' (by simp [member])).1
  have received {builder : DataFragmentBuilder} {s : FragmentState}
      (found : eb.board_event_builders_.lookup c.boardId = some (some builder))
      (called : DataFragmentBuilder.process dw c ⟨builder, bank₀⟩ = .done s) :
      EventTidy dw s.out_data_ ∧
        s.out_data_.spill_headers_.length ≤ bank₀.spill_headers_.length + 1 := by
    obtain ⟨-, rfl⟩ := ledger.builder_of_lookup found
    obtain ⟨-, -, m', f?, moved, -, rfl⟩ := DataFragmentBuilder.process_done called
    obtain ⟨-, handed⟩ := moved.tidy (locals c.boardId) (scanned c (by simp))
    cases f? with
    | none => exact ⟨tidy, Nat.le_succ _⟩
    | some f =>
        have complete := handed f rfl
        have large := complete.large
        refine ⟨tidy.receive complete, ?_⟩
        have inside : ∀ h ∈ f.spill_headers_, h < f.size := by
          simp only [complete.headers, List.mem_singleton, forall_eq]
          omega
        simp only [BMDMemBank.receive?, BMDMemBank.receive_spill_headers _ _ inside,
          List.length_append, complete.headers, List.map_cons, List.map_nil,
          List.length_singleton, le_refl]
  cases advanced with
  | collected found ready called incomplete after =>
      obtain rfl : _ = bank₀ := Option.some.inj (ready.symm.trans atBank)
      obtain ⟨tidy', one⟩ := received found called
      subst after
      refine ⟨_, rfl, tidy', ?_⟩
      rw [tidy'.counted, ledger.staffed.size, Nat.mod_eq_of_lt (by omega)] at incomplete
      omega
  | wrote found ready called complete after =>
      subst after
      exact ⟨_, rfl, .cleared (BMDMemBank.clear_spill_headers _)
        (BMDMemBank.clear_spill_trailers _) (event_clear_header _).2.1,
        by rw [BMDMemBank.clear_spill_headers, List.length_nil]; omega⟩

/-- In every state of an error-free run over scanned containers the markers of all banks
    are in place. -/
theorem markers_in_place (some : 1 ≤ boards.dedup.length) (few : boards.dedup.length ≤ 65535)
    (cleared : StartsCleared mem) (writes : WriteErrorsReported arrivals)
    (filled : ∀ c ∈ containers arrivals, ScannerFilled dw c)
    (ran : run (BMDEventBuilder.okStep dw) ((BMDEventBuilder.new id).init boards mem) arrivals =
      .some eb) :
    (∀ b builder, eb.board_event_builders_.lookup b = .some (.some builder) →
      LocalTidy dw builder.mem_bank_) ∧
    ∃ bank, eb.spill_mem_bank_ = .some bank ∧ EventTidy dw bank ∧
      bank.spill_headers_.length = bank.header_ .n_fragments_ ∧
      bank.spill_trailers_.length = bank.header_ .n_fragments_ := by
  obtain ⟨groups, pending, ledger⟩ := run_ledger some cleared writes ran
  have scanned : ∀ c ∈ containers arrivals, Scanned dw c := fun c member => (filled c member).spec
  constructor
  · intro b builder found
    obtain ⟨-, rfl⟩ := ledger.builder_of_lookup found
    exact (ledger.accepted.tidy scanned).1 b
  · have collecting : WriteErrorsReported arrivals → (∀ c ∈ containers arrivals, Scanned dw c) →
        Collecting dw boards eb := by
      refine run_induction
        (P := fun arrivals eb => WriteErrorsReported arrivals →
          (∀ c ∈ containers arrivals, Scanned dw c) → Collecting dw boards eb) ?_ ?_ ran
      · exact fun _ _ => ⟨_, rfl, .cleared rfl rfl cleared, some⟩
      · intro before eb a eb' earlier ih ok writes scanned
        have writesBefore : WriteErrorsReported before :=
          fun a' member => writes a' (List.mem_append_left _ member)
        obtain ⟨groups, pending, ledger⟩ := run_ledger some cleared writesBefore earlier
        rw [containers_snoc] at scanned
        exact ledger.collecting_next few scanned
          (ih writesBefore fun c member => scanned c (List.mem_append_left _ member))
          (BMDEventBuilder.okStep_advanced (writes a (by simp)) ok)
    obtain ⟨bank, atBank, tidy, short⟩ := collecting writes scanned
    have count : bank.spill_headers_.length = bank.header_ .n_fragments_ := by
      rw [tidy.counted, Nat.mod_eq_of_lt (by omega)]
    exact ⟨bank, atBank, tidy, count, tidy.paired.symm.trans count⟩

open FakeData in
/-- Board 0 has completed a spill, board 5 has begun one. -/
theorem markers_after_two_containers :
    ∃ eb bank, run (BMDEventBuilder.okStep fakeWord) twoBoards
        [arriving 0 (shortSpill 0 5), arriving 5 [spillHeader 5 5, filler]] = .some eb ∧
      eb.spill_mem_bank_ = .some bank ∧ EventTidy fakeWord bank ∧
      bank.header_ .n_fragments_ = 1 ∧ bank.spill_headers_ = [32] ∧
      bank.spill_trailers_ = [44] := by
  have markers : (run (BMDEventBuilder.okStep fakeWord) twoBoards
      [arriving 0 (shortSpill 0 5), arriving 5 [spillHeader 5 5, filler]]).map
        (·.spill_mem_bank_.map fun bank => (bank.spill_headers_, bank.spill_trailers_)) =
          .some (.some ([32], [44])) := by decide +kernel
  obtain ⟨eb, ran, banks⟩ := Option.map_eq_some_iff.mp markers
  have filled : ∀ c ∈ containers [arriving 0 (shortSpill 0 5), arriving 5 [spillHeader 5 5, filler]],
      ScannerFilled fakeWord c := by
    simp only [containers, List.map_cons, List.map_nil, List.mem_cons, List.not_mem_nil, or_false,
      forall_eq_or_imp, forall_eq]
    exact ⟨makeContainer_filled _ (by decide), makeContainer_filled _ (by decide)⟩
  obtain ⟨-, bank, atBank, tidy, headers, -⟩ :=
    markers_in_place (by decide) (by decide) (by decide +kernel) (by decide) filled ran
  simp only [atBank, Option.map_some, Option.some.injEq, Prod.mk.injEq] at banks
  rw [banks.1] at headers
  exact ⟨eb, bank, ran, atBank, tidy, headers.symm, banks⟩

end Runs

end BMDaq
