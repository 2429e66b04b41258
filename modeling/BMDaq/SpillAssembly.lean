import BMDaq.FragmentLog

/-! # Spill assembly without banks

`follow` says what a container means for the spill of its board, in terms of bytes and
markers only: no bank, no header, no consistency check. The fragment builder refines it
on containers whose markers lie inside them, which is what the scanner guarantees.
-/

namespace BMDaq

open Bytes

/-- The markers of a container lie inside it, and its offsets fit `unsigned int`. -/
structure WellMarked (c : UFEDataContainer) : Prop where
  fits : c.size ≤ 2 ^ 32
  headers : ∀ h ∈ c.spill_headers_, h + 4 ≤ c.size
  trailers : ∀ t ∈ c.spill_trailers_, t + 4 ≤ c.size

instance (c : UFEDataContainer) : Decidable (WellMarked c) :=
  decidable_of_iff (c.size ≤ 2 ^ 32 ∧ (∀ h ∈ c.spill_headers_, h + 4 ≤ c.size) ∧
      ∀ t ∈ c.spill_trailers_, t + 4 ≤ c.size)
    ⟨fun ⟨fits, headers, trailers⟩ => ⟨fits, headers, trailers⟩,
      fun marked => ⟨marked.fits, marked.headers, marked.trailers⟩⟩

/-- The bytes of the open spill after a container, and the spill it completes. A header in
    the middle of a spill without a trailer before it is rejected by the builder; the open
    spill is then left as it was. -/
def follow (running : Option (List UInt8)) (c : UFEDataContainer) :
    Option (List UInt8) × Option (List UInt8) :=
  match running, c.spill_headers_, c.spill_trailers_ with
  | none, [], _ => (none, none)
  | none, h :: _, [] => (some (c.buf.drop h), none)
  | none, h :: _, t :: _ =>
      if h ≤ t then (none, some ((c.buf.drop h).take (t - h + 4))) else (some (c.buf.drop h), none)
  | some p, [], [] => (some (p ++ c.buf), none)
  | some p, [], t :: _ => (none, some (p ++ c.buf.take (t + 4)))
  | some p, h :: _, t :: _ => (some (c.buf.drop h), some (p ++ c.buf.take (t + 4)))
  | some p, _ :: _, [] => (some p, none)

/-- A local bank that holds the open spill, or nothing. -/
def Represents (m : BMDBoardMemBank) : Option (List UInt8) → Prop
  | none => m.spill_headers_ = [] ∧ m.spill_trailers_ = [] ∧ m.payload = []
  | some p => (∃ hs, m.spill_headers_ = 8 :: hs) ∧ m.payload = p

section Refinement

variable {c : UFEDataContainer} {m m' : BMDBoardMemBank}
  {f? : Option BMDBoardMemBank} {running : Option (List UInt8)}

theorem Represents.idle (rep : Represents m running) (none : m.spill_headers_ = []) :
    running = .none ∧ m.size = 8 ∧ m.payload = [] := by
  cases running with
  | none => exact ⟨rfl, by rw [m.size_eq, rep.2.2]; rfl, rep.2.2⟩
  | some p =>
      obtain ⟨⟨hs, headers⟩, -⟩ := rep
      rw [none] at headers
      cases headers

theorem Represents.busy (rep : Represents m running) {h : Nat} (one : m.spill_headers_ = [h]) :
    h = 8 ∧ running = some m.payload := by
  cases running with
  | none =>
      rw [rep.1] at one
      cases one
  | some p =>
      obtain ⟨⟨hs, headers⟩, bytes⟩ := rep
      rw [one] at headers
      exact ⟨(List.cons.inj headers).1, congrArg some bytes.symm⟩

theorem Represents.payload (rep : Represents m running) : m.payload = running.getD [] := by
  cases running with
  | none => exact rep.2.2
  | some p => exact rep.2

theorem clear_represents (m : BMDBoardMemBank) : Represents m.clear none :=
  ⟨m.clear_spill_headers, m.clear_spill_trailers, m.clear_payload⟩

/-- Opening a spill in an empty bank, with any slice that starts at the header. -/
theorem append_header_empty {h n : Nat} (idle : m.spill_headers_ = []) (empty : m.size = 8)
    (nothing : m.payload = []) (headers : c.spill_headers_ = [h]) (small : h < 2 ^ 32)
    (some : 0 < n) :
    (m.append c h n).spill_headers_ = [8] ∧ (m.append c h n).payload = (c.buf.drop h).take n := by
  constructor
  · rw [BMDMemBank.append_spill_headers, Nat.mod_eq_of_lt small, idle, headers,
      UFEDataContainer.rebase_one_inside _ (le_refl h) (by omega), empty]
    simp
  · rw [BMDMemBank.append_payload, nothing, List.nil_append, Nat.mod_eq_of_lt small]

/-- The rest of a container, from its header on. -/
theorem append_tail_empty {h : Nat} (idle : m.spill_headers_ = []) (empty : m.size = 8)
    (nothing : m.payload = []) (headers : c.spill_headers_ = [h]) (marked : WellMarked c) :
    Represents (m.append c h (sizeSub c.size h)) (some (c.buf.drop h)) := by
  have inside := marked.headers h (by simp [headers])
  have fits := marked.fits
  have length : sizeSub c.size h = c.size - h := sizeSub_of_le (by omega)
  obtain ⟨markers, bytes⟩ := append_header_empty (n := sizeSub c.size h) idle empty nothing headers
    (by omega) (by omega)
  refine ⟨⟨[], markers⟩, ?_⟩
  rw [bytes, List.take_of_length_le]
  simp only [List.length_drop, UFEDataContainer.size] at length ⊢
  omega

/-- The beginning of a container goes on with the open spill. -/
theorem append_front (n : Nat) (c : UFEDataContainer) {hs : List Nat}
    (headers : m.spill_headers_ = 8 :: hs) :
    (∃ hs', (m.append c 0 n).spill_headers_ = 8 :: hs') ∧
      (m.append c 0 n).payload = m.payload ++ c.buf.take n := by
  refine ⟨⟨_, by rw [BMDMemBank.append_spill_headers, headers, List.cons_append]⟩, ?_⟩
  rw [BMDMemBank.append_payload, Nat.zero_mod, List.drop_zero]

/-- The builder refines `follow`, one call at a time. -/
theorem LocalStep.follows (step : LocalStep c m m' f?) (rep : Represents m running)
    (marked : WellMarked c) :
    Represents m' (follow running c).1 ∧ f?.map BMDMemBank.payload = (follow running c).2 := by
  cases step with
  | ignored idle headers trailers =>
      obtain ⟨rfl, -, -⟩ := rep.idle idle
      simp only [follow, headers]
      exact ⟨rep, rfl⟩
  | opened h idle headers trailers ranged =>
      obtain ⟨rfl, empty, nothing⟩ := rep.idle idle
      have tail := append_tail_empty idle empty nothing headers marked
      rcases trailers with trailers | ⟨t, trailers, before⟩
      · simp only [follow, headers, trailers]
        exact ⟨tail, rfl⟩
      · simp only [follow, headers, trailers, Nat.not_le.mpr before, if_false]
        exact ⟨tail, rfl⟩
  | whole h t idle headers trailers after =>
      obtain ⟨rfl, empty, nothing⟩ := rep.idle idle
      have inside := marked.headers h (by simp [headers])
      have fits := marked.fits
      obtain ⟨-, bytes⟩ := append_header_empty (n := sizeSub t h + 4) idle empty nothing headers
        (by omega) (by omega)
      simp only [follow, headers, trailers, after, if_true]
      refine ⟨clear_represents _, ?_⟩
      rw [Option.map_some, bytes, sizeSub_of_le after]
  | extended h running headers trailers =>
      obtain ⟨rfl, rfl⟩ := rep.busy running
      obtain ⟨markers, bytes⟩ := append_front c.size c running
      simp only [follow, headers, trailers]
      refine ⟨⟨markers, ?_⟩, rfl⟩
      rw [BMDMemBank.extended, BMDMemBank.setHeader_payload, BMDMemBank.appendAll, bytes,
        UFEDataContainer.size, List.take_length]
  | closed h t running headers trailers =>
      obtain ⟨rfl, rfl⟩ := rep.busy running
      obtain ⟨-, bytes⟩ := append_front (t + 4) c running
      simp only [follow, headers, trailers]
      exact ⟨clear_represents _, by rw [Option.map_some, bytes]⟩
  | turned h h' t running headers trailers =>
      obtain ⟨rfl, rfl⟩ := rep.busy running
      obtain ⟨-, bytes⟩ := append_front (t + 4) c running
      simp only [follow, headers, trailers]
      exact ⟨append_tail_empty (BMDMemBank.clear_spill_headers _) (BMDMemBank.clear_size _)
        (BMDMemBank.clear_payload _) headers marked, by rw [Option.map_some, bytes]⟩

end Refinement

/-! ## Several boards -/

/-- The spills of all boards: the open ones, and the log of the completed ones. -/
structure SpillLog where
  running : Int → Option (List UInt8)
  closed : List (Int × List UInt8)

namespace SpillLog

def start : SpillLog := ⟨fun _ => none, []⟩

def step (log : SpillLog) (c : UFEDataContainer) : SpillLog :=
  { running := Function.update log.running c.boardId (follow (log.running c.boardId) c).1
    closed := log.closed ++ ((follow (log.running c.boardId) c).2.map (c.boardId, ·)).toList }

def run (cs : List UFEDataContainer) : SpillLog := cs.foldl step start

theorem run_snoc (cs : List UFEDataContainer) (c : UFEDataContainer) :
    run (cs ++ [c]) = (run cs).step c := by
  rw [run, List.foldl_append]
  rfl

/-- A completed spill as the fragment that carries it: its size header and its bytes. -/
def toFragment (spill : Int × List UInt8) : Fragment :=
  ⟨spill.1, encode 8 (8 + spill.2.length) ++ spill.2⟩

end SpillLog

theorem new_represents (id : Int) (mem : Nat → UInt8) :
    Represents (DataFragmentBuilder.new id mem).mem_bank_ none :=
  ⟨rfl, rfl, BMDMemBank.fresh_payload mem⟩

/-- The fragment builders of all boards refine the spill log. -/
theorem Bench.Accepts.spillLog {dw : MDdataWordBM} {mem : Memory} {cs : List UFEDataContainer}
    (accepted : Bench.Accepts dw mem cs) (marked : ∀ c ∈ cs, WellMarked c) :
    (∀ b, Represents (((Bench.start mem).run dw cs).builder b).mem_bank_
      ((SpillLog.run cs).running b)) ∧
      completions dw mem cs = (SpillLog.run cs).closed.map SpillLog.toFragment := by
  induction accepted with
  | nil => exact ⟨fun b => new_represents b (mem.board b), rfl⟩
  | @snoc cs c out s _ called ih =>
      obtain ⟨reps, log⟩ := ih fun c' member => marked c' (List.mem_append_left _ member)
      obtain ⟨f?, moved, -, -, stepped⟩ := Bench.step_done called
      obtain ⟨rep, bytes⟩ := moved.follows (reps c.boardId) (marked c (by simp))
      rw [completions] at log ⊢
      rw [Bench.run_snoc, SpillLog.run_snoc, stepped]
      constructor
      · intro b
        by_cases own : b = c.boardId
        · subst own
          simpa only [SpillLog.step, Function.update_self] using rep
        · simpa only [SpillLog.step, Function.update_of_ne own] using reps b
      · simp only [SpillLog.step, List.map_append, log, ← bytes]
        congr 1
        cases f? with
        | none => rfl
        | some f =>
            have sized := moved.handed_sizeRight f rfl
            simp [Bench.handedOver, SpillLog.toFragment, BMDMemBank.fragment_buf sized]

end BMDaq
