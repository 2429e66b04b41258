import BMDaq.FakeData

/-! # Completed fragments and written events

`Bench` runs the fragment builders of all boards with no event builder around them and
logs the local banks they complete, as they stand before they are moved anywhere. `Books`
relates an event builder to a bench: what has left the event bank with an event, followed by
what waits in it, is the log. `Ledger` is what error-free calls make of it: the log, cut into
groups of one fragment per key of the board map.
-/

namespace BMDaq

/-- A completed fragment: the bytes of the local bank of `board`, header included. -/
structure Fragment where
  board : Int
  bytes : List UInt8
  deriving Repr, DecidableEq

/-- The bytes of a list of fragments, one after the other. -/
def fragmentBytes (fragments : List Fragment) : List UInt8 := fragments.flatMap Fragment.bytes

@[simp] theorem fragmentBytes_append (xs ys : List Fragment) :
    fragmentBytes (xs ++ ys) = fragmentBytes xs ++ fragmentBytes ys := List.flatMap_append

@[simp] theorem fragmentBytes_singleton (f : Fragment) : fragmentBytes [f] = f.bytes := by
  simp only [fragmentBytes, List.flatMap_cons, List.flatMap_nil, List.append_nil]

theorem length_le_fragmentBytes {f : Fragment} {g : List Fragment} (member : f ∈ g) :
    f.bytes.length ≤ (fragmentBytes g).length :=
  (List.sublist_flatten_of_mem (List.mem_map_of_mem member)).length_le

/-- The local bank with the rest of its spill, if the container brings it. No event bank
    takes part: these are the bytes that `moveToEventBank` is to move. -/
def BMDMemBank.completedBy (m : BMDBoardMemBank) (c : UFEDataContainer) : Option BMDBoardMemBank :=
  match m.spill_headers_, c.spill_headers_, c.spill_trailers_ with
  | [], h :: _, t :: _ => if h ≤ t then some (m.append c h (sizeSub t h + 4)) else none
  | _ :: _, _, t :: _ => some (m.append c 0 (t + 4))
  | _, _, _ => none

theorem LocalStep.completedBy {c : UFEDataContainer} {m m' : BMDBoardMemBank}
    {f? : Option BMDBoardMemBank} (step : LocalStep c m m' f?) : m.completedBy c = f? := by
  cases step with
  | ignored idle headers trailers => simp only [BMDMemBank.completedBy, idle, headers]
  | opened h idle headers trailers =>
      rcases trailers with trailers | ⟨t, trailers, before⟩
      · simp only [BMDMemBank.completedBy, idle, headers, trailers]
      · simp only [BMDMemBank.completedBy, idle, headers, trailers, Nat.not_le.mpr before, if_false]
  | whole h t idle headers trailers after =>
      simp only [BMDMemBank.completedBy, idle, headers, trailers, after, if_true]
  | extended h running headers trailers =>
      simp only [BMDMemBank.completedBy, running, headers, trailers]
  | closed h t running headers trailers =>
      simp only [BMDMemBank.completedBy, running, headers, trailers]
  | turned h h' t running headers trailers =>
      simp only [BMDMemBank.completedBy, running, headers, trailers]

/-- The fragment builders on their own, and what they have completed so far. -/
structure Bench where
  builder : Int → DataFragmentBuilder
  completed : List Fragment

namespace Bench

def start (mem : Memory) : Bench := ⟨fun b => .new b (mem.board b), []⟩

/-- What a call adds to the log. -/
def handedOver (b : Int) : Option BMDBoardMemBank → List Fragment
  | none => []
  | some m => [⟨b, m.buf⟩]

/-- One container goes to the builder of its board. The event bank of the call is thrown away;
    logged is the local bank. -/
def step (dw : MDdataWordBM) (bench : Bench) (c : UFEDataContainer) : Bench :=
  match DataFragmentBuilder.process dw c ⟨bench.builder c.boardId, .fresh fun _ => 0⟩ with
  | .done s =>
    { builder := Function.update bench.builder c.boardId s.builder
      completed := bench.completed ++
        handedOver c.boardId ((bench.builder c.boardId).mem_bank_.completedBy c) }
  | _ => bench

def run (dw : MDdataWordBM) (bench : Bench) (cs : List UFEDataContainer) : Bench :=
  cs.foldl (step dw) bench

variable {dw : MDdataWordBM} {bench : Bench} {c : UFEDataContainer}

theorem run_snoc (dw : MDdataWordBM) (bench : Bench) (cs : List UFEDataContainer)
    (c : UFEDataContainer) : bench.run dw (cs ++ [c]) = (bench.run dw cs).step dw c := by
  rw [run, List.foldl_append]
  rfl

theorem handedOver_board {b : Int} {f? : Option BMDBoardMemBank} :
    ∀ f ∈ handedOver b f?, f.board = b := by
  cases f? with
  | none => exact nofun
  | some m =>
      intro f member
      rw [List.mem_singleton.mp member]

/-- The bench follows a builder that works on any other event bank. -/
theorem step_done {out : BMDEventMemBank} {s : FragmentState}
    (ends : DataFragmentBuilder.process dw c ⟨bench.builder c.boardId, out⟩ = .done s) :
    ∃ f?, LocalStep c (bench.builder c.boardId).mem_bank_ s.builder.mem_bank_ f? ∧
      (∀ f ∈ f?, Accepted dw f) ∧ s.out_data_ = out.receive? f? ∧
      bench.step dw c = ⟨Function.update bench.builder c.boardId s.builder,
        bench.completed ++ handedOver c.boardId f?⟩ := by
  obtain ⟨same, noTrailers, m', f?, moved, accepted, rfl⟩ := DataFragmentBuilder.process_done ends
  have alone := DataFragmentBuilder.process_of_localStep
    (s := ⟨bench.builder c.boardId, .fresh fun _ => 0⟩) same noTrailers moved
    accepted
  refine ⟨f?, moved, accepted, rfl, ?_⟩
  simp only [step, alone, moved.completedBy]

/-- A container only touches its own board. -/
theorem step_other (dw : MDdataWordBM) (bench : Bench) {b : Int} (other : c.boardId ≠ b) :
    (bench.step dw c).builder b = bench.builder b ∧
      (bench.step dw c).completed.filter (·.board = b) = bench.completed.filter (·.board = b) := by
  unfold step
  split
  · refine ⟨Function.update_of_ne other.symm _ _, ?_⟩
    have foreign : (handedOver c.boardId ((bench.builder c.boardId).mem_bank_.completedBy c)).filter
        (·.board = b) = [] := by
      apply List.filter_eq_nil_iff.mpr
      intro f member
      simpa only [decide_eq_true_eq, handedOver_board f member] using other
    rw [List.filter_append, foreign, List.append_nil]
  · exact ⟨rfl, rfl⟩

/-- Two benches that agree on a board still agree after a container of that board. -/
theorem step_own {bench' : Bench} (same : bench.builder c.boardId = bench'.builder c.boardId)
    (log : bench.completed.filter (·.board = c.boardId) =
      bench'.completed.filter (·.board = c.boardId)) :
    (bench.step dw c).builder c.boardId = (bench'.step dw c).builder c.boardId ∧
      (bench.step dw c).completed.filter (·.board = c.boardId) =
        (bench'.step dw c).completed.filter (·.board = c.boardId) := by
  unfold step
  rw [same]
  split
  · simp only [Function.update_self, List.filter_append, log, and_self]
  · exact ⟨same, log⟩

/-- What a board completes depends on the containers of that board alone. -/
theorem run_own (dw : MDdataWordBM) (bench : Bench) (cs : List UFEDataContainer) (b : Int) :
    (bench.run dw cs).builder b = (bench.run dw (cs.filter (·.boardId = b))).builder b ∧
      (bench.run dw cs).completed.filter (·.board = b) =
        (bench.run dw (cs.filter (·.boardId = b))).completed.filter (·.board = b) := by
  induction cs using List.reverseRecOn with
  | nil => exact ⟨rfl, rfl⟩
  | append_singleton cs c ih =>
      rw [List.filter_append]
      by_cases own : c.boardId = b
      · have kept : [c].filter (·.boardId = b) = [c] := by simp [own]
        rw [kept, run_snoc, run_snoc]
        subst own
        exact step_own ih.1 ih.2
      · have dropped : [c].filter (·.boardId = b) = [] := by simp [own]
        rw [dropped, List.append_nil, run_snoc]
        obtain ⟨builder, log⟩ := step_other dw (bench.run dw cs) own
        exact ⟨builder.trans ih.1, log.trans ih.2⟩

theorem run_start_boards (dw : MDdataWordBM) (mem : Memory) (cs : List UFEDataContainer) :
    ∀ f ∈ ((start mem).run dw cs).completed, ∃ c ∈ cs, f.board = c.boardId := by
  induction cs using List.reverseRecOn with
  | nil => exact fun f member => (List.not_mem_nil member).elim
  | append_singleton cs c ih =>
      intro f member
      rw [run_snoc] at member
      unfold step at member
      split at member
      · rcases List.mem_append.mp member with old | new
        · obtain ⟨c', inside, board⟩ := ih f old
          exact ⟨c', List.mem_append_left _ inside, board⟩
        · exact ⟨c, by simp, handedOver_board f new⟩
      · obtain ⟨c', inside, board⟩ := ih f member
        exact ⟨c', List.mem_append_left _ inside, board⟩

/-- A sequence of containers none of which makes its builder throw. -/
inductive Accepts (dw : MDdataWordBM) (mem : Memory) : List UFEDataContainer → Prop where
  | nil : Accepts dw mem []
  | snoc {cs : List UFEDataContainer} {c : UFEDataContainer} {out : BMDEventMemBank}
      {s : FragmentState} : Accepts dw mem cs →
      DataFragmentBuilder.process dw c ⟨((start mem).run dw cs).builder c.boardId, out⟩ = .done s →
      Accepts dw mem (cs ++ [c])

theorem Accepts.front {mem : Memory} {cs ds : List UFEDataContainer}
    (accepted : Accepts dw mem (cs ++ ds)) : Accepts dw mem cs := by
  induction ds using List.reverseRecOn with
  | nil => rwa [List.append_nil] at accepted
  | append_singleton ds c ih =>
      rw [← List.append_assoc] at accepted
      generalize whole : cs ++ ds ++ [c] = all at accepted
      cases accepted with
      | nil => exact (List.append_ne_nil_of_right_ne_nil _ (List.cons_ne_nil c []) whole).elim
      | snoc before called => exact ih ((List.append_inj' whole rfl).1 ▸ before)

end Bench

/-- The fragments completed by the builders of all boards, in order of completion. -/
def completions (dw : MDdataWordBM) (mem : Memory) (cs : List UFEDataContainer) : List Fragment :=
  ((Bench.start mem).run dw cs).completed

theorem completions_memory (dw : MDdataWordBM) (mem mem' : Memory) (cs : List UFEDataContainer) :
    completions dw mem cs = completions dw mem' cs := by
  have start : Bench.start mem = Bench.start mem' :=
    congrArg (Bench.mk · []) <| funext fun b =>
      congrArg (DataFragmentBuilder.mk b) (BMDMemBank.fresh_fragment (mem.board b) (mem'.board b))
  rw [completions, completions, start]

/-- The arrivals of a run as plain containers. -/
def containers (arrivals : List Arrival) : List UFEDataContainer := arrivals.map Arrival.container

theorem containers_append (arrivals more : List Arrival) :
    containers (arrivals ++ more) = containers arrivals ++ containers more := List.map_append

theorem containers_snoc (arrivals : List Arrival) (a : Arrival) :
    containers (arrivals ++ [a]) = containers arrivals ++ [a.container] := List.map_append

/-- The recorder only throws errors that `process` reports. Every error of the code itself is
    of this kind; one below `SERIOUS` would be swallowed and leave the event in the bank. -/
def WriteErrorsReported (arrivals : List Arrival) : Prop :=
  ∀ a ∈ arrivals, ∀ e ∈ a.env.write, e.severity ≠ .other

/-- The fragment counter of a new event bank. -/
def startCount (memory : Memory) : Nat :=
  (BMDMemBank.fresh memory.spill : BMDEventMemBank).header_ .n_fragments_

theorem startCount_lt (memory : Memory) : startCount memory < 2 ^ 16 := Bytes.Field.get_lt

/-- The event bank that `init` constructs starts with a zero fragment counter. -/
def StartsCleared (mem : Memory) : Prop :=
  (BMDMemBank.fresh mem.spill : BMDEventMemBank).header_ .n_fragments_ = 0

instance (arrivals : List Arrival) : Decidable (WriteErrorsReported arrivals) :=
  inferInstanceAs (Decidable (∀ a ∈ arrivals, ∀ e ∈ a.env.write, e.severity ≠ .other))

instance (mem : Memory) : Decidable (StartsCleared mem) :=
  inferInstanceAs (Decidable ((BMDMemBank.fresh mem.spill : BMDEventMemBank).header_ _ = 0))

/-! ## Books -/

/-- An event bank with the fragments `pending` in it, counted on from `start`. -/
structure BankHolds (start : Nat) (pending : List Fragment) (bank : BMDEventMemBank) : Prop where
  payload : bank.payload = fragmentBytes pending
  count : bank.header_ .n_fragments_ = (start + pending.length) % 2 ^ 16
  right : bank.SizeRight

namespace BankHolds

variable {start : Nat} {pending : List Fragment} {bank : BMDEventMemBank}

theorem fresh (mem : Memory) : BankHolds (startCount mem) [] (.fresh mem.spill) where
  payload := BMDMemBank.fresh_payload _
  count := (Nat.mod_eq_of_lt (startCount_lt mem)).symm
  right := BMDMemBank.fresh_sizeRight _

theorem clear (bank : BMDEventMemBank) : BankHolds 0 [] bank.clear where
  payload := BMDMemBank.clear_payload _
  count := (event_clear_header _).2.1
  right := BMDMemBank.clear_sizeRight _

/-- At most one more fragment comes in with a call. -/
theorem receive (holds : BankHolds start pending bank) (b : Int) (f? : Option BMDBoardMemBank) :
    BankHolds start (pending ++ Bench.handedOver b f?) (bank.receive? f?) := by
  cases f? with
  | none => simpa only [BMDMemBank.receive?, Bench.handedOver, List.append_nil] using holds
  | some m =>
      refine ⟨?_, ?_, BMDMemBank.receive_sizeRight bank m⟩
      · simp only [BMDMemBank.receive?, BMDMemBank.receive_payload, holds.payload, Bench.handedOver,
          fragmentBytes_append, fragmentBytes_singleton]
      · simp only [BMDMemBank.receive?, BMDMemBank.receive_n_fragments, holds.count,
          Bench.handedOver, List.length_append, List.length_singleton, Nat.mod_add_mod,
          Nat.add_assoc]

theorem stamp (holds : BankHolds start pending bank) (now id : Nat) :
    BankHolds start pending (BMDEventBuilder.stamp bank now id) where
  payload := (BMDEventBuilder.stamp_payload ..).trans holds.payload
  count := (BMDEventBuilder.stamp_header _ _ _ (by decide) (by decide)).trans holds.count
  right := BMDEventBuilder.stamp_sizeRight _ _ _ holds.right

end BankHolds

/-- The event builder beside a bench that is given the same containers: `groups` are the
    fragments that have left the event bank, event by event, `pending` those in it. `ready`
    is the state of the fragment builders, which the log alone does not determine. -/
structure Books (boards : List Int) (bench : Bench) (eb : BMDEventBuilder) (start : Nat)
    (groups : List (List Fragment)) (pending : List Fragment) : Prop where
  staffed : eb.board_event_builders_.Staffed boards
  ready : ∀ b ∈ boards, eb.board_event_builders_.lookup b = some (some (bench.builder b))
  inOrder : groups.flatten ++ pending = bench.completed
  bank : ∃ bank, eb.spill_mem_bank_ = some bank ∧ BankHolds start pending bank

namespace Books

variable {boards : List Int} {bench bench' : Bench} {eb : BMDEventBuilder} {start : Nat}
  {groups : List (List Fragment)} {pending : List Fragment}

theorem init (boards : List Int) (mem : Memory) (id : Nat) :
    Books boards (.start mem) ((BMDEventBuilder.new id).init boards mem) (startCount mem) [] [] where
  staffed := BMDEventBuilder.init_staffed boards mem id
  ready := fun _ member => BMDEventBuilder.init_lookup boards mem id member
  inOrder := rfl
  bank := ⟨_, rfl, .fresh mem⟩

/-- The builder behind a key of the map is the one of the bench. -/
theorem builder_of_lookup (books : Books boards bench eb start groups pending) {b : Int}
    {builder : DataFragmentBuilder}
    (found : eb.board_event_builders_.lookup b = some (some builder)) :
    b ∈ boards ∧ builder = bench.builder b := by
  have member := books.staffed.known found
  have same := found.symm.trans (books.ready b member)
  exact ⟨member, Option.some.inj (Option.some.inj same)⟩

/-- The board map after a call, whichever way the call ended. -/
theorem ready_next {m : BoardMap} {builders : Int → DataFragmentBuilder}
    (ready : ∀ b ∈ boards, m.lookup b = some (some (builders b))) (b₀ : Int)
    (builder : DataFragmentBuilder) :
    ∀ b ∈ boards, (m.insert b₀ (some builder)).lookup b =
      some (some (Function.update builders b₀ builder b)) := by
  intro b member
  by_cases own : b = b₀
  · rw [own, AList.lookup_insert, Function.update_self]
  · rw [AList.lookup_insert_ne own, Function.update_of_ne own]
    exact ready b member

/-- The bench and the event bank after a call of the fragment builder that returns: `new` is
    the fragment the call has completed, if any. -/
structure Entered (bench bench' : Bench) (start : Nat) (pending : List Fragment)
    (c : UFEDataContainer) (s : FragmentState) (new : List Fragment) : Prop where
  stepped : bench' = ⟨Function.update bench.builder c.boardId s.builder, bench.completed ++ new⟩
  holds : BankHolds start (pending ++ new) s.out_data_
  few : new.length ≤ 1

variable {dw : MDdataWordBM} {c : UFEDataContainer} {s : FragmentState} {new : List Fragment}

theorem entered (books : Books boards bench eb start groups pending) {bank : BMDEventMemBank}
    (ready : eb.spill_mem_bank_ = some bank)
    (called : DataFragmentBuilder.process dw c ⟨bench.builder c.boardId, bank⟩ = .done s) :
    ∃ new, Entered bench (bench.step dw c) start pending c s new := by
  obtain ⟨bank', atBank, holds⟩ := books.bank
  obtain rfl := Option.some.inj (ready.symm.trans atBank)
  obtain ⟨f?, -, -, moved, stepped⟩ := Bench.step_done called
  refine ⟨Bench.handedOver c.boardId f?, stepped, moved ▸ holds.receive c.boardId f?, ?_⟩
  cases f? with
  | none => exact Nat.zero_le 1
  | some f => exact le_refl 1

/-- The event bank goes on. -/
theorem Entered.keep (entered : Entered bench bench' start pending c s new)
    (books : Books boards bench eb start groups pending) (known : c.boardId ∈ boards)
    {bank : BMDEventMemBank} (holds : BankHolds start (pending ++ new) bank) (event_id_ : Nat)
    (recorder_ : UFEDataRecorder) :
    Books boards bench' ⟨eb.board_event_builders_.insert c.boardId (some s.builder), some bank,
      event_id_, recorder_⟩ start groups (pending ++ new) where
  staffed := books.staffed.insert known _
  ready := by
    rw [entered.stepped]
    exact ready_next books.ready c.boardId s.builder
  inOrder := by rw [entered.stepped, ← List.append_assoc, books.inOrder]
  bank := ⟨bank, rfl, holds⟩

/-- The event has left the event bank. -/
theorem Entered.leave (entered : Entered bench bench' start pending c s new)
    (books : Books boards bench eb start groups pending) (known : c.boardId ∈ boards)
    (event : BMDEventMemBank) (event_id_ : Nat) (recorder_ : UFEDataRecorder) :
    Books boards bench' ⟨eb.board_event_builders_.insert c.boardId (some s.builder),
      some event.clear, event_id_, recorder_⟩ 0 (groups ++ [pending ++ new]) [] where
  staffed := books.staffed.insert known _
  ready := by
    rw [entered.stepped]
    exact ready_next books.ready c.boardId s.builder
  inOrder := by
    rw [entered.stepped, List.append_nil, List.flatten_append, List.flatten_singleton,
      ← List.append_assoc, books.inOrder]
  bank := ⟨_, rfl, .clear event⟩

/-- An error-free call keeps the books. -/
theorem next {now : Nat} {eb' : BMDEventBuilder} (books : Books boards bench eb start groups pending)
    (advanced : BMDEventBuilder.Advanced dw c now eb eb') :
    (∃ out s, DataFragmentBuilder.process dw c ⟨bench.builder c.boardId, out⟩ = .done s) ∧
      ∃ start' groups' pending', Books boards (bench.step dw c) eb' start' groups' pending' := by
  cases advanced with
  | collected found ready ends incomplete after =>
      obtain ⟨known, rfl⟩ := books.builder_of_lookup found
      obtain ⟨new, entered⟩ := books.entered ready ends
      subst after
      exact ⟨⟨_, _, ends⟩, _, _, _, entered.keep books known entered.holds _ _⟩
  | wrote found ready ends complete after =>
      obtain ⟨known, rfl⟩ := books.builder_of_lookup found
      obtain ⟨new, entered⟩ := books.entered ready ends
      subst after
      exact ⟨⟨_, _, ends⟩, _, _, _, entered.leave books known _ _ _⟩

/-- A returning call, before the fragment counter is looked at. -/
structure Called (dw : MDdataWordBM) (boards : List Int) (mem : Memory) (cs : List UFEDataContainer)
    (start : Nat) (pending : List Fragment) (c : UFEDataContainer) (s : FragmentState)
    (new : List Fragment) : Prop where
  entered : Entered ((Bench.start mem).run dw cs) ((Bench.start mem).run dw (cs ++ [c])) start
    pending c s new
  accepted : Bench.Accepts dw mem (cs ++ [c])
  known : c.boardId ∈ boards
  logged : completions dw mem (cs ++ [c]) = completions dw mem cs ++ new

theorem called {mem : Memory} {cs : List UFEDataContainer}
    (books : Books boards ((Bench.start mem).run dw cs) eb start groups pending)
    (accepted : Bench.Accepts dw mem cs) {builder : DataFragmentBuilder} {bank : BMDEventMemBank}
    (found : eb.board_event_builders_.lookup c.boardId = some (some builder))
    (ready : eb.spill_mem_bank_ = some bank)
    (ends : DataFragmentBuilder.process dw c ⟨builder, bank⟩ = .done s) :
    ∃ new, Called dw boards mem cs start pending c s new := by
  obtain ⟨known, rfl⟩ := books.builder_of_lookup found
  obtain ⟨new, entered⟩ := books.entered ready ends
  rw [← Bench.run_snoc] at entered
  exact ⟨new, entered, .snoc accepted ends, known, congrArg Bench.completed entered.stepped⟩

end Books

/-- The containers of an error-free run are accepted, whatever the event bank starts with. -/
theorem run_accepts {dw : MDdataWordBM} {boards : List Int} {mem : Memory} {id : Nat}
    {arrivals : List Arrival} {eb : BMDEventBuilder} (writes : WriteErrorsReported arrivals)
    (ran : run (BMDEventBuilder.okStep dw) ((BMDEventBuilder.new id).init boards mem) arrivals =
      some eb) : Bench.Accepts dw mem (containers arrivals) := by
  have kept : WriteErrorsReported arrivals → Bench.Accepts dw mem (containers arrivals) ∧
      ∃ start groups pending, Books boards ((Bench.start mem).run dw (containers arrivals)) eb start
        groups pending := by
    refine run_induction
      (P := fun arrivals eb => WriteErrorsReported arrivals →
        Bench.Accepts dw mem (containers arrivals) ∧
          ∃ start groups pending, Books boards ((Bench.start mem).run dw (containers arrivals)) eb
            start groups pending)
      (fun _ => ⟨.nil, _, _, _, .init boards mem id⟩) ?_ ran
    intro before eb a eb' _ ih ok writes
    obtain ⟨accepted, start, groups, pending, books⟩ :=
      ih fun a' member => writes a' (List.mem_append_left _ member)
    obtain ⟨⟨out, s, ends⟩, books'⟩ :=
      books.next (BMDEventBuilder.okStep_advanced (writes a (by simp)) ok)
    rw [containers_snoc, Bench.run_snoc]
    exact ⟨.snoc accepted ends, books'⟩
  exact (kept writes).1

/-! ## Error-free calls from a cleared event bank -/

/-- The event builder, seen from its log: `groups` are the fragments of the written events. -/
structure Ledger (dw : MDdataWordBM) (boards : List Int) (mem : Memory) (id : Nat)
    (cs : List UFEDataContainer) (eb : BMDEventBuilder) (groups : List (List Fragment))
    (pending : List Fragment) : Prop
    extends Books boards ((Bench.start mem).run dw cs) eb 0 groups pending where
  accepted : Bench.Accepts dw mem cs
  configured : ∀ c ∈ cs, c.boardId ∈ boards
  written : List.Forall₂ (fun e g => BMDMemBank.payload e = fragmentBytes g)
    eb.recorder_.written groups
  full : ∀ g ∈ groups, g.length = boards.dedup.length
  counted : ∀ e ∈ eb.recorder_.written, e.header_ .n_fragments_ = boards.dedup.length ∧ e.SizeRight
  numbered : ∀ i e, eb.recorder_.written[i]? = some e → e.header_ .event_id_ = (id + i) % 2 ^ 32
  nextId : eb.event_id_ % 2 ^ 32 = (id + groups.length) % 2 ^ 32
  waiting : boards.dedup.length < 2 ^ 16 → pending.length < boards.dedup.length
  /-- A 16-bit counter never reaches more than 65535 boards. -/
  never : 2 ^ 16 ≤ boards.dedup.length → groups = []

namespace Ledger

variable {dw : MDdataWordBM} {boards : List Int} {mem : Memory} {id : Nat}
  {cs : List UFEDataContainer} {c : UFEDataContainer} {eb eb' : BMDEventBuilder}
  {groups : List (List Fragment)} {pending : List Fragment}

theorem logged (ledger : Ledger dw boards mem id cs eb groups pending) :
    groups.flatten ++ pending = completions dw mem cs := ledger.inOrder

theorem completed (ledger : Ledger dw boards mem id cs eb groups pending) {g : List Fragment}
    (group : g ∈ groups) {f : Fragment} (inside : f ∈ g) : f ∈ completions dw mem cs := by
  rw [← ledger.logged]
  exact List.mem_append_left _ (List.mem_flatten.mpr ⟨g, group, inside⟩)

theorem start (some : 1 ≤ boards.dedup.length) (cleared : StartsCleared mem) :
    Ledger dw boards mem id [] ((BMDEventBuilder.new id).init boards mem) [] [] where
  toBooks := by
    rw [← show startCount mem = 0 from cleared]
    exact .init boards mem id
  accepted := .nil
  configured := nofun
  written := .nil
  full := nofun
  counted := nofun
  numbered := nofun
  nextId := rfl
  waiting := fun _ => some
  never := fun _ => rfl

section Call

variable {s : FragmentState} {new : List Fragment}

theorem configured_next (ledger : Ledger dw boards mem id cs eb groups pending)
    (called : Books.Called dw boards mem cs 0 pending c s new) :
    ∀ c' ∈ cs ++ [c], c'.boardId ∈ boards := by
  intro c' inside
  rcases List.mem_append.mp inside with old | last
  · exact ledger.configured c' old
  · rw [List.mem_singleton.mp last]
    exact called.known

/-- The 16-bit counter of the bank is exact as long as fewer than 2^16 boards are configured. -/
theorem counter (ledger : Ledger dw boards mem id cs eb groups pending)
    (called : Books.Called dw boards mem cs 0 pending c s new) (small : boards.dedup.length < 2 ^ 16) :
    (pending ++ new).length ≤ boards.dedup.length ∧
      (s.out_data_.header_ .n_fragments_ = boards.dedup.length ↔
        (pending ++ new).length = boards.dedup.length) := by
  have before := ledger.waiting small
  have one := called.entered.few
  rw [called.entered.holds.count, Nat.zero_add, List.length_append]
  have exact : (pending.length + new.length) % 2 ^ 16 = pending.length + new.length :=
    Nat.mod_eq_of_lt (by omega)
  rw [exact]
  exact ⟨by omega, Iff.rfl⟩

/-- A call that leaves the event incomplete. -/
theorem collect (ledger : Ledger dw boards mem id cs eb groups pending)
    (called : Books.Called dw boards mem cs 0 pending c s new)
    (incomplete : s.out_data_.header_ .n_fragments_ ≠ boards.dedup.length) :
    Ledger dw boards mem id (cs ++ [c])
      ⟨eb.board_event_builders_.insert c.boardId (some s.builder), some s.out_data_,
        eb.event_id_, eb.recorder_⟩ groups (pending ++ new) where
  toBooks := called.entered.keep ledger.toBooks called.known called.entered.holds _ _
  accepted := called.accepted
  configured := ledger.configured_next called
  written := ledger.written
  full := ledger.full
  counted := ledger.counted
  numbered := ledger.numbered
  nextId := ledger.nextId
  waiting := by
    intro small
    obtain ⟨atMost, exact⟩ := ledger.counter called small
    have other := (not_congr exact).mp incomplete
    omega
  never := ledger.never

/-- The next event takes the next number. -/
private theorem numbered_next {id : Nat} {written : List BMDEventMemBank}
    {last : BMDEventMemBank}
    (numbered : ∀ i e, written[i]? = some e → e.header_ .event_id_ = (id + i) % 2 ^ 32)
    (number : last.header_ .event_id_ = (id + written.length) % 2 ^ 32) :
    ∀ i e, (written ++ [last])[i]? = some e → e.header_ .event_id_ = (id + i) % 2 ^ 32 := by
  intro i e at_i
  rcases Nat.lt_trichotomy i written.length with old | same | beyond
  · rw [List.getElem?_append_left old] at at_i
    exact numbered i e at_i
  · subst same
    rw [List.getElem?_concat_length, Option.some.injEq] at at_i
    rw [← at_i, number]
  · rw [List.getElem?_eq_none (by rw [List.length_append, List.length_singleton]; omega)] at at_i
    cases at_i

/-- A call that completes the event, which is written. -/
theorem write (now : Nat) (ledger : Ledger dw boards mem id cs eb groups pending)
    (called : Books.Called dw boards mem cs 0 pending c s new)
    (complete : s.out_data_.header_ .n_fragments_ = boards.dedup.length) :
    Ledger dw boards mem id (cs ++ [c])
      ⟨eb.board_event_builders_.insert c.boardId (some s.builder),
        some (BMDEventBuilder.stamp s.out_data_ now eb.event_id_).clear,
        (eb.event_id_ + 1) % 2 ^ 32,
        ⟨eb.recorder_.written ++ [BMDEventBuilder.stamp s.out_data_ now eb.event_id_]⟩⟩
      (groups ++ [pending ++ new]) [] := by
  have stamped := called.entered.holds.stamp now eb.event_id_
  have small : boards.dedup.length < 2 ^ 16 := by
    rw [← complete, called.entered.holds.count]
    exact Nat.mod_lt _ (by norm_num)
  have full := (ledger.counter called small).2.mp complete
  have nextId := ledger.nextId
  have lengths := ledger.written.length_eq
  exact
    { toBooks := called.entered.leave ledger.toBooks called.known _ _ _
      accepted := called.accepted
      configured := ledger.configured_next called
      written := List.rel_append ledger.written (.cons stamped.payload .nil)
      full := by
        intro g inside
        rcases List.mem_append.mp inside with old | last
        · exact ledger.full g old
        · rw [List.mem_singleton.mp last]
          exact full
      counted := by
        intro e inside
        rcases List.mem_append.mp inside with old | last
        · exact ledger.counted e old
        · rw [List.mem_singleton.mp last]
          refine ⟨?_, stamped.right⟩
          rw [BMDEventBuilder.stamp_header _ _ _ (by decide) (by decide), complete]
      numbered := numbered_next ledger.numbered
        (by rw [BMDEventBuilder.stamp_event_id, nextId, lengths])
      nextId := by
        rw [List.length_append, List.length_singleton, Nat.mod_mod]
        omega
      waiting := fun _ => by
        have before := ledger.waiting small
        rw [List.length_nil]
        omega
      never := fun huge => (Nat.not_le.mpr small huge).elim }

end Call

theorem next {now : Nat} (ledger : Ledger dw boards mem id cs eb groups pending)
    (advanced : BMDEventBuilder.Advanced dw c now eb eb') :
    ∃ groups' pending', Ledger dw boards mem id (cs ++ [c]) eb' groups' pending' := by
  have mapSize := ledger.staffed.size
  cases advanced with
  | collected found ready ends incomplete after =>
      obtain ⟨new, called⟩ := ledger.called ledger.accepted found ready ends
      rw [mapSize] at incomplete
      subst after
      exact ⟨_, _, ledger.collect called incomplete⟩
  | wrote found ready ends complete after =>
      obtain ⟨new, called⟩ := ledger.called ledger.accepted found ready ends
      rw [mapSize] at complete
      subst after
      exact ⟨_, _, ledger.write now called complete⟩

end Ledger

/-- Every error-free run keeps the ledger. -/
theorem run_ledger {dw : MDdataWordBM} {boards : List Int} {mem : Memory} {id : Nat}
    {arrivals : List Arrival} {eb : BMDEventBuilder} (some : 1 ≤ boards.dedup.length)
    (cleared : StartsCleared mem) (writes : WriteErrorsReported arrivals)
    (ran : run (BMDEventBuilder.okStep dw) ((BMDEventBuilder.new id).init boards mem) arrivals =
      .some eb) :
    ∃ groups pending, Ledger dw boards mem id (containers arrivals) eb groups pending := by
  have kept : WriteErrorsReported arrivals →
      ∃ groups pending, Ledger dw boards mem id (containers arrivals) eb groups pending := by
    refine run_induction
      (P := fun arrivals eb => WriteErrorsReported arrivals →
        ∃ groups pending, Ledger dw boards mem id (containers arrivals) eb groups pending)
      (fun _ => ⟨[], [], .start some cleared⟩) ?_ ran
    intro before eb a eb' _ ih ok writes
    obtain ⟨groups, pending, ledger⟩ :=
      ih fun a' member => writes a' (List.mem_append_left _ member)
    have advanced := BMDEventBuilder.okStep_advanced (writes a (by simp)) ok
    rw [containers_snoc]
    exact ledger.next advanced
  exact kept writes

section Conservation

variable {dw : MDdataWordBM} {boards : List Int} {mem : Memory} {id : Nat}
  {arrivals : List Arrival} {eb : BMDEventBuilder}

theorem completions_own (dw : MDdataWordBM) (mem : Memory) (cs : List UFEDataContainer) (b : Int) :
    (completions dw mem cs).filter (·.board = b) =
      completions dw mem (cs.filter (·.boardId = b)) := by
  have own : ∀ f ∈ completions dw mem (cs.filter (·.boardId = b)), f.board = b := by
    intro f member
    obtain ⟨c, inside, board⟩ := Bench.run_start_boards dw mem _ f member
    rw [board]
    simpa using (List.mem_filter.mp inside).2
  rw [completions, (Bench.run_own dw _ cs b).2]
  exact List.filter_eq_self.mpr fun f member => by simpa using own f member

/-- Nothing is lost, duplicated or reordered: the written events and the event bank hold
    the completed fragments in order of completion, `N` to an event, and each board's
    fragments are those of its own containers. -/
theorem fragments_conserved (some : 1 ≤ boards.dedup.length) (few : boards.dedup.length ≤ 65535)
    (cleared : StartsCleared mem) (writes : WriteErrorsReported arrivals)
    (ran : run (BMDEventBuilder.okStep dw) ((BMDEventBuilder.new id).init boards mem) arrivals =
      .some eb) :
    ∃ groups pending bank,
      groups.flatten ++ pending = completions dw mem (containers arrivals) ∧
      List.Forall₂ (fun e g => BMDMemBank.payload e = fragmentBytes g) eb.recorder_.written groups ∧
      (∀ g ∈ groups, g.length = boards.dedup.length) ∧
      (∀ e ∈ eb.recorder_.written, e.header_ .n_fragments_ = boards.dedup.length) ∧
      (∀ i e, eb.recorder_.written[i]? = .some e → e.header_ .event_id_ = (id + i) % 2 ^ 32) ∧
      eb.spill_mem_bank_ = .some bank ∧ bank.payload = fragmentBytes pending ∧
      bank.header_ .n_fragments_ = pending.length ∧ pending.length < boards.dedup.length ∧
      ∀ b, (completions dw mem (containers arrivals)).filter (·.board = b) =
        completions dw mem ((containers arrivals).filter (·.boardId = b)) := by
  obtain ⟨groups, pending, ledger⟩ := run_ledger some cleared writes ran
  obtain ⟨bank, atBank, bytes, count, -⟩ := ledger.bank
  have short := ledger.waiting (by omega)
  refine ⟨groups, pending, bank, ledger.logged, ledger.written, ledger.full,
    fun e member => (ledger.counted e member).1, ledger.numbered, atBank, bytes, ?_, short,
    completions_own dw mem _⟩
  rw [count, Nat.zero_add, Nat.mod_eq_of_lt (by omega)]

namespace FakeData

/-- What the board hands over for `shortSpill`. -/
def shortFragment (board tag : Nat) : Fragment :=
  ⟨board, Bytes.encode 8 24 ++ Bytes.wordBytes (shortSpill board tag)⟩

end FakeData

open FakeData in
/-- Two boards, one spill each, and one more spill of board 0 that stays in the bank. -/
theorem fragments_conserved_two_boards :
    ∃ eb e bank, run (BMDEventBuilder.okStep fakeWord) ((BMDEventBuilder.new 7).init [0, 5] zeroed)
        [arriving 0 (shortSpill 0 5), arriving 5 (shortSpill 5 5), arriving 0 (shortSpill 0 6)] =
          .some eb ∧
      eb.recorder_.written = [e] ∧
      e.payload = fragmentBytes [shortFragment 0 5, shortFragment 5 5] ∧
      eb.spill_mem_bank_ = .some bank ∧ bank.payload = fragmentBytes [shortFragment 0 6] ∧
      bank.header_ .n_fragments_ = 1 := by
  obtain ⟨eb, ran⟩ : ∃ eb, run (BMDEventBuilder.okStep fakeWord)
      ((BMDEventBuilder.new 7).init [0, 5] zeroed)
      [arriving 0 (shortSpill 0 5), arriving 5 (shortSpill 5 5), arriving 0 (shortSpill 0 6)] =
        .some eb := Option.isSome_iff_exists.mp (by decide +kernel)
  obtain ⟨groups, pending, bank, inOrder, written, full, -, -, atBank, bytes, count, short, -⟩ :=
    fragments_conserved (by decide) (by decide) (by decide +kernel) (by decide) ran
  have log : completions fakeWord zeroed (containers
      [arriving 0 (shortSpill 0 5), arriving 5 (shortSpill 5 5), arriving 0 (shortSpill 0 6)]) =
        [shortFragment 0 5, shortFragment 5 5] ++ [shortFragment 0 6] := by decide +kernel
  have two : ([0, 5] : List Int).dedup.length = 2 := by decide
  rw [two] at short
  rw [log] at inOrder
  have total : groups.length * 2 + pending.length = 3 := by
    have lengths := congrArg List.length inOrder
    rw [List.length_append, List.length_flatten,
      List.map_eq_replicate_iff.mpr fun g member => (full g member).trans two] at lengths
    simpa using lengths
  obtain ⟨g, rfl⟩ := List.length_eq_one_iff.mp (by omega : groups.length = 1)
  rw [List.flatten_singleton] at inOrder
  obtain ⟨rfl, rfl⟩ := List.append_inj inOrder ((full g (List.mem_singleton.mpr rfl)).trans two)
  generalize events : eb.recorder_.written = es at written
  cases written with
  | @cons e _ _ _ payload rest =>
      cases rest
      exact ⟨eb, e, bank, ran, events, payload, atBank, bytes, count⟩

end Conservation

end BMDaq
