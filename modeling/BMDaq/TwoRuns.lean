import BMDaq.FragmentLog

/-! # Two runs of the event builder

Two event builders that get the same containers differ in the clock, in the event ids and
in what was written before. `Twins` relates two such states; a call keeps them related,
returns the same status and hands over the same event.
-/

namespace BMDaq

/-- The same event, up to the two stamped members of the header. -/
structure SameContents (e e' : BMDEventMemBank) : Prop where
  payload : e.payload = e'.payload
  spill_headers : e.spill_headers_ = e'.spill_headers_
  spill_trailers : e.spill_trailers_ = e'.spill_trailers_
  header : ∀ m, m ≠ .time_ → m ≠ .event_id_ → e.header_ m = e'.header_ m

/-- The same event, with an id that is ahead by `shift`. -/
structure SameEvent (shift : Nat) (e e' : BMDEventMemBank) : Prop extends SameContents e e' where
  event_id : e.header_ .event_id_ = (e'.header_ .event_id_ + shift) % 2 ^ 32

section Banks

variable {out out' : BMDEventMemBank}

theorem SameContents.size (same : SameContents out out') : out.size = out'.size := by
  rw [out.size_eq, out'.size_eq, same.payload]

theorem BMDMemBank.receive_header (out : BMDEventMemBank) (f : BMDBoardMemBank)
    {m : BMDEventHeader} (notSize : m ≠ .size_) (notCount : m ≠ .n_fragments_) :
    (out.receive f).header_ m = out.header_ m := by
  rw [receive, header_setHeader_other _ _ _ _ notCount.symm]
  exact append_header out m notSize

theorem SameContents.receive (same : SameContents out out') (f : BMDBoardMemBank) :
    SameContents (out.receive f) (out'.receive f) where
  payload := by rw [out.receive_payload, out'.receive_payload, same.payload]
  spill_headers := by
    have moved (out : BMDEventMemBank) : (out.receive f).spill_headers_ = out.spill_headers_ ++
        UFEDataContainer.rebase f.spill_headers_ (0 % 2 ^ 32) f.size out.size := rfl
    rw [moved, moved, same.spill_headers, same.size]
  spill_trailers := by
    have moved (out : BMDEventMemBank) : (out.receive f).spill_trailers_ = out.spill_trailers_ ++
        UFEDataContainer.rebase f.spill_trailers_ (0 % 2 ^ 32) f.size out.size := rfl
    rw [moved, moved, same.spill_trailers, same.size]
  header := by
    intro m notTime notId
    by_cases size : m = .size_
    · subst size
      have right : (out.receive f).SizeRight := out.receive_sizeRight f
      have right' : (out'.receive f).SizeRight := out'.receive_sizeRight f
      rw [BMDMemBank.SizeRight, out.receive_size, same.size] at right
      rw [BMDMemBank.SizeRight, out'.receive_size] at right'
      exact right.trans right'.symm
    by_cases count : m = .n_fragments_
    · subst count
      rw [out.receive_n_fragments, out'.receive_n_fragments,
        same.header .n_fragments_ (by decide) (by decide)]
    · rw [out.receive_header f size count, out'.receive_header f size count,
        same.header m notTime notId]

/-- Two banks that have just been cleared. -/
theorem SameContents.clear (out out' : BMDEventMemBank) : SameContents out.clear out'.clear := by
  obtain ⟨size, fragments, subevents, type⟩ := event_clear_header out
  obtain ⟨size', fragments', subevents', type'⟩ := event_clear_header out'
  refine ⟨?_, ?_, ?_, ?_⟩
  · rw [out.clear_payload, out'.clear_payload]
  · rw [out.clear_spill_headers, out'.clear_spill_headers]
  · rw [out.clear_spill_trailers, out'.clear_spill_trailers]
  · intro m notTime notId
    cases m with
    | time_ => exact (notTime rfl).elim
    | event_id_ => exact (notId rfl).elim
    | size_ => exact size.trans size'.symm
    | type_ => exact type.trans type'.symm
    | n_subevents_ => exact subevents.trans subevents'.symm
    | n_fragments_ => exact fragments.trans fragments'.symm

theorem SameContents.stamp (same : SameContents out out') {id id' shift : Nat}
    (ahead : id % 2 ^ 32 = (id' + shift) % 2 ^ 32) (now now' : Nat) :
    SameEvent shift (BMDEventBuilder.stamp out now id) (BMDEventBuilder.stamp out' now' id') where
  payload := by
    rw [BMDEventBuilder.stamp_payload, BMDEventBuilder.stamp_payload, same.payload]
  spill_headers := same.spill_headers
  spill_trailers := same.spill_trailers
  header := by
    intro m notTime notId
    rw [BMDEventBuilder.stamp_header _ _ _ notTime notId,
      BMDEventBuilder.stamp_header _ _ _ notTime notId, same.header m notTime notId]
  event_id := by
    rw [BMDEventBuilder.stamp_event_id, BMDEventBuilder.stamp_event_id, ahead, Nat.mod_add_mod]

end Banks

/-! ## Fragment builders -/

/-- One fragment builder over two event banks with the same contents. -/
structure SameState (s s' : FragmentState) : Prop where
  builder : s.builder = s'.builder
  event : SameContents s.out_data_ s'.out_data_

section Builders

open FragmentState Outcome

variable {dw : MDdataWordBM} {s s' : FragmentState} {c : UFEDataContainer}

theorem SameState.append (same : SameState s s') (pos n : Nat) :
    (FragmentState.append c pos n s).Related SameState (FragmentState.append c pos n s') := by
  obtain ⟨builder, event⟩ := same
  unfold FragmentState.append
  split
  · exact .done ⟨congrArg (fun b => { b with mem_bank_ := b.mem_bank_.append c pos n }) builder, event⟩
  · exact .undefined .outOfRange

theorem SameState.appendAll (same : SameState s s') (c : UFEDataContainer) :
    SameState (FragmentState.appendAll c s) (FragmentState.appendAll c s') := by
  obtain ⟨builder, event⟩ := same
  exact ⟨congrArg (fun b => { b with mem_bank_ := b.mem_bank_.extended c }) builder, event⟩

theorem SameState.move (same : SameState s s') :
    (moveToEventBank dw s).Related SameState (moveToEventBank dw s') := by
  obtain ⟨b, out⟩ := s
  obtain ⟨b', out'⟩ := s'
  obtain ⟨rfl, event⟩ := same
  simp only [moveToEventBank]
  split
  · split
    · split
      · exact .threw _ ⟨rfl, event⟩
      · exact .done ⟨rfl, event.receive b.mem_bank_⟩
    · exact .undefined _
  · exact .undefined _

/-- A call depends on the event bank in nothing but what it appends to. -/
theorem SameState.process (dw : MDdataWordBM) (same : SameState s s') (c : UFEDataContainer) :
    (DataFragmentBuilder.process dw c s).Related SameState (DataFragmentBuilder.process dw c s') := by
  have copied (pos n : Nat) := same.append (c := c) pos n
  have closed (pos n : Nat) : ((FragmentState.append c pos n s).andThen (moveToEventBank dw)).Related
      SameState ((FragmentState.append c pos n s').andThen (moveToEventBank dw)) :=
    (copied pos n).andThen fun _ _ rel => rel.move
  simp only [DataFragmentBuilder.process, same.builder]
  split
  · exact .threw _ same
  split
  · exact .threw _ same
  split
  · split
    · exact copied _ _
    · split
      · exact closed _ _
      · exact copied _ _
    · exact .done same
    · exact .threw _ same
  split
  · split
    · exact .done (same.appendAll c)
    · exact closed _ _
    · split
      · exact (closed _ _).andThen fun _ _ rel => rel.append _ _
      · exact .threw _ same
    · exact .threw _ same
  · exact .threw _ same

end Builders

/-! ## Event builders -/

/-- The same container meets recorders that fail alike; the clocks may differ. -/
structure SameCall (a a' : Arrival) : Prop where
  container : a.container = a'.container
  write : a.env.write = a'.env.write

/-- The states of two runs of the same calls. The first run has written `old` before, and
    its event ids are ahead by `shift`. -/
structure Twins (old : List BMDEventMemBank) (shift : Nat) (eb eb' : BMDEventBuilder) : Prop where
  builders : eb.board_event_builders_ = eb'.board_event_builders_
  bank : Option.Rel SameContents eb.spill_mem_bank_ eb'.spill_mem_bank_
  event_id : eb.event_id_ % 2 ^ 32 = (eb'.event_id_ + shift) % 2 ^ 32
  written : ∃ new, eb.recorder_.written = old ++ new ∧
    List.Forall₂ (SameEvent shift) new eb'.recorder_.written

/-- The replies of two calls. -/
structure TwinReplies (old : List BMDEventMemBank) (shift : Nat) (reply reply' : Reply) : Prop where
  status : reply.status = reply'.status
  output : reply.output_ = reply'.output_
  builder : Twins old shift reply.builder reply'.builder

/-- A sequence of calls, up to the first one that leaves defined behaviour. -/
structure Service where
  statuses : List proc_status_t
  fault : Option Fault
  builder : BMDEventBuilder

namespace BMDEventBuilder

def serve (dw : MDdataWordBM) (eb : BMDEventBuilder) : List Arrival → Service
  | [] => ⟨[], none, eb⟩
  | a :: rest =>
    match process dw a.env a.container eb with
    | .error f => ⟨[], some f, eb⟩
    | .ok reply =>
      let later := serve dw reply.builder rest
      { later with statuses := reply.status :: later.statuses }

end BMDEventBuilder

section EventBuilders

open BMDEventBuilder

variable {dw : MDdataWordBM} {old : List BMDEventMemBank} {shift : Nat}
  {eb eb' : BMDEventBuilder} {c : UFEDataContainer}

theorem Twins.recycle (twins : Twins old shift eb eb') (c : UFEDataContainer) :
    TwinReplies old shift (recycle c eb) (recycle c eb') := ⟨rfl, rfl, twins⟩

theorem Twins.caught (twins : Twins old shift eb eb') (c : UFEDataContainer) (e : UFEError) :
    TwinReplies old shift (caught c e eb) (caught c e eb') := by
  unfold BMDEventBuilder.caught
  cases e.severity with
  | SERIOUS => exact ⟨rfl, rfl, twins⟩
  | FATAL => exact ⟨rfl, rfl, twins⟩
  | other => exact twins.recycle c

theorem Twins.writeEvent (twins : Twins old shift eb eb') {bank bank' : BMDEventMemBank}
    (same : SameContents bank bank') {env env' : Environment} (write : env.write = env'.write)
    (c : UFEDataContainer) :
    TwinReplies old shift (writeEvent env c bank eb) (writeEvent env' c bank' eb') := by
  have event := same.stamp twins.event_id env.now env'.now
  have id : (eb.event_id_ + 1) % 2 ^ 32 % 2 ^ 32 = ((eb'.event_id_ + 1) % 2 ^ 32 + shift) % 2 ^ 32 := by
    have ahead := twins.event_id
    omega
  have written : ∃ new, eb.recorder_.written ++ [stamp bank env.now eb.event_id_] = old ++ new ∧
      List.Forall₂ (SameEvent shift) new
        (eb'.recorder_.written ++ [stamp bank' env'.now eb'.event_id_]) := by
    obtain ⟨new, split, related⟩ := twins.written
    refine ⟨new ++ [stamp bank env.now eb.event_id_], ?_, ?_⟩
    · rw [split, List.append_assoc]
    · exact List.rel_append related (.cons event .nil)
  unfold BMDEventBuilder.writeEvent
  rw [write]
  cases env'.write with
  | none =>
      apply Twins.recycle
      exact ⟨twins.builders, .some (.clear _ _), id, written⟩
  | some e =>
      apply Twins.caught
      exact ⟨twins.builders, .some event.toSameContents, id, written⟩

/-- A call keeps the two runs related. -/
theorem Twins.process (dw : MDdataWordBM) (twins : Twins old shift eb eb')
    {env env' : Environment} (write : env.write = env'.write) (c : UFEDataContainer) :
    (∃ f, process dw env c eb = .error f ∧ process dw env' c eb' = .error f) ∨
      ∃ reply reply', process dw env c eb = .ok reply ∧ process dw env' c eb' = .ok reply' ∧
        TwinReplies old shift reply reply' := by
  obtain ⟨m, bank?, id, recorder⟩ := eb
  obtain ⟨m', bank?', id', recorder'⟩ := eb'
  obtain ⟨rfl, banks, ahead, written⟩ := twins
  cases found : m.lookup c.boardId with
  | none =>
      have unknown := AList.lookup_eq_none.mp found
      exact .inl ⟨_, process_unknown dw env unknown, process_unknown dw env' unknown⟩
  | some pointer =>
  cases pointer with
  | none =>
      refine .inl ⟨.nullDereference, ?_, ?_⟩
      · simp only [BMDEventBuilder.process, BoardMap.subscript_of_lookup found]
      · simp only [BMDEventBuilder.process, BoardMap.subscript_of_lookup found]
  | some builder =>
  cases banks with
  | none =>
      refine .inl ⟨.nullDereference, ?_, ?_⟩
      · simp only [BMDEventBuilder.process, BoardMap.subscript_of_lookup found]
      · simp only [BMDEventBuilder.process, BoardMap.subscript_of_lookup found]
  | @some bank bank' same =>
  have state : SameState ⟨builder, bank⟩ ⟨builder, bank'⟩ := ⟨rfl, same⟩
  -- The states in which the two calls go on, with the builder of the board replaced.
  have next {s s' : FragmentState} (same : SameState s s') : Twins old shift
      ⟨m.insert c.boardId (some s.builder), some s.out_data_, id, recorder⟩
      ⟨m.insert c.boardId (some s'.builder), some s'.out_data_, id', recorder'⟩ :=
    ⟨by rw [same.builder], .some same.event, ahead, written⟩
  have called := state.process dw c
  rw [process_known found rfl, process_known found rfl]
  generalize DataFragmentBuilder.process dw c ⟨builder, bank⟩ = outcome at called ⊢
  generalize DataFragmentBuilder.process dw c ⟨builder, bank'⟩ = outcome' at called ⊢
  cases called with
  | undefined f => exact .inl ⟨f, rfl, rfl⟩
  | threw e after => exact .inr ⟨_, _, rfl, rfl, (next after).caught c e⟩
  | @done s s' after =>
      have count := after.event.header .n_fragments_ (by decide) (by decide)
      right
      simp only [count]
      split
      · exact ⟨_, _, rfl, rfl, (next after).writeEvent after.event write c⟩
      · exact ⟨_, _, rfl, rfl, (next after).recycle c⟩

/-- Two runs of the same calls end alike, and so does each prefix of them. -/
theorem Twins.serve (dw : MDdataWordBM) (twins : Twins old shift eb eb') {as as' : List Arrival}
    (calls : List.Forall₂ SameCall as as') :
    (serve dw eb as).statuses = (serve dw eb' as').statuses ∧
      (serve dw eb as).fault = (serve dw eb' as').fault ∧
      Twins old shift (serve dw eb as).builder (serve dw eb' as').builder := by
  induction calls generalizing eb eb' with
  | nil => exact ⟨rfl, rfl, twins⟩
  | @cons a a' rest rest' same _ ih =>
      rcases twins.process dw same.write a.container with
        ⟨f, called, called'⟩ | ⟨reply, reply', called, called', related⟩
      · rw [same.container] at called'
        simp only [BMDEventBuilder.serve, called, called', true_and]
        exact twins
      · rw [same.container] at called'
        obtain ⟨statuses, fault, later⟩ := ih related.builder
        simp only [BMDEventBuilder.serve, called, called', statuses, fault, related.status, true_and]
        exact later

/-- `init()` after `close()`, beside `init()` of a new event builder: the memory under the
    fragment banks does not matter, that under the event bank only through its header. -/
theorem init_twins {mem mem' : Memory} (same : SameContents (.fresh mem.spill) (.fresh mem'.spill))
    {id : Nat} (ahead : eb.event_id_ % 2 ^ 32 = (id + shift) % 2 ^ 32) (boards : List Int) :
    Twins eb.recorder_.written shift (eb.close.init boards mem) ((new id).init boards mem') where
  builders := by
    have fragment (b : Int) : DataFragmentBuilder.new b (mem.board b) = .new b (mem'.board b) :=
      congrArg (DataFragmentBuilder.mk b) (BMDMemBank.fresh_fragment (mem.board b) (mem'.board b))
    simp only [BMDEventBuilder.init, BMDEventBuilder.close, BMDEventBuilder.new, fragment]
  bank := .some same
  event_id := ahead
  written := ⟨[], (List.append_nil _).symm, .nil⟩

end EventBuilders

end BMDaq
