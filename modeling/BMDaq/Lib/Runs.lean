import Mathlib

/-! # Calls and runs of a stateful program

A call may return, throw and keep the state it had reached, or leave the language's
defined behaviour. `Outcome` keeps the three apart, so that "does not throw" and "does
not touch foreign memory" are different statements. A run feeds a list of inputs to a
partial step; the invariant rules below are the only inductions over runs.
-/

namespace BMDaq

/-- Behaviour the language leaves undefined. -/
inductive Fault where
  | nullDereference
  | outOfRange
  deriving Repr, DecidableEq

/-- How one call ends. An exception carries the state left behind by the call. -/
inductive Outcome (ε σ : Type) where
  | done (s : σ)
  | threw (e : ε) (s : σ)
  | undefined (f : Fault)
  deriving Repr, DecidableEq

namespace Outcome

variable {ε σ τ : Type}

/-- Sequence two calls: an exception or a fault of the first one ends the pair. -/
def andThen : Outcome ε σ → (σ → Outcome ε σ) → Outcome ε σ
  | .done s, next => next s
  | .threw e s, _ => .threw e s
  | .undefined f, _ => .undefined f

/-- The state after a call that returned normally. -/
def returned? : Outcome ε σ → Option σ
  | .done s => some s
  | _ => none

/-- The exception of a call that threw. -/
def thrown? : Outcome ε σ → Option ε
  | .threw e _ => some e
  | _ => none

@[simp] theorem done_andThen (s : σ) (next : σ → Outcome ε σ) :
    (Outcome.done s).andThen next = next s := rfl

theorem andThen_done {call : Outcome ε σ} {next : σ → Outcome ε σ} {s' : σ}
    (ends : call.andThen next = .done s') : ∃ s, call = .done s ∧ next s = .done s' := by
  cases call with
  | done s => exact ⟨s, rfl, ends⟩
  | threw e s => cases ends
  | undefined f => cases ends

theorem andThen_threw {call : Outcome ε σ} {next : σ → Outcome ε σ} {e : ε} {s' : σ}
    (ends : call.andThen next = .threw e s') :
    call = .threw e s' ∨ ∃ s, call = .done s ∧ next s = .threw e s' := by
  cases call with
  | done s => exact .inr ⟨s, rfl, ends⟩
  | threw e s => exact .inl ends
  | undefined f => cases ends

theorem andThen_undefined {call : Outcome ε σ} {next : σ → Outcome ε σ} {f : Fault}
    (ends : call.andThen next = .undefined f) :
    call = .undefined f ∨ ∃ s, call = .done s ∧ next s = .undefined f := by
  cases call with
  | done s => exact .inr ⟨s, rfl, ends⟩
  | threw e s => cases ends
  | undefined f => exact .inl ends

@[simp] theorem returned?_done (s : σ) : (Outcome.done s : Outcome ε σ).returned? = some s := rfl

theorem returned?_eq_some {call : Outcome ε σ} {s : σ} :
    call.returned? = some s ↔ call = .done s := by
  cases call <;> simp [returned?]

theorem thrown?_eq_some {call : Outcome ε σ} {e : ε} :
    call.thrown? = some e ↔ ∃ s, call = .threw e s := by
  cases call <;> simp [thrown?]

/-- Two calls that end alike, in related states. -/
inductive Related (R : σ → σ → Prop) : Outcome ε σ → Outcome ε σ → Prop where
  | done {s s' : σ} : R s s' → Related R (.done s) (.done s')
  | threw (e : ε) {s s' : σ} : R s s' → Related R (.threw e s) (.threw e s')
  | undefined (f : Fault) : Related R (.undefined f) (.undefined f)

theorem Related.andThen {R : σ → σ → Prop} {call call' : Outcome ε σ}
    {next next' : σ → Outcome ε σ} (first : call.Related R call')
    (rest : ∀ s s', R s s' → (next s).Related R (next' s')) :
    (call.andThen next).Related R (call'.andThen next') := by
  cases first with
  | done rel => exact rest _ _ rel
  | threw e rel => exact .threw e rel
  | undefined f => exact .undefined f

end Outcome

section Runs

variable {σ ι : Type} (step : σ → ι → Option σ)

/-- Feed the inputs in order; the run stops at the first step that does not return. -/
def run (s : σ) (inputs : List ι) : Option σ := inputs.foldlM step s

@[simp] theorem run_nil (s : σ) : run step s [] = some s := rfl

theorem run_cons (s : σ) (i : ι) (rest : List ι) :
    run step s (i :: rest) = (step s i).bind (fun s' => run step s' rest) := rfl

theorem run_append (s : σ) (first second : List ι) :
    run step s (first ++ second) = (run step s first).bind (fun s' => run step s' second) :=
  List.foldlM_append

theorem run_snoc (s : σ) (inputs : List ι) (i : ι) :
    run step s (inputs ++ [i]) = (run step s inputs).bind (fun s' => step s' i) := by
  rw [run_append]
  congr 1
  funext s'
  rw [run_cons]
  cases step s' i <;> rfl

variable {step}

/-- Every prefix of a run is a run. -/
theorem run_prefix {s s' : σ} {first second : List ι} (ran : run step s (first ++ second) = some s') :
    ∃ middle, run step s first = some middle ∧ run step middle second = some s' := by
  rw [run_append, Option.bind_eq_some_iff] at ran
  exact ran

/-- The induction behind every run lemma: what holds at the start and is kept by one more
    step holds at the end. The property may mention the inputs consumed so far. -/
theorem run_induction {s₀ : σ} {P : List ι → σ → Prop} (start : P [] s₀)
    (next : ∀ inputs s i s', run step s₀ inputs = some s → P inputs s → step s i = some s' →
      P (inputs ++ [i]) s')
    {inputs : List ι} {s : σ} (ran : run step s₀ inputs = some s) : P inputs s := by
  induction inputs using List.reverseRecOn generalizing s with
  | nil =>
      rw [run_nil, Option.some.injEq] at ran
      exact ran ▸ start
  | append_singleton inputs i ih =>
      rw [run_snoc, Option.bind_eq_some_iff] at ran
      obtain ⟨middle, before, last⟩ := ran
      exact next inputs middle i s before (ih before) last

/-- The plain invariant rule, restricted to inputs that satisfy a side condition. -/
theorem run_invariant {s₀ s : σ} {inputs : List ι} {Q : ι → Prop} {P : σ → Prop} (start : P s₀)
    (keep : ∀ s i s', Q i → P s → step s i = some s' → P s')
    (admissible : ∀ i ∈ inputs, Q i) (ran : run step s₀ inputs = some s) : P s := by
  have both : (∀ i ∈ inputs, Q i) → P s := by
    refine run_induction (P := fun inputs s => (∀ i ∈ inputs, Q i) → P s) (fun _ => start) ?_ ran
    intro inputs s i s' _ ih last all
    exact keep s i s' (all i (by simp))
      (ih fun j member => all j (List.mem_append_left _ member)) last
  exact both admissible

/-- Where a step from a good state is good unless it is a bad step, the states of a run are
    all good iff no step of the run is bad. -/
theorem run_good_iff {s₀ s : σ} {inputs : List ι} {Good : σ → Prop} {Bad : σ → ι → Prop}
    (start : Good s₀)
    (decides : ∀ s i s', Good s → step s i = some s' → (Good s' ↔ ¬ Bad s i))
    (ran : run step s₀ inputs = some s) :
    (∀ p s', p <+: inputs → run step s₀ p = some s' → Good s') ↔
      ∀ p i s', p ++ [i] <+: inputs → run step s₀ p = some s' → ¬ Bad s' i := by
  constructor
  · intro good p i s' inside before
    obtain ⟨rest, rfl⟩ := inside
    obtain ⟨s'', after, -⟩ := run_prefix ran
    have last := after
    rw [run_snoc, before, Option.bind_some] at last
    have early : p <+: p ++ [i] ++ rest := by simp
    exact (decides s' i s'' (good p s' early before) last).mp
      (good _ s'' (List.prefix_append _ _) after)
  · intro avoided p s' inside before
    refine run_induction (P := fun p s' => p <+: inputs → Good s') (fun _ => start) ?_ before inside
    intro p middle i s' earlier ih last inside
    have shorter : p <+: inputs := (List.prefix_append p [i]).trans inside
    exact (decides middle i s' (ih shorter) last).mpr (avoided p i middle inside earlier)

/-- The same rule for states that satisfy an invariant. -/
theorem run_good_iff_of_invariant {s₀ s : σ} {inputs : List ι} (Inv Good : σ → Prop)
    (Bad : σ → ι → Prop) (start : Inv s₀) (good : Good s₀)
    (keep : ∀ s i s', Inv s → step s i = some s' → Inv s')
    (decides : ∀ s i s', Inv s → Good s → step s i = some s' → (Good s' ↔ ¬ Bad s i))
    (ran : run step s₀ inputs = some s) :
    (∀ p s', p <+: inputs → run step s₀ p = some s' → Good s') ↔
      ∀ p i s', p ++ [i] <+: inputs → run step s₀ p = some s' → ¬ Bad s' i := by
  have kept (p : List ι) (s' : σ) (reached : run step s₀ p = some s') : Inv s' :=
    run_invariant (Q := fun _ => True) start (fun s i s' _ => keep s i s') (fun _ _ => trivial) reached
  have next (s : σ) (i : ι) (s' : σ) (both : Inv s ∧ Good s) (stepped : step s i = some s') :
      (Inv s' ∧ Good s') ↔ ¬ Bad s i := by
    rw [← decides s i s' both.1 both.2 stepped]
    exact and_iff_right (keep s i s' both.1 stepped)
  have both := run_good_iff ⟨start, good⟩ next ran
  rw [← both]
  constructor
  · exact fun all p s' inside reached => ⟨kept p s' reached, all p s' inside reached⟩
  · exact fun all p s' inside reached => (all p s' inside reached).2

/-- Forward simulation: where the steps `means i` of a second machine match each step `i`, related
    states lead to related states along a run. -/
theorem run_simulates {τ κ : Type} {step' : τ → κ → Option τ} {R : σ → τ → Prop}
    {means : ι → List κ}
    (matched : ∀ s t i s', R s t → step s i = some s' →
      ∃ t', run step' t (means i) = some t' ∧ R s' t')
    {s s' : σ} {t : τ} (start : R s t) {inputs : List ι} (ran : run step s inputs = some s') :
    ∃ t', run step' t (inputs.flatMap means) = some t' ∧ R s' t' := by
  induction inputs generalizing s t with
  | nil =>
      rw [run_nil, Option.some.injEq] at ran
      exact ⟨t, rfl, ran ▸ start⟩
  | cons i rest ih =>
      rw [run_cons, Option.bind_eq_some_iff] at ran
      obtain ⟨middle, stepped, later⟩ := ran
      obtain ⟨t', first, related⟩ := matched s t i middle start stepped
      obtain ⟨t'', second, final⟩ := ih related later
      exact ⟨t'', by rw [List.flatMap_cons, run_append, first]; exact second, final⟩

/-- Where every step makes a measure smaller, the measure bounds the length of the run. -/
theorem run_length_le {Q : ι → Prop} (Inv : σ → Prop) (μ : σ → Nat)
    (keep : ∀ s i s', Q i → Inv s → step s i = some s' → Inv s')
    (less : ∀ s i s', Q i → Inv s → step s i = some s' → μ s' < μ s)
    {s s' : σ} (start : Inv s) {inputs : List ι} (all : ∀ i ∈ inputs, Q i)
    (ran : run step s inputs = some s') : inputs.length + μ s' ≤ μ s := by
  induction inputs generalizing s with
  | nil =>
      rw [run_nil, Option.some.injEq] at ran
      simp [ran]
  | cons i rest ih =>
      rw [run_cons, Option.bind_eq_some_iff] at ran
      obtain ⟨middle, stepped, later⟩ := ran
      have here : Q i := all i List.mem_cons_self
      have shorter := less s i middle here start stepped
      have bound := ih (keep s i middle here start stepped)
        (fun j member => all j (List.mem_cons_of_mem i member)) later
      rw [List.length_cons]
      omega

/-- Where every step makes a measure smaller, some run goes on until no step is left. -/
theorem run_settles {Q : ι → Prop} {Inv : σ → Prop} (μ : σ → Nat)
    (keep : ∀ s i s', Q i → Inv s → step s i = some s' → Inv s')
    (less : ∀ s i s', Q i → Inv s → step s i = some s' → μ s' < μ s) {s : σ} (start : Inv s) :
    ∃ inputs s', (∀ i ∈ inputs, Q i) ∧ run step s inputs = some s' ∧ Inv s' ∧
      ∀ i, Q i → step s' i = none := by
  generalize bound : μ s = n
  induction n using Nat.strong_induction_on generalizing s with
  | _ n ih =>
      by_cases stuck : ∀ i, Q i → step s i = none
      · exact ⟨[], s, nofun, rfl, start, stuck⟩
      · push Not at stuck
        obtain ⟨i, here, goes⟩ := stuck
        obtain ⟨middle, stepped⟩ := Option.ne_none_iff_exists'.mp goes
        obtain ⟨rest, s', all, ran, settled⟩ := ih (μ middle)
          (bound ▸ less s i middle here start stepped) (keep s i middle here start stepped) rfl
        refine ⟨i :: rest, s', List.forall_mem_cons.mpr ⟨here, all⟩, ?_, settled⟩
        rw [run_cons, stepped]
        exact ran

/-- Where the invariant makes every step return, every run returns. -/
theorem run_total (Inv : σ → Prop) (total : ∀ s i, Inv s → ∃ s', step s i = some s' ∧ Inv s')
    {s : σ} (start : Inv s) (inputs : List ι) : ∃ s', run step s inputs = some s' := by
  induction inputs generalizing s with
  | nil => exact ⟨s, rfl⟩
  | cons i rest ih =>
      obtain ⟨middle, stepped, inv⟩ := total s i start
      rw [run_cons, stepped]
      exact ih inv

section Lawful

variable (legal : σ → ι → Prop)

/-- Every input is legal in the state it meets. -/
def Lawful (step : σ → ι → Option σ) (s : σ) : List ι → Prop
  | [] => True
  | i :: rest =>
      legal s i ∧
        match step s i with
        | some s' => Lawful step s' rest
        | none => True

instance Lawful.decidable [∀ s i, Decidable (legal s i)] (s : σ) (inputs : List ι) :
    Decidable (Lawful legal step s inputs) :=
  match inputs with
  | [] => .isTrue trivial
  | i :: rest =>
      match known : step s i with
      | some s' =>
          have : Decidable (Lawful legal step s' rest) := Lawful.decidable s' rest
          decidable_of_iff (legal s i ∧ Lawful legal step s' rest) (by simp only [Lawful, known])
      | none => decidable_of_iff (legal s i) (by simp only [Lawful, known, and_true])

variable {legal}

theorem Lawful.tail {s s' : σ} {i : ι} {rest : List ι}
    (lawful : Lawful legal step s (i :: rest)) (stepped : step s i = some s') :
    Lawful legal step s' rest := by
  have after := lawful.2
  rwa [stepped] at after

/-- Where legal inputs take good states to good states, a lawful run returns in one. -/
theorem run_lawful {Inv : σ → Prop}
    (total : ∀ s i, Inv s → legal s i → ∃ s', step s i = some s' ∧ Inv s') {s : σ} (start : Inv s)
    {inputs : List ι} (lawful : Lawful legal step s inputs) :
    ∃ s', run step s inputs = some s' ∧ Inv s' := by
  induction inputs generalizing s with
  | nil => exact ⟨s, rfl, start⟩
  | cons i rest ih =>
      obtain ⟨middle, stepped, inv⟩ := total s i start lawful.1
      obtain ⟨s', ran, good⟩ := ih inv (lawful.tail stepped)
      exact ⟨s', by rw [run_cons, stepped]; exact ran, good⟩

/-- A lawful run, followed step by step: what each step adds to a reflexive and transitive
    relation, the run adds. -/
theorem run_lawful_rel {Inv : σ → Prop} {R : σ → σ → Prop} {Q : ι → Prop}
    (rfl' : ∀ s, R s s) (trans : ∀ s s' s'', R s s' → R s' s'' → R s s'')
    (each : ∀ s i s', Inv s → legal s i → Q i → step s i = some s' → Inv s' ∧ R s s')
    {s s' : σ} (start : Inv s) {inputs : List ι} (lawful : Lawful legal step s inputs)
    (all : ∀ i ∈ inputs, Q i) (ran : run step s inputs = some s') : R s s' := by
  induction inputs generalizing s with
  | nil =>
      rw [run_nil, Option.some.injEq] at ran
      exact ran ▸ rfl' s
  | cons i rest ih =>
      rw [run_cons, Option.bind_eq_some_iff] at ran
      obtain ⟨middle, stepped, later⟩ := ran
      obtain ⟨inv, first⟩ := each s i middle start lawful.1 (all i (by simp)) stepped
      exact trans s middle s' first
        (ih inv (lawful.tail stepped) (fun j member => all j (by simp [member])) later)

end Lawful

end Runs

end BMDaq
