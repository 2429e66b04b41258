import Mathlib

/-! # Blocks of statements with exits

A block runs on a state. Control reaches its end with a value, or leaves it early by an
exit: a `return`, an exception, undefined behaviour. Two kinds of statement about blocks
are developed: triples with one condition for the end and one for the exits, and frames,
reflexive and transitive relations along which a block moves the state however it is left.
-/

namespace BMDaq

/-- How a block ends. -/
inductive Flow (χ σ α : Type) where
  | on (a : α) (s : σ)
  | out (x : χ) (s : σ)

namespace Flow

variable {χ σ α : Type}

/-- The state in which control leaves the block, either way. -/
def state : Flow χ σ α → σ
  | on _ s => s
  | out _ s => s

@[simp] theorem state_on (a : α) (s : σ) : (Flow.on a s : Flow χ σ α).state = s := rfl

@[simp] theorem state_out (x : χ) (s : σ) : (Flow.out x s : Flow χ σ α).state = s := rfl

/-- `Q` where control reaches the end, `R` where it takes an exit. -/
def Ends (Q : α → σ → Prop) (R : χ → σ → Prop) : Flow χ σ α → Prop
  | on a s => Q a s
  | out x s => R x s

end Flow

def Block (χ σ α : Type) : Type := σ → Flow χ σ α

namespace Block

variable {χ σ α β ε : Type}

instance : Monad (Block χ σ) where
  pure a := fun s => .on a s
  bind p next := fun s =>
    match p s with
    | .on a s' => next a s'
    | .out x s' => .out x s'

def leave (x : χ) : Block χ σ α := fun s => .out x s

def read (f : σ → α) : Block χ σ α := fun s => .on (f s) s

def update (f : σ → σ) : Block χ σ Unit := fun s => .on () (f s)

def whenever (c : Prop) [Decidable c] (p : Block χ σ Unit) : Block χ σ Unit :=
  if c then p else pure ()

/-- A loop over the elements of a list; an exit of the body ends the loop. -/
def each : List β → (β → Block χ σ Unit) → Block χ σ Unit
  | [], _ => pure ()
  | x :: rest, body => do
      body x
      each rest body

/-- `try p catch`: the handler runs on the exits that `caught` selects. -/
def attempt (p : Block χ σ Unit) (caught : χ → Option ε) (handler : ε → Block χ σ Unit) :
    Block χ σ Unit := fun s =>
  match p s with
  | .on a s' => .on a s'
  | .out x s' =>
      match caught x with
      | some e => handler e s'
      | none => .out x s'

theorem bind_run (p : Block χ σ α) (next : α → Block χ σ β) (s : σ) :
    (p >>= next) s = match p s with
      | .on a s' => next a s'
      | .out x s' => .out x s' := rfl

/-! ## Triples -/

/-- From a state with `P`, the block ends with `Q` or takes an exit with `R`. -/
def Meets (P : σ → Prop) (p : Block χ σ α) (Q : α → σ → Prop) (R : χ → σ → Prop) : Prop :=
  ∀ s, P s → (p s).Ends Q R

section Meets

variable {P P' : σ → Prop} {p : Block χ σ α} {Q Q' : α → σ → Prop} {R R' : χ → σ → Prop}

theorem Meets.conseq (met : Meets P p Q R) (before : ∀ s, P' s → P s)
    (after : ∀ a s, Q a s → Q' a s) (exit : ∀ x s, R x s → R' x s) : Meets P' p Q' R' := by
  intro s holds
  have ends := met s (before s holds)
  cases run : p s with
  | on a s' =>
      rw [run] at ends
      exact after a s' ends
  | out x s' =>
      rw [run] at ends
      exact exit x s' ends

theorem Meets.pre (met : Meets P p Q R) (before : ∀ s, P' s → P s) : Meets P' p Q R :=
  met.conseq before (fun _ _ h => h) (fun _ _ h => h)

/-- A fact that does not depend on the state moves out of the precondition. -/
theorem Meets.given {c : Prop} (met : c → Meets P p Q R) : Meets (fun s => c ∧ P s) p Q R :=
  fun s holds => met holds.1 s holds.2

theorem Meets.pure {a : α} (ends : ∀ s, P s → Q a s) : Meets P (Pure.pure a) Q R := ends

theorem Meets.leave {x : χ} (exits : ∀ s, P s → R x s) : Meets P (Block.leave x) Q R := exits

theorem Meets.read {f : σ → α} (ends : ∀ s, P s → Q (f s) s) : Meets P (Block.read f) Q R := ends

theorem Meets.update {f : σ → σ} {Q : Unit → σ → Prop} (ends : ∀ s, P s → Q () (f s)) :
    Meets P (Block.update f) Q R := ends

theorem Meets.bind {next : α → Block χ σ β} {Q' : β → σ → Prop} (first : Meets P p Q R)
    (rest : ∀ a, Meets (Q a) (next a) Q' R) : Meets P (p >>= next) Q' R := by
  intro s holds
  have ends := first s holds
  rw [bind_run]
  cases run : p s with
  | on a s' =>
      rw [run] at ends
      exact rest a s' ends
  | out x s' =>
      rw [run] at ends
      exact ends

theorem Meets.ite {c : Prop} [Decidable c] {p q : Block χ σ α} (yes : c → Meets P p Q R)
    (no : ¬c → Meets P q Q R) : Meets P (if c then p else q) Q R := by
  split
  · exact yes ‹_›
  · exact no ‹_›

theorem Meets.whenever {c : Prop} [Decidable c] {p : Block χ σ Unit} {Q : Unit → σ → Prop}
    (yes : c → Meets P p Q R) (no : ¬c → ∀ s, P s → Q () s) :
    Meets P (Block.whenever c p) Q R :=
  Meets.ite yes fun fails => Meets.pure (no fails)

/-- The loop rule. The invariant may mention the elements still to come. -/
theorem Meets.each {body : β → Block χ σ Unit} {I : List β → σ → Prop} {xs : List β}
    (keep : ∀ x rest, x :: rest <:+ xs → Meets (I (x :: rest)) (body x) (fun _ => I rest) R) :
    Meets (I xs) (Block.each xs body) (fun _ => I []) R := by
  induction xs with
  | nil => exact Meets.pure fun _ holds => holds
  | cons x rest ih =>
      refine Meets.bind (keep x rest List.suffix_rfl) fun _ => ih ?_
      intro y later inside
      exact keep y later (inside.trans (List.suffix_cons x rest))

theorem Meets.attempt {p : Block χ σ Unit} {caught : χ → Option ε}
    {handler : ε → Block χ σ Unit} {Q : Unit → σ → Prop} (tried : Meets P p Q R)
    (handled : ∀ x e, caught x = some e → Meets (R x) (handler e) Q R')
    (passed : ∀ x, caught x = none → ∀ s, R x s → R' x s) :
    Meets P (Block.attempt p caught handler) Q R' := by
  intro s holds
  have ends := tried s holds
  unfold Block.attempt
  cases run : p s with
  | on a s' =>
      rw [run] at ends
      exact ends
  | out x s' =>
      rw [run] at ends
      cases selected : caught x with
      | none =>
          simp only [selected]
          exact passed x selected s' ends
      | some e =>
          simp only [selected]
          exact handled x e selected s' ends

theorem Meets.and {P' : σ → Prop} {Q' : α → σ → Prop} {R' : χ → σ → Prop} (first : Meets P p Q R)
    (second : Meets P' p Q' R') :
    Meets (fun s => P s ∧ P' s) p (fun a s => Q a s ∧ Q' a s) (fun x s => R x s ∧ R' x s) := by
  intro s holds
  have ends := first s holds.1
  have ends' := second s holds.2
  cases run : p s with
  | on a s' =>
      rw [run] at ends ends'
      exact ⟨ends, ends'⟩
  | out x s' =>
      rw [run] at ends ends'
      exact ⟨ends, ends'⟩

end Meets

end Block

/-! ## Frames -/

/-- A relation that composes, so that a block respects it if its statements do, together with
    the exits the block may take. -/
structure Frame (χ σ : Type) where
  Rel : σ → σ → Prop
  refl : ∀ s, Rel s s
  trans : ∀ {s s' s''}, Rel s s' → Rel s' s'' → Rel s s''
  Exits : χ → Prop

namespace Block

variable {χ σ α β ε : Type}

/-- However control leaves the block, it has moved the state along the frame. -/
def Within (F : Frame χ σ) (p : Block χ σ α) : Prop :=
  ∀ s, (p s).Ends (fun _ s' => F.Rel s s') (fun x s' => F.Rel s s' ∧ F.Exits x)

section Within

variable {F : Frame χ σ} {p : Block χ σ α}

theorem Within.rel (within : Within F p) (s : σ) : F.Rel s (p s).state := by
  have ends := within s
  cases run : p s with
  | on a s' =>
      rw [run] at ends
      exact ends
  | out x s' =>
      rw [run] at ends
      exact ends.1

theorem Within.pure (a : α) : Within F (Pure.pure a : Block χ σ α) := F.refl

theorem Within.leave {x : χ} (allowed : F.Exits x) : Within F (Block.leave x : Block χ σ α) :=
  fun s => ⟨F.refl s, allowed⟩

theorem Within.read (f : σ → α) : Within F (Block.read f : Block χ σ α) := F.refl

theorem Within.update {f : σ → σ} (moves : ∀ s, F.Rel s (f s)) :
    Within F (Block.update f : Block χ σ Unit) := moves

theorem Within.bind {next : α → Block χ σ β} (first : Within F p)
    (rest : ∀ a, Within F (next a)) : Within F (p >>= next) := by
  intro s
  have moved := first s
  rw [bind_run]
  cases run : p s with
  | out x s' =>
      rw [run] at moved
      exact moved
  | on a s' =>
      rw [run] at moved
      have later := rest a s'
      show Flow.Ends _ _ (next a s')
      cases run' : next a s' with
      | on b s'' =>
          rw [run'] at later
          exact F.trans moved later
      | out x s'' =>
          rw [run'] at later
          exact ⟨F.trans moved later.1, later.2⟩

theorem Within.ite {c : Prop} [Decidable c] {p q : Block χ σ α} (yes : c → Within F p)
    (no : ¬c → Within F q) : Within F (if c then p else q) := by
  split
  · exact yes ‹_›
  · exact no ‹_›

theorem Within.whenever {c : Prop} [Decidable c] {p : Block χ σ Unit} (yes : c → Within F p) :
    Within F (Block.whenever c p) :=
  Within.ite yes fun _ => Within.pure ()

theorem Within.each {body : β → Block χ σ Unit} {xs : List β}
    (every : ∀ x ∈ xs, Within F (body x)) : Within F (Block.each xs body) := by
  induction xs with
  | nil => exact Within.pure ()
  | cons x rest ih =>
      refine Within.bind (every x List.mem_cons_self) fun _ => ih ?_
      exact fun y later => every y (List.mem_cons_of_mem x later)

theorem Within.attempt {p : Block χ σ Unit} {caught : χ → Option ε}
    {handler : ε → Block χ σ Unit} (tried : Within F p) (handled : ∀ e, Within F (handler e)) :
    Within F (Block.attempt p caught handler) := by
  intro s
  have moved := tried s
  unfold Block.attempt
  cases run : p s with
  | on a s' =>
      rw [run] at moved
      exact moved
  | out x s' =>
      rw [run] at moved
      cases selected : caught x with
      | none =>
          simp only [selected]
          exact moved
      | some e =>
          simp only [selected]
          have later := handled e s'
          cases run' : handler e s' with
          | on _ s'' =>
              rw [run'] at later
              exact F.trans moved.1 later
          | out x' s'' =>
              rw [run'] at later
              exact ⟨F.trans moved.1 later.1, later.2⟩

/-- What is stable along the frame survives the block. -/
theorem Within.keeps {P : σ → Prop} (within : Within F p)
    (stable : ∀ s s', F.Rel s s' → P s → P s') :
    Meets P p (fun _ => P) (fun x s => P s ∧ F.Exits x) := by
  intro s holds
  have moved := within s
  cases run : p s with
  | on a s' =>
      rw [run] at moved
      exact stable s s' moved holds
  | out x s' =>
      rw [run] at moved
      exact ⟨stable s s' moved.1 holds, moved.2⟩

theorem Within.stays {P : σ → Prop} (within : Within F p)
    (stable : ∀ s s', F.Rel s s' → P s → P s') : Meets P p (fun _ => P) (fun _ => P) :=
  (within.keeps stable).conseq (fun _ h => h) (fun _ _ h => h) fun _ _ h => h.1

end Within

end Block

end BMDaq
