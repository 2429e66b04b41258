import BMDaq.Lib.Flow

/-! # Blocks that write

A block may add to an output that is read off the state. `Writes` says what it has added
when control reaches its end, with a condition on the rest of the state kept. Where the
output is `none` there is nothing that could be written, and control does not get there.
-/

namespace BMDaq

namespace Block

variable {χ σ α β γ : Type}

/-- One output behind the other. -/
def joined (v w : Option (List γ)) : Option (List γ) := do return (← v) ++ (← w)

/-- The outputs of the elements of a list, one behind the other. -/
def collect (f : β → Option (List γ)) : List β → Option (List γ)
  | [] => some []
  | x :: rest => joined (f x) (collect f rest)

theorem joined_eq_some {v w : Option (List γ)} {out : List γ} :
    joined v w = some out ↔ ∃ a b, v = some a ∧ w = some b ∧ a ++ b = out := by
  cases v <;> cases w <;> simp [joined]

theorem joined_ne_none {v w : Option (List γ)} : joined v w ≠ none ↔ v ≠ none ∧ w ≠ none := by
  cases v <;> cases w <;> simp [joined]

/-- From a state with `P`, the block adds `v` to the output and keeps `P`, or takes an exit
    with `R`. -/
def Writes (out : σ → List γ) (P : σ → Prop) (p : Block χ σ α) (v : Option (List γ))
    (R : χ → σ → Prop) : Prop :=
  ∀ before, Meets (fun s => out s = before ∧ P s) p
    (fun _ s => ∃ new, v = some new ∧ out s = before ++ new ∧ P s) R

section Writes

variable {out : σ → List γ} {P : σ → Prop} {p : Block χ σ α} {v w : Option (List γ)}
  {R : χ → σ → Prop}

theorem Writes.bind {next : α → Block χ σ β} (first : Writes out P p v R)
    (rest : ∀ a, Writes out P (next a) w R) : Writes out P (p >>= next) (joined v w) R := by
  intro before
  apply Meets.bind (first before)
  rintro a s ⟨new, rfl, added, holds⟩
  apply (rest a (before ++ new)).conseq (fun _ h => h) _ (fun _ _ h => h) s ⟨added, holds⟩
  rintro _ s' ⟨later, rfl, added, holds⟩
  exact ⟨new ++ later, rfl, by rw [added, List.append_assoc], holds⟩

/-- A statement that writes nothing, in front of others. -/
theorem Writes.after {next : α → Block χ σ β} (silent : Writes out P p (some []) R)
    (rest : ∀ a, Writes out P (next a) w R) : Writes out P (p >>= next) w R := by
  have both := Writes.bind silent rest
  cases w with
  | none => exact both
  | some new => exact both

/-- A value read from the state, of which `P` says something. -/
theorem Writes.read {f : σ → α} {next : α → Block χ σ β} {c : α → Prop} (known : ∀ s, P s → c (f s))
    (rest : ∀ a, c a → Writes out P (next a) w R) : Writes out P (Block.read f >>= next) w R := by
  intro before
  apply Meets.bind (Q := fun a s => c a ∧ out s = before ∧ P s)
  · exact Meets.read fun s holds => ⟨known s holds.2, holds⟩
  intro a
  exact Meets.given fun fact => rest a fact before

theorem Writes.pure {a : α} : Writes out P (Pure.pure a) (some []) R :=
  fun _ => Meets.pure fun _ holds => ⟨[], rfl, by rw [holds.1, List.append_nil], holds.2⟩

/-- An exit writes nothing, whatever was to be written. -/
theorem Writes.leave {x : χ} (exits : ∀ s, P s → R x s) :
    Writes out P (Block.leave x : Block χ σ α) v R := fun _ => Meets.leave fun s holds => exits s holds.2

/-- A block that keeps to a frame along which neither the output nor `P` changes. -/
theorem Writes.within {F : Frame χ σ} (inside : Within F p)
    (stable : ∀ s s', F.Rel s s' → out s' = out s ∧ (P s → P s')) (exits : ∀ x s, P s → R x s) :
    Writes out P p (some []) R := by
  intro before
  have kept := inside.stays (P := fun s => out s = before ∧ P s) fun s s' moved holds =>
    ⟨(stable s s' moved).1.trans holds.1, (stable s s' moved).2 holds.2⟩
  apply kept.conseq (fun _ h => h) _ (fun x s holds => exits x s holds.2)
  exact fun _ s holds => ⟨[], rfl, by rw [holds.1, List.append_nil], holds.2⟩

theorem Writes.whenever {c : Prop} [Decidable c] {p : Block χ σ Unit}
    (yes : c → Writes out P p (some []) R) : Writes out P (Block.whenever c p) (some []) R := by
  unfold Block.whenever
  split
  · exact yes ‹_›
  · exact Writes.pure

/-- The loop rule: the outputs of the body are collected. -/
theorem Writes.each {body : β → Block χ σ Unit} {f : β → Option (List γ)} {xs : List β}
    (every : ∀ x ∈ xs, Writes out P (body x) (f x) R) :
    Writes out P (Block.each xs body) (collect f xs) R := by
  induction xs with
  | nil => exact Writes.pure
  | cons x rest ih =>
      apply Writes.bind (every x List.mem_cons_self)
      intro _
      exact ih fun y later => every y (List.mem_cons_of_mem x later)

end Writes

end Block

end BMDaq
