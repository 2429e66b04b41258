import Mathlib

/-! # Heaps whose blocks have one owner each

A heap maps addresses to blocks; an owner is a name that may hold one address. `Owned`
says that no owner dangles and that no address has two owners. Releasing a block, giving
an owner a fresh one, overwriting an owned block and handing a block over are the heap
operations of value types with a buffer. Each keeps `Owned`, and none is seen through the
address of another owner.
-/

namespace BMDaq.Ownership

variable {α β ι : Type}

structure Owned (heap : α → Option β) (owner : ι → Option α) : Prop where
  /-- An owned address has a block. -/
  live : ∀ i a, owner i = some a → ∃ block, heap a = some block
  /-- No two owners share an address. -/
  apart : ∀ i j a, owner i = some a → owner j = some a → i = j

theorem owned_empty (heap : α → Option β) : Owned heap (fun _ : ι => none) where
  live := by intro i a holds; cases holds
  apart := by intro i j a holds; cases holds

section Heap

variable [DecidableEq α]

/-- Free the block an owner holds, if it holds one. -/
def release (heap : α → Option β) : Option α → α → Option β
  | none => heap
  | some a => Function.update heap a none

/-- Write a block, new or old, at an address. -/
def store (heap : α → Option β) (a : α) (block : β) : α → Option β :=
  Function.update heap a (some block)

@[simp] theorem store_here (heap : α → Option β) (a : α) (block : β) :
    store heap a block a = some block := Function.update_self a _ heap

theorem store_there {heap : α → Option β} {a a' : α} (ne : a' ≠ a) (block : β) :
    store heap a block a' = heap a' := Function.update_of_ne ne _ heap

theorem release_there {heap : α → Option β} {held : Option α} {a : α} (ne : held ≠ some a) :
    release heap held a = heap a := by
  cases held with
  | none => rfl
  | some a' =>
      have other : a ≠ a' := fun same => ne (congrArg some same.symm)
      exact Function.update_of_ne other _ heap

theorem release_free {heap : α → Option β} {a : α} (held : Option α) (free : heap a = none) :
    release heap held a = none := by
  rcases eq_or_ne held (some a) with rfl | ne
  · exact Function.update_self a _ heap
  · rw [release_there ne, free]

theorem release_held (heap : α → Option β) (a : α) : release heap (some a) a = none :=
  Function.update_self a _ heap

end Heap

namespace Owned

variable {heap : α → Option β} {owner : ι → Option α} {i j k : ι} {a q : α} {block : β}

theorem elsewhere (owned : Owned heap owner) (holds : owner k = some a) (ne : k ≠ i) :
    owner i ≠ some a := fun same => ne (owned.apart k i a holds same)

section Heap

variable [DecidableEq α]

/-- A release is not seen through another owner's address. -/
theorem release_other (owned : Owned heap owner) (holds : owner k = some a) (ne : k ≠ i) :
    release heap (owner i) a = heap a := release_there (owned.elsewhere holds ne)

/-- Nor is a write to an address that is free or already the writer's own. -/
theorem store_other (owned : Owned heap owner) (place : heap q = none ∨ owner i = some q)
    (holds : owner k = some a) (ne : k ≠ i) : store heap q block a = heap a := by
  refine store_there ?_ block
  rintro rfl
  cases place with
  | inl free =>
      obtain ⟨block', there⟩ := owned.live k a holds
      rw [free] at there
      cases there
  | inr own => exact owned.elsewhere holds ne own

theorem write (owned : Owned heap owner) (holds : owner i = some a) :
    Owned (store heap a block) owner where
  live := by
    intro k a' holds'
    rcases eq_or_ne a' a with rfl | ne
    · exact ⟨block, store_here heap a' block⟩
    · rw [store_there ne]
      exact owned.live k a' holds'
  apart := owned.apart

variable [DecidableEq ι]

/-- The owner drops what it holds; what it held is freed. -/
theorem drop (owned : Owned heap owner) (i : ι) :
    Owned (release heap (owner i)) (Function.update owner i none) where
  live := by
    intro k a holds
    rcases eq_or_ne k i with rfl | ne
    · rw [Function.update_self] at holds
      cases holds
    · rw [Function.update_of_ne ne] at holds
      rw [owned.release_other holds ne]
      exact owned.live k a holds
  apart := by
    intro k k' a holds holds'
    rcases eq_or_ne k i with rfl | ne
    · rw [Function.update_self] at holds
      cases holds
    rcases eq_or_ne k' i with rfl | ne'
    · rw [Function.update_self] at holds'
      cases holds'
    rw [Function.update_of_ne ne] at holds
    rw [Function.update_of_ne ne'] at holds'
    exact owned.apart k k' a holds holds'

/-- An owner without a block takes one at a free address. -/
theorem take (owned : Owned heap owner) (idle : owner i = none) (free : heap q = none) :
    Owned (store heap q block) (Function.update owner i (some q)) := by
  have fresh (k : ι) (ne : k ≠ i) : Function.update owner i (some q) k ≠ some q := by
    rw [Function.update_of_ne ne]
    intro holds
    obtain ⟨block', there⟩ := owned.live k q holds
    rw [free] at there
    cases there
  constructor
  · intro k a holds
    rcases eq_or_ne a q with rfl | other
    · exact ⟨block, store_here heap a block⟩
    · rw [store_there other]
      rcases eq_or_ne k i with rfl | ne
      · rw [Function.update_self, Option.some.injEq] at holds
        exact (other holds.symm).elim
      · rw [Function.update_of_ne ne] at holds
        exact owned.live k a holds
  · intro k k' a holds holds'
    rcases eq_or_ne k i with same | ne <;> rcases eq_or_ne k' i with same' | ne'
    · rw [same, same']
    · rw [same, Function.update_self, Option.some.injEq] at holds
      exact (fresh k' ne' (holds ▸ holds')).elim
    · rw [same', Function.update_self, Option.some.injEq] at holds'
      exact (fresh k ne (holds' ▸ holds)).elim
    · rw [Function.update_of_ne ne] at holds
      rw [Function.update_of_ne ne'] at holds'
      exact owned.apart k k' a holds holds'

end Heap

/-- One owner takes over what another one holds. -/
theorem handOver [DecidableEq ι] (owned : Owned heap owner) (i j : ι) :
    Owned heap (Function.update (Function.update owner i (owner j)) j none) := by
  -- whoever holds an address afterwards is matched with the one that held it before
  have before {k : ι} {a : α}
      (holds : Function.update (Function.update owner i (owner j)) j none k = some a) :
      k ≠ j ∧ (k = i ∧ owner j = some a ∨ k ≠ i ∧ owner k = some a) := by
    rcases eq_or_ne k j with rfl | ne
    · rw [Function.update_self] at holds
      cases holds
    · rw [Function.update_of_ne ne] at holds
      rcases eq_or_ne k i with rfl | other
      · rw [Function.update_self] at holds
        exact ⟨ne, .inl ⟨rfl, holds⟩⟩
      · rw [Function.update_of_ne other] at holds
        exact ⟨ne, .inr ⟨other, holds⟩⟩
  constructor
  · intro k a holds
    obtain ⟨-, ⟨-, held⟩ | ⟨-, held⟩⟩ := before holds
    · exact owned.live j a held
    · exact owned.live k a held
  · intro k k' a holds holds'
    obtain ⟨ne, ⟨same, held⟩ | ⟨other, held⟩⟩ := before holds <;>
      obtain ⟨ne', ⟨same', held'⟩ | ⟨other', held'⟩⟩ := before holds'
    · rw [same, same']
    · exact (ne' (owned.apart k' j a held' held)).elim
    · exact (ne (owned.apart k j a held held')).elim
    · exact owned.apart k k' a held held'

end Owned

end BMDaq.Ownership
