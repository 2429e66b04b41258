import Mathlib

/-! # Tokens in places

A store keeps the tokens of every place in the order of their arrival. The only step takes
the oldest token of one place to the end of another. Over a list of places that contains
both ends it neither loses nor doubles a token; along a line of places, the next stop
listed first, it does not even change the order.
-/

namespace BMDaq.Places

variable {π τ : Type}

/-- All tokens of the given places. -/
def tokens (ps : List π) (store : π → List τ) : List τ := ps.flatMap store

@[simp] theorem tokens_nil (store : π → List τ) : tokens [] store = [] := rfl

@[simp] theorem tokens_cons (p : π) (ps : List π) (store : π → List τ) :
    tokens (p :: ps) store = store p ++ tokens ps store := rfl

theorem tokens_append (ps qs : List π) (store : π → List τ) :
    tokens (ps ++ qs) store = tokens ps store ++ tokens qs store := List.flatMap_append

/-- Two places hold no more than all of them. -/
theorem length_pair_le {ps : List π} {p q : π} (nodup : ps.Nodup) (ends : p ∈ ps ∧ q ∈ ps)
    (apart : p ≠ q) (store : π → List τ) :
    (store p).length + (store q).length ≤ (tokens ps store).length := by
  have one {ps : List π} {r : π} (listed : r ∈ ps) :
      (store r).length ≤ (tokens ps store).length :=
    (List.sublist_flatten_of_mem (List.mem_map_of_mem listed)).length_le.trans_eq
      (by rw [tokens, List.flatMap_def])
  induction ps with
  | nil => cases ends.1
  | cons r ps ih =>
      obtain ⟨fresh, nodup⟩ := List.nodup_cons.mp nodup
      rw [tokens_cons, List.length_append]
      obtain ⟨first, second⟩ := ends
      cases List.mem_cons.mp first with
      | inl here =>
          subst here
          have there := (List.mem_cons.mp second).resolve_left apart.symm
          exact Nat.add_le_add_left (one there) _
      | inr there =>
          cases List.mem_cons.mp second with
          | inl here =>
              subst here
              rw [Nat.add_comm]
              exact Nat.add_le_add_left (one there) _
          | inr there' => exact (ih nodup ⟨there, there'⟩).trans (Nat.le_add_left _ _)

/-- Where there are tokens, some place has one. -/
theorem exists_token {ps : List π} {store : π → List τ} (some : tokens ps store ≠ []) :
    ∃ p ∈ ps, store p ≠ [] := by
  by_contra none
  push Not at none
  exact some (List.flatMap_eq_nil_iff.mpr none)

/-- Every token weighs what its place does. -/
def load (weight : π → Nat) (ps : List π) (store : π → List τ) : Nat :=
  (ps.map fun p => weight p * (store p).length).sum

theorem load_le {weight : π → Nat} {k : Nat} (light : ∀ p, weight p ≤ k) (ps : List π)
    (store : π → List τ) : load weight ps store ≤ k * (tokens ps store).length := by
  induction ps with
  | nil => simp [load]
  | cons p ps ih =>
      have here : weight p * (store p).length ≤ k * (store p).length :=
        Nat.mul_le_mul_right _ (light p)
      simp only [load, List.map_cons, List.sum_cons, tokens_cons, List.length_append,
        Nat.mul_add] at ih ⊢
      omega

variable [DecidableEq π]

/-- The oldest token of `p` goes to the end of `q`. -/
def move (store : π → List τ) (p q : π) : Option (π → List τ) :=
  match store p with
  | [] => none
  | x :: rest =>
      let taken := Function.update store p rest
      some (Function.update taken q (taken q ++ [x]))

variable {ps : List π} {store store' : π → List τ} {p q : π}

/-- A place that is not listed does not show. -/
theorem tokens_update (absent : p ∉ ps) (store : π → List τ) (xs : List τ) :
    tokens ps (Function.update store p xs) = tokens ps store := by
  induction ps with
  | nil => rfl
  | cons r ps ih =>
      have other : r ≠ p := fun same => absent (same ▸ List.mem_cons_self)
      simp only [tokens_cons, Function.update_of_ne other,
        ih fun member => absent (List.mem_cons_of_mem r member)]

/-- Replacing what is at one listed place, up to order. -/
theorem tokens_update_perm (nodup : ps.Nodup) (listed : p ∈ ps) (front : List τ) {xs : List τ}
    (split : (store p).Perm (front ++ xs)) :
    (tokens ps store).Perm (front ++ tokens ps (Function.update store p xs)) := by
  induction ps with
  | nil => cases listed
  | cons r ps ih =>
      obtain ⟨fresh, nodup⟩ := List.nodup_cons.mp nodup
      cases List.mem_cons.mp listed with
      | inl same =>
          subst same
          simp only [tokens_cons, Function.update_self, tokens_update fresh]
          rw [← List.append_assoc]
          exact split.append_right _
      | inr later =>
          have other : r ≠ p := fun same => fresh (same ▸ later)
          have swapped : (store r ++ (front ++ tokens ps (Function.update store p xs))).Perm
              (front ++ (store r ++ tokens ps (Function.update store p xs))) := by
            simpa only [List.append_assoc] using List.perm_append_comm.append_right _
          simp only [tokens_cons, Function.update_of_ne other]
          exact ((ih nodup later).append_left (store r)).trans swapped

/-- What a move does, place by place. -/
theorem move_eq_some : move store p q = some store' ↔
    ∃ x rest, store p = x :: rest ∧ store' = Function.update (Function.update store p rest) q
      (Function.update store p rest q ++ [x]) := by
  unfold move
  cases store p with
  | nil => simp
  | cons x rest => simp [eq_comm]

theorem move_isSome : (∃ store', move store p q = some store') ↔ store p ≠ [] := by
  simp only [move_eq_some]
  cases store p with
  | nil => simp
  | cons x rest => simp

section Move

variable (moved : move store p q = some store')
include moved

theorem move_elsewhere {r : π} (notFrom : r ≠ p) (notTo : r ≠ q) : store' r = store r := by
  obtain ⟨x, rest, -, rfl⟩ := move_eq_some.mp moved
  rw [Function.update_of_ne notTo, Function.update_of_ne notFrom]

theorem tokens_elsewhere (notFrom : p ∉ ps) (notTo : q ∉ ps) :
    tokens ps store' = tokens ps store := by
  obtain ⟨x, rest, -, rfl⟩ := move_eq_some.mp moved
  rw [tokens_update notTo, tokens_update notFrom]

/-- The token that leaves the list. -/
theorem tokens_leave (nodup : ps.Nodup) (listed : p ∈ ps) (notTo : q ∉ ps) :
    ∃ x rest, store p = x :: rest ∧ (tokens ps store).Perm (x :: tokens ps store') := by
  obtain ⟨x, rest, oldest, rfl⟩ := move_eq_some.mp moved
  refine ⟨x, rest, oldest, ?_⟩
  rw [tokens_update notTo]
  exact tokens_update_perm nodup listed [x] (by rw [oldest]; exact List.Perm.refl _)

/-- The token that enters it. -/
theorem tokens_enter (nodup : ps.Nodup) (listed : q ∈ ps) (notFrom : p ∉ ps) :
    ∃ x rest, store p = x :: rest ∧ (tokens ps store').Perm (x :: tokens ps store) := by
  obtain ⟨x, rest, oldest, rfl⟩ := move_eq_some.mp moved
  refine ⟨x, rest, oldest, ?_⟩
  rw [← tokens_update notFrom store rest]
  have split : (Function.update (Function.update store p rest) q
      (Function.update store p rest q ++ [x]) q).Perm ([x] ++ Function.update store p rest q) := by
    rw [Function.update_self]
    exact List.perm_append_comm
  have entered := tokens_update_perm nodup listed [x] split
  rwa [Function.update_idem, Function.update_eq_self] at entered

/-- A move inside the list keeps its tokens. -/
theorem tokens_perm (nodup : ps.Nodup) (ends : p ∈ ps ∧ q ∈ ps) :
    (tokens ps store').Perm (tokens ps store) := by
  obtain ⟨x, rest, oldest, rfl⟩ := move_eq_some.mp moved
  have first : (store p).Perm ([x] ++ rest) := by
    rw [oldest]
    exact List.Perm.refl _
  have left := tokens_update_perm nodup ends.1 [x] first
  have split : (Function.update (Function.update store p rest) q
      (Function.update store p rest q ++ [x]) q).Perm ([x] ++ Function.update store p rest q) := by
    rw [Function.update_self]
    exact List.perm_append_comm
  have entered := tokens_update_perm nodup ends.2 [x] split
  rw [Function.update_idem, Function.update_eq_self] at entered
  exact entered.trans left.symm

/-! ## Lines -/

/-- A move to the next stop of a line changes nothing in the order of the tokens. -/
theorem tokens_along (front back : List π) (line : ps = front ++ q :: p :: back)
    (nodup : ps.Nodup) : tokens ps store' = tokens ps store := by
  subst line
  obtain ⟨x, rest, oldest, rfl⟩ := move_eq_some.mp moved
  obtain ⟨-, tail, apart⟩ := List.nodup_append.mp nodup
  obtain ⟨freshQ, tail⟩ := List.nodup_cons.mp tail
  obtain ⟨freshP, -⟩ := List.nodup_cons.mp tail
  have other : q ≠ p := fun same => freshQ (same ▸ List.mem_cons_self)
  have frontQ : q ∉ front := fun member => apart q member q List.mem_cons_self rfl
  have frontP : p ∉ front := fun member =>
    apart p member p (List.mem_cons_of_mem q List.mem_cons_self) rfl
  have backQ : q ∉ back := fun member => freshQ (List.mem_cons_of_mem p member)
  simp only [tokens_append, tokens_cons, tokens_update frontQ, tokens_update frontP,
    tokens_update backQ, tokens_update freshP, Function.update_self,
    Function.update_of_ne other, Function.update_of_ne other.symm, oldest, List.append_assoc,
    List.cons_append, List.nil_append]

/-- A token enters a line at its last place. -/
theorem tokens_onto (front : List π) (line : ps = front ++ [q]) (nodup : ps.Nodup)
    (notFrom : p ∉ ps) : ∃ x rest, store p = x :: rest ∧ tokens ps store' = tokens ps store ++ [x] := by
  subst line
  obtain ⟨x, rest, oldest, rfl⟩ := move_eq_some.mp moved
  have absent : q ∉ front := by
    intro member
    exact (List.nodup_append.mp nodup).2.2 q member q List.mem_cons_self rfl
  have other : q ≠ p := fun same => notFrom (same ▸ List.mem_append_right front List.mem_cons_self)
  have notFront : p ∉ front := fun member => notFrom (List.mem_append_left [q] member)
  refine ⟨x, rest, oldest, ?_⟩
  simp only [tokens_append, tokens_cons, tokens_nil, tokens_update absent, tokens_update notFront,
    Function.update_self, Function.update_of_ne other, List.append_nil, List.append_assoc]

/-- The oldest token leaves a line from its first place. -/
theorem tokens_off (back : List π) (line : ps = p :: back) (nodup : ps.Nodup) (notTo : q ∉ ps) :
    ∃ x rest, store p = x :: rest ∧ tokens ps store = x :: tokens ps store' := by
  subst line
  obtain ⟨x, rest, oldest, rfl⟩ := move_eq_some.mp moved
  have fresh := (List.nodup_cons.mp nodup).1
  have other : p ≠ q := fun same => notTo (same ▸ List.mem_cons_self)
  have notBack : q ∉ back := fun member => notTo (List.mem_cons_of_mem p member)
  refine ⟨x, rest, oldest, ?_⟩
  simp only [tokens_cons, tokens_update notBack, tokens_update fresh, Function.update_of_ne other,
    Function.update_self, oldest, List.cons_append]

/-! ## Load -/

end Move

theorem load_update (weight : π → Nat) (nodup : ps.Nodup) (listed : p ∈ ps) (store : π → List τ)
    (xs : List τ) :
    load weight ps (Function.update store p xs) + weight p * (store p).length =
      load weight ps store + weight p * xs.length := by
  have absent {ps : List π} (missing : p ∉ ps) :
      load weight ps (Function.update store p xs) = load weight ps store := by
    unfold load
    congr 1
    apply List.map_congr_left
    intro r member
    have other : r ≠ p := fun same => missing (same ▸ member)
    rw [Function.update_of_ne other]
  induction ps with
  | nil => cases listed
  | cons r ps ih =>
      obtain ⟨fresh, nodup⟩ := List.nodup_cons.mp nodup
      cases List.mem_cons.mp listed with
      | inl same =>
          subst same
          have rest := absent fresh
          simp only [load, List.map_cons, List.sum_cons, Function.update_self] at rest ⊢
          omega
      | inr later =>
          have other : r ≠ p := fun same => fresh (same ▸ later)
          have rest := ih nodup later
          simp only [load, List.map_cons, List.sum_cons, Function.update_of_ne other] at rest ⊢
          omega

/-- A move changes the load by the difference of the two places. -/
theorem load_move (weight : π → Nat) (moved : move store p q = some store') (nodup : ps.Nodup)
    (ends : p ∈ ps ∧ q ∈ ps) :
    load weight ps store' + weight p = load weight ps store + weight q := by
  obtain ⟨x, rest, oldest, rfl⟩ := move_eq_some.mp moved
  have left := load_update weight nodup ends.1 store rest
  have entered := load_update weight nodup ends.2 (Function.update store p rest)
    (Function.update store p rest q ++ [x])
  simp only [oldest, List.length_append, List.length_cons, List.length_nil, Nat.mul_add,
    Nat.mul_one, Nat.zero_add] at left entered
  omega

end BMDaq.Places
