import Mathlib

/-! # Matching keys with the entries of a list

Each of several keys is to find its own entry in a list. Where an entry suits at most one
key and the keys are pairwise different, it is enough to count: as many entries as keys and
an entry for each key make a one-to-one correspondence, and there is only one. The order
of the entries plays no part in it.
-/

namespace BMDaq.Matching

variable {ε κ : Type} {M : ε → κ → Prop} {keys : List κ} {entries entries' : List ε}

/-- Each key corresponds to an entry that suits it, and each entry to a key. -/
def Corresponds (M : ε → κ → Prop) (keys : List κ) (entries : List ε)
    (σ : Fin keys.length ≃ Fin entries.length) : Prop :=
  ∀ i, M (entries.get (σ i)) (keys.get i)

/-- An entry suits at most one key. -/
def Functional (M : ε → κ → Prop) : Prop := ∀ e k k', M e k → M e k' → k = k'

theorem Corresponds.length_eq {σ : Fin keys.length ≃ Fin entries.length}
    (_ : Corresponds M keys entries σ) : keys.length = entries.length := by
  simpa using Fintype.card_congr σ

theorem Corresponds.found {σ : Fin keys.length ≃ Fin entries.length}
    (corresponds : Corresponds M keys entries σ) : ∀ k ∈ keys, ∃ e ∈ entries, M e k := by
  intro k member
  obtain ⟨i, rfl⟩ := List.get_of_mem member
  exact ⟨entries.get (σ i), List.get_mem entries (σ i), corresponds i⟩

/-- The pigeonhole step: as many entries as keys, and an entry for each key. -/
theorem exists_corresponds (functional : Functional M) (distinct : keys.Nodup)
    (same : keys.length = entries.length) (found : ∀ k ∈ keys, ∃ e ∈ entries, M e k) :
    ∃ σ, Corresponds M keys entries σ := by
  have place (i : Fin keys.length) : ∃ j, M (entries.get j) (keys.get i) := by
    obtain ⟨e, member, suits⟩ := found (keys.get i) (List.get_mem keys i)
    obtain ⟨j, rfl⟩ := List.get_of_mem member
    exact ⟨j, suits⟩
  choose f suits using place
  have injective : Function.Injective f := by
    intro i i' meet
    have equal : keys.get i = keys.get i' := by
      refine functional _ _ _ (suits i) ?_
      rw [meet]
      exact suits i'
    exact List.nodup_iff_injective_get.mp distinct equal
  have bijective : Function.Bijective f := by
    rw [Fintype.bijective_iff_injective_and_card]
    exact ⟨injective, by simpa using same⟩
  exact ⟨Equiv.ofBijective f bijective, suits⟩

theorem exists_corresponds_iff (functional : Functional M) (distinct : keys.Nodup) :
    (∃ σ, Corresponds M keys entries σ) ↔
      keys.length = entries.length ∧ ∀ k ∈ keys, ∃ e ∈ entries, M e k := by
  constructor
  · intro ⟨σ, corresponds⟩
    exact ⟨corresponds.length_eq, corresponds.found⟩
  · intro ⟨same, found⟩
    exact exists_corresponds functional distinct same found

/-- An entry that suits a key is at the place that corresponds to the key. -/
theorem Corresponds.place {σ : Fin keys.length ≃ Fin entries.length} (functional : Functional M)
    (distinct : keys.Nodup) (corresponds : Corresponds M keys entries σ) {i : Fin keys.length}
    {j : Fin entries.length} (suits : M (entries.get j) (keys.get i)) : j = σ i := by
  have back : M (entries.get j) (keys.get (σ.symm j)) := by
    have there := corresponds (σ.symm j)
    rwa [Equiv.apply_symm_apply] at there
  have equal : keys.get (σ.symm j) = keys.get i := functional _ _ _ back suits
  have key : σ.symm j = i := List.nodup_iff_injective_get.mp distinct equal
  rw [← key, Equiv.apply_symm_apply]

theorem Corresponds.eq_get {σ : Fin keys.length ≃ Fin entries.length} (functional : Functional M)
    (distinct : keys.Nodup) (corresponds : Corresponds M keys entries σ) {i : Fin keys.length}
    {e : ε} (member : e ∈ entries) (suits : M e (keys.get i)) : e = entries.get (σ i) := by
  obtain ⟨j, rfl⟩ := List.get_of_mem member
  rw [corresponds.place functional distinct suits]

theorem Corresponds.unique {σ σ' : Fin keys.length ≃ Fin entries.length}
    (functional : Functional M) (distinct : keys.Nodup) (corresponds : Corresponds M keys entries σ)
    (corresponds' : Corresponds M keys entries σ') : σ' = σ := by
  ext i
  rw [corresponds.place functional distinct (corresponds' i)]

/-- No entry corresponds to two keys, and none is left over. -/
theorem Corresponds.perm {σ : Fin keys.length ≃ Fin entries.length}
    (_ : Corresponds M keys entries σ) : (List.ofFn fun i => entries.get (σ i)).Perm entries := by
  rw [← Multiset.coe_eq_coe, ← Fin.univ_val_map]
  calc
    (Finset.univ : Finset (Fin keys.length)).val.map (fun i => entries.get (σ i))
      = ((Finset.univ : Finset (Fin keys.length)).val.map σ).map entries.get :=
        (Multiset.map_map _ _ _).symm
    _ = (Finset.univ : Finset (Fin entries.length)).val.map entries.get := by
      rw [Multiset.map_univ_val_equiv]
    _ = entries := by rw [Fin.univ_val_map, List.ofFn_get]

/-! ## Other lists of the same entries -/

section Relisted

variable {S : ε → ε → Prop}

/-- Each entry changed along `S`, and the whole list put in another order. -/
def Relisted (S : ε → ε → Prop) (entries entries' : List ε) : Prop :=
  ∃ middle, List.Forall₂ S entries middle ∧ middle.Perm entries'

theorem Relisted.length_eq (relisted : Relisted S entries entries') :
    entries.length = entries'.length := by
  obtain ⟨middle, related, reordered⟩ := relisted
  exact related.length_eq.trans reordered.length_eq

theorem exists_partner {middle : List ε} (related : List.Forall₂ S entries middle) :
    ∀ e ∈ entries, ∃ e' ∈ middle, S e e' := by
  induction related with
  | nil => nofun
  | @cons e e' rest rest' first _ ih =>
      intro x member
      rcases List.mem_cons.mp member with rfl | later
      · exact ⟨e', List.mem_cons_self, first⟩
      · obtain ⟨x', member', related⟩ := ih x later
        exact ⟨x', List.mem_cons_of_mem _ member', related⟩

theorem Relisted.partner (relisted : Relisted S entries entries') :
    ∀ e ∈ entries, ∃ e' ∈ entries', S e e' := by
  obtain ⟨middle, related, reordered⟩ := relisted
  intro e member
  obtain ⟨e', member', partner⟩ := exists_partner related e member
  exact ⟨e', reordered.mem_iff.mp member', partner⟩

theorem Relisted.partner_back (relisted : Relisted S entries entries') :
    ∀ e' ∈ entries', ∃ e ∈ entries, S e e' := by
  obtain ⟨middle, related, reordered⟩ := relisted
  intro e' member
  exact exists_partner related.flip e' (reordered.mem_iff.mpr member)

/-- Whether a key finds an entry does not depend on how the entries are listed. -/
theorem Relisted.found_iff (relisted : Relisted S entries entries')
    (keeps : ∀ e e' k, S e e' → (M e k ↔ M e' k)) (k : κ) :
    (∃ e ∈ entries, M e k) ↔ ∃ e ∈ entries', M e k := by
  constructor
  · intro ⟨e, member, suits⟩
    obtain ⟨e', member', related⟩ := relisted.partner e member
    exact ⟨e', member', (keeps e e' k related).mp suits⟩
  · intro ⟨e', member, suits⟩
    obtain ⟨e, member', related⟩ := relisted.partner_back e' member
    exact ⟨e, member', (keeps e e' k related).mpr suits⟩

/-- The entries that correspond to one key in two listings are related. -/
theorem Corresponds.related {σ : Fin keys.length ≃ Fin entries.length}
    {σ' : Fin keys.length ≃ Fin entries'.length} (functional : Functional M)
    (distinct : keys.Nodup) (relisted : Relisted S entries entries')
    (keeps : ∀ e e' k, S e e' → (M e k ↔ M e' k)) (corresponds : Corresponds M keys entries σ)
    (corresponds' : Corresponds M keys entries' σ') (i : Fin keys.length) :
    S (entries.get (σ i)) (entries'.get (σ' i)) := by
  obtain ⟨e', member, related⟩ := relisted.partner _ (List.get_mem entries (σ i))
  have suits : M e' (keys.get i) := (keeps _ e' _ related).mp (corresponds i)
  rwa [corresponds'.eq_get functional distinct member suits] at related

end Relisted

end BMDaq.Matching
