import Mathlib

/-! # Rounds of a log

Several parties write entries into one log, which is cut into groups of as many entries
as there are parties. The groups are rounds, with one entry of every party each, exactly
when the log runs in lock step: nobody writes entry `k + 1` before everybody has written
entry `k`. In that case round `k` holds the `k`-th entry of every party, so two logs with
the same entries per party have the same rounds up to order.
-/

namespace BMDaq.Rounds

variable {α β : Type} [DecidableEq α]

/-- At every point of the log, whoever has made entry `k + 1` has seen everybody make
    entry `k`. -/
def LockStep (parties log : List α) : Prop :=
  ∀ p, p <+: log → ∀ a ∈ parties, ∀ b ∈ parties, ∀ k, k + 1 ≤ p.count a → k ≤ p.count b

/-- Every party occurs exactly once. -/
def OneEach (parties group : List α) : Prop := ∀ a ∈ parties, group.count a = 1

instance (parties group : List α) : Decidable (OneEach parties group) :=
  inferInstanceAs (Decidable (∀ a ∈ parties, group.count a = 1))

theorem lockStep_dedup {parties log : List α} :
    LockStep parties.dedup log ↔ LockStep parties log := by
  simp only [LockStep, List.mem_dedup]

theorem oneEach_dedup {parties group : List α} :
    OneEach parties.dedup group ↔ OneEach parties group := by
  simp only [OneEach, List.mem_dedup]

variable {parties group : List α} {groups : List (List α)}

theorem LockStep.prefix {first second : List α} (lock : LockStep parties (first ++ second)) :
    LockStep parties first :=
  fun p inside => lock p (inside.trans (List.prefix_append first second))

/-- The pigeonhole step: with as many entries as parties, two entries of one party leave
    no room for an entry of every party. -/
theorem LockStep.oneEach (nodup : parties.Nodup) (full : group.length = parties.length)
    (only : ∀ x ∈ group, x ∈ parties) (lock : LockStep parties group) : OneEach parties group := by
  have total : ∑ a ∈ parties.toFinset, group.count a = parties.toFinset.card := by
    rw [List.toFinset_card_of_nodup nodup, ← full]
    have inside : ∀ a ∈ (group : Multiset α), a ∈ parties.toFinset := fun a member =>
      List.mem_toFinset.mpr (only a (Multiset.mem_coe.mp member))
    simpa only [Multiset.coe_count, Multiset.coe_card] using Multiset.sum_count_eq_card inside
  have atMost : ∀ a ∈ parties, group.count a ≤ 1 := by
    intro a member
    by_contra twice
    have everybody : ∀ b ∈ parties.toFinset, 1 ≤ group.count b := fun b inside =>
      lock group (List.prefix_refl group) a member b (List.mem_toFinset.mp inside) 1 (by omega)
    have more : ∑ _b ∈ parties.toFinset, 1 < ∑ b ∈ parties.toFinset, group.count b :=
      Finset.sum_lt_sum everybody ⟨a, List.mem_toFinset.mpr member, by omega⟩
    rw [total, Finset.sum_const, smul_eq_mul, mul_one] at more
    exact lt_irrefl _ more
  intro a member
  by_contra other
  have missing : group.count a < 1 := by
    have le := atMost a member
    omega
  have less : ∑ b ∈ parties.toFinset, group.count b < ∑ _b ∈ parties.toFinset, 1 :=
    Finset.sum_lt_sum (fun b inside => atMost b (List.mem_toFinset.mp inside))
      ⟨a, List.mem_toFinset.mpr member, missing⟩
  rw [total, Finset.sum_const, smul_eq_mul, mul_one] at less
  exact lt_irrefl _ less

/-- Behind a complete round the log is in lock step exactly when it was as a whole. -/
theorem lockStep_append {rest : List α} (round : OneEach parties group) :
    LockStep parties (group ++ rest) ↔ LockStep parties rest := by
  constructor
  · intro lock p inside a ma b mb k reached
    have whole : group ++ p <+: group ++ rest := (List.prefix_append_right_inj group).mpr inside
    have shifted := lock (group ++ p) whole a ma b mb (k + 1)
      (by rw [List.count_append, round a ma]; omega)
    rw [List.count_append, round b mb] at shifted
    omega
  · intro lock p inside a ma b mb k reached
    rcases List.prefix_or_prefix_of_prefix inside (List.prefix_append group rest) with early | late
    · have once := early.sublist.count_le a
      rw [round a ma] at once
      omega
    · obtain ⟨q, rfl⟩ := late
      rw [List.prefix_append_right_inj] at inside
      rw [List.count_append, round a ma] at reached
      rw [List.count_append, round b mb]
      rcases k with _ | k
      · omega
      · have earlier := lock q inside a ma b mb k (by omega)
        omega

/-- Groups of the size of the party are rounds iff the log is in lock step. -/
theorem oneEach_iff_lockStep (nodup : parties.Nodup)
    (full : ∀ g ∈ groups, g.length = parties.length) (only : ∀ g ∈ groups, ∀ x ∈ g, x ∈ parties) :
    (∀ g ∈ groups, OneEach parties g) ↔ LockStep parties groups.flatten := by
  induction groups with
  | nil =>
      refine ⟨fun _ p inside a _ b _ k reached => ?_, fun _ => nofun⟩
      rw [List.flatten_nil, List.prefix_nil] at inside
      rw [inside, List.count_nil] at reached
      omega
  | cons g rest ih =>
      have ih := ih (fun g' member => full g' (List.mem_cons_of_mem g member))
        (fun g' member => only g' (List.mem_cons_of_mem g member))
      rw [List.flatten_cons]
      constructor
      · intro rounds
        rw [lockStep_append (rounds g List.mem_cons_self)]
        exact ih.mp fun g' member => rounds g' (List.mem_cons_of_mem g member)
      · intro lock g' member
        have first := lock.prefix.oneEach nodup (full g List.mem_cons_self)
          (only g List.mem_cons_self)
        rcases List.mem_cons.mp member with rfl | later
        · exact first
        · exact ih.mpr ((lockStep_append first).mp lock) g' later

/-! ## Cutting a log into groups -/

/-- The complete groups of `n` consecutive entries. -/
def blocks (n : Nat) (log : List β) : List (List β) :=
  (List.range (log.length / n)).map (fun i => (log.drop (i * n)).take n)

theorem blocks_short {n : Nat} {log : List β} (short : log.length < n) : blocks n log = [] := by
  rw [blocks, Nat.div_eq_of_lt short, List.range_zero, List.map_nil]

theorem blocks_cons {n : Nat} {g log : List β} (full : g.length = n) (pos : 0 < n) :
    blocks n (g ++ log) = g :: blocks n log := by
  have count : (g ++ log).length / n = log.length / n + 1 := by
    rw [List.length_append, full, Nat.add_div_left _ pos]
  rw [blocks, count, List.range_succ_eq_map, List.map_cons, Nat.zero_mul, List.drop_zero,
    List.take_left' full, List.map_map]
  congr 1
  apply List.map_congr_left
  intro i _
  have shift : (i + 1) * n = g.length + i * n := by rw [full]; ring
  simp only [Function.comp_apply, Nat.succ_eq_add_one, shift, List.drop_length_add_append]

/-- Groups of `n` entries followed by fewer than `n` are the blocks of the whole log. -/
theorem blocks_of_groups {n : Nat} {groups : List (List β)} {rest : List β}
    (full : ∀ g ∈ groups, g.length = n) (short : rest.length < n) :
    blocks n (groups.flatten ++ rest) = groups := by
  induction groups with
  | nil => exact blocks_short short
  | cons g groups ih =>
      rw [List.flatten_cons, List.append_assoc, blocks_cons (full g List.mem_cons_self) (by omega),
        ih fun g' member => full g' (List.mem_cons_of_mem g member)]

theorem blocks_map {γ : Type} (f : β → γ) (n : Nat) (log : List β) :
    blocks n (log.map f) = (blocks n log).map (List.map f) := by
  simp only [blocks, List.length_map, List.map_map]
  apply List.map_congr_left
  intro i _
  simp only [Function.comp_apply, ← List.map_drop, ← List.map_take]

/-! ## Entries with a party label -/

section Entries

variable (key : β → α)

/-- The entries of one party. -/
def entriesOf (a : α) (log : List β) : List β := log.filter (fun x => key x = a)

theorem entriesOf_length (a : α) (log : List β) :
    (entriesOf key a log).length = (log.map key).count a := by
  rw [entriesOf, ← List.countP_eq_length_filter, List.count, List.countP_map]
  congr 1

variable {key}

/-- In a sequence of rounds, round `k` holds exactly the `k`-th entry of each party. -/
theorem entriesOf_round {a : α} {rounds : List (List β)}
    (once : ∀ g ∈ rounds, (g.map key).count a = 1) {k : Nat} {g : List β}
    (here : rounds[k]? = some g) :
    ∃ x, entriesOf key a g = [x] ∧ (entriesOf key a rounds.flatten)[k]? = some x := by
  have single {g : List β} (member : g ∈ rounds) : ∃ x, entriesOf key a g = [x] :=
    List.length_eq_one_iff.mp ((entriesOf_length key a g).trans (once g member))
  induction rounds generalizing k with
  | nil => cases here
  | cons first rest ih =>
      obtain ⟨x, own⟩ := single List.mem_cons_self
      have split : entriesOf key a (first :: rest).flatten =
          x :: entriesOf key a rest.flatten := by
        rw [List.flatten_cons, entriesOf, List.filter_append, ← entriesOf, own]
        rfl
      cases k with
      | zero =>
          obtain rfl : first = g := Option.some.inj here
          exact ⟨x, own, by rw [split]; rfl⟩
      | succ k =>
          rw [List.getElem?_cons_succ] at here
          obtain ⟨y, found, place⟩ := ih
            (fun g' member => once g' (List.mem_cons_of_mem first member)) here
            (fun member => single (List.mem_cons_of_mem first member))
          exact ⟨y, found, by rw [split, List.getElem?_cons_succ, place]⟩

theorem entriesOf_flatten_length {a : α} {rounds : List (List β)}
    (once : ∀ g ∈ rounds, (g.map key).count a = 1) :
    (entriesOf key a rounds.flatten).length = rounds.length := by
  induction rounds with
  | nil => rfl
  | cons first rest ih =>
      have later := ih fun g member => once g (List.mem_cons_of_mem first member)
      have here := once first List.mem_cons_self
      rw [entriesOf_length] at later ⊢
      simp only [List.flatten_cons, List.map_append, List.count_append, List.length_cons, here,
        later]
      omega

/-- The `k`-th entry of a party sits in round `k`. -/
theorem round_of_entriesOf {a : α} {rounds : List (List β)}
    (once : ∀ g ∈ rounds, (g.map key).count a = 1) {k : Nat} {x : β}
    (here : (entriesOf key a rounds.flatten)[k]? = some x) :
    ∃ g, rounds[k]? = some g ∧ x ∈ g := by
  obtain ⟨inside, -⟩ := List.getElem?_eq_some_iff.mp here
  rw [entriesOf_flatten_length once] at inside
  have round : rounds[k]? = some rounds[k] := List.getElem?_eq_getElem inside
  obtain ⟨y, own, place⟩ := entriesOf_round once round
  obtain rfl : x = y := Option.some.inj (here.symm.trans place)
  have mine : x ∈ entriesOf key a rounds[k] := by simp only [own, List.mem_singleton]
  exact ⟨_, round, (List.mem_filter.mp mine).1⟩

/-- The entries of every round agree on a value exactly when the `k`-th entries of any two
    parties do, for every `k`. -/
theorem agree_iff {γ : Type} (value : β → γ) {parties : List α} {rounds : List (List β)}
    (once : ∀ g ∈ rounds, OneEach parties (g.map key))
    (only : ∀ g ∈ rounds, ∀ x ∈ g, key x ∈ parties) :
    (∀ g ∈ rounds, ∀ x ∈ g, ∀ y ∈ g, value x = value y) ↔
      ∀ a ∈ parties, ∀ b ∈ parties, ∀ (k : Nat) x y, (entriesOf key a rounds.flatten)[k]? = some x →
        (entriesOf key b rounds.flatten)[k]? = some y → value x = value y := by
  constructor
  · intro agree a ma b mb k x y atA atB
    obtain ⟨g, here, inA⟩ := round_of_entriesOf (fun g member => once g member a ma) atA
    obtain ⟨g', here', inB⟩ := round_of_entriesOf (fun g member => once g member b mb) atB
    obtain rfl : g = g' := Option.some.inj (here.symm.trans here')
    exact agree g (List.mem_of_getElem? here) x inA y inB
  · intro agree g member x inX y inY
    obtain ⟨k, here⟩ := List.getElem?_of_mem member
    have ranked {z : β} (inside : z ∈ g) :
        (entriesOf key (key z) rounds.flatten)[k]? = some z := by
      have party := only g member z inside
      obtain ⟨z', own, place⟩ := entriesOf_round (fun g member => once g member _ party) here
      have listed : z ∈ entriesOf key (key z) g := List.mem_filter.mpr ⟨inside, by simp⟩
      rw [own, List.mem_singleton] at listed
      exact listed ▸ place
    exact agree _ (only g member x inX) _ (only g member y inY) k x y (ranked inX) (ranked inY)

/-- Lists with the same entries per party differ in order only. -/
theorem perm_of_entriesOf [DecidableEq β] (key : β → α) {xs ys : List β}
    (same : ∀ a, entriesOf key a xs = entriesOf key a ys) : xs.Perm ys := by
  rw [List.perm_iff_count]
  intro x
  have kept (log : List β) : (entriesOf key (key x) log).count x = log.count x :=
    List.count_filter (by simp)
  rw [← kept xs, ← kept ys, same]

end Entries

end BMDaq.Rounds
