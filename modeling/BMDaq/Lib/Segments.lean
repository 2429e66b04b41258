import Mathlib

/-! # Segments of a stream

A stream is cut by its opening and closing elements. Outside a segment everything up to
the next opening element is skipped; inside, everything up to the next closing element
belongs to the segment. Reading a stream piece by piece is reading it at once.
-/

namespace BMDaq.Segments

variable {α : Type}

/-- What has been read so far: the segment that is still open, and the closed ones. -/
structure Cut (α : Type) where
  running : Option (List α)
  closed : List (List α)

variable (opens closes : α → Bool)

def feed (s : Cut α) (x : α) : Cut α :=
  match s.running with
  | none => if opens x then ⟨some [x], s.closed⟩ else s
  | some segment =>
      if closes x then ⟨none, s.closed ++ [segment ++ [x]]⟩
      else ⟨some (segment ++ [x]), s.closed⟩

def feedAll (s : Cut α) (xs : List α) : Cut α := xs.foldl (feed opens closes) s

/-- The closed segments of a stream. -/
def segments (xs : List α) : List (List α) := (feedAll opens closes ⟨none, []⟩ xs).closed

/-- The beginning of the segment that the stream leaves open. -/
def remainder (xs : List α) : Option (List α) := (feedAll opens closes ⟨none, []⟩ xs).running

/-- Opening and closing elements alternate; `inside` tells whether a segment is open. -/
def Alternates (inside : Bool) : List α → Prop
  | [] => True
  | x :: xs =>
      if opens x then inside = false ∧ Alternates true xs
      else if closes x then inside = true ∧ Alternates false xs
      else Alternates inside xs

instance decidableAlternates : (inside : Bool) → (xs : List α) →
    Decidable (Alternates opens closes inside xs)
  | _, [] => isTrue trivial
  | inside, x :: xs =>
      have := decidableAlternates true xs
      have := decidableAlternates false xs
      have := decidableAlternates inside xs
      inferInstanceAs (Decidable (if opens x then inside = false ∧ Alternates opens closes true xs
        else if closes x then inside = true ∧ Alternates opens closes false xs
        else Alternates opens closes inside xs))

section Feed

variable {opens closes}

theorem feedAll_append (s : Cut α) (xs ys : List α) :
    feedAll opens closes s (xs ++ ys) = feedAll opens closes (feedAll opens closes s xs) ys :=
  List.foldl_append

/-- Segments closed earlier stay in front and do not influence what follows. -/
theorem feedAll_closed (running : Option (List α)) (closed : List (List α)) (xs : List α) :
    feedAll opens closes ⟨running, closed⟩ xs =
      ⟨(feedAll opens closes ⟨running, []⟩ xs).running,
        closed ++ (feedAll opens closes ⟨running, []⟩ xs).closed⟩ := by
  induction xs generalizing running closed with
  | nil => simp [feedAll]
  | cons x xs ih =>
      have step : ∃ next more, ∀ closed,
          feed opens closes ⟨running, closed⟩ x = ⟨next, closed ++ more⟩ := by
        cases running with
        | none =>
            by_cases opening : opens x = true
            · exact ⟨some [x], [], fun closed => by simp [feed, opening]⟩
            · exact ⟨none, [], fun closed => by simp [feed, opening]⟩
        | some segment =>
            by_cases closing : closes x = true
            · exact ⟨none, [segment ++ [x]], fun closed => by simp [feed, closing]⟩
            · exact ⟨some (segment ++ [x]), [], fun closed => by simp [feed, closing]⟩
      obtain ⟨next, more, step⟩ := step
      simp only [feedAll, List.foldl_cons, step, List.nil_append]
      have now := ih next (closed ++ more)
      have first := ih next more
      simp only [feedAll] at now first
      rw [now, first, List.append_assoc]

theorem feedAll_skip (closed : List (List α)) {xs : List α} (none : ∀ x ∈ xs, opens x = false) :
    feedAll opens closes ⟨.none, closed⟩ xs = ⟨.none, closed⟩ := by
  induction xs with
  | nil => rfl
  | cons x xs ih =>
      have here := none x List.mem_cons_self
      have later := ih fun y member => none y (List.mem_cons_of_mem x member)
      simpa [feedAll, feed, here] using later

theorem feedAll_extend (closed : List (List α)) (segment : List α) {xs : List α} (none : ∀ x ∈ xs, closes x = false) :
    feedAll opens closes ⟨some segment, closed⟩ xs = ⟨some (segment ++ xs), closed⟩ := by
  induction xs generalizing segment with
  | nil => simp [feedAll]
  | cons x xs ih =>
      have here := none x List.mem_cons_self
      have later := ih (segment ++ [x]) fun y member => none y (List.mem_cons_of_mem x member)
      simpa [feedAll, feed, here] using later

/-- A segment opens behind elements that do not, and stays open. -/
theorem feedAll_open (closed : List (List α)) {pre post : List α} {x : α}
    (before : ∀ y ∈ pre, opens y = false)
    (opening : opens x = true) (after : ∀ y ∈ post, closes y = false) :
    feedAll opens closes ⟨none, closed⟩ (pre ++ x :: post) = ⟨some (x :: post), closed⟩ := by
  rw [feedAll_append, feedAll_skip closed before]
  have one : feed opens closes ⟨none, closed⟩ x = ⟨some [x], closed⟩ := by simp [feed, opening]
  rw [feedAll, List.foldl_cons, one]
  exact feedAll_extend closed [x] after

/-- The open segment closes, and no other one opens. -/
theorem feedAll_close (closed : List (List α)) (segment : List α) {pre post : List α} {y : α}
    (before : ∀ x ∈ pre, closes x = false)
    (closing : closes y = true) (after : ∀ x ∈ post, opens x = false) :
    feedAll opens closes ⟨some segment, closed⟩ (pre ++ y :: post) =
      ⟨none, closed ++ [segment ++ (pre ++ [y])]⟩ := by
  rw [feedAll_append, feedAll_extend closed segment before]
  have one : feed opens closes ⟨some (segment ++ pre), closed⟩ y =
      ⟨none, closed ++ [segment ++ (pre ++ [y])]⟩ := by simp [feed, closing]
  rw [feedAll, List.foldl_cons, one]
  exact feedAll_skip _ after

/-- One more piece of the stream. -/
theorem segments_append (xs ys : List α) :
    segments opens closes (xs ++ ys) = segments opens closes xs ++
      (feedAll opens closes ⟨remainder opens closes xs, []⟩ ys).closed := by
  have read : feedAll opens closes ⟨none, []⟩ xs =
      ⟨remainder opens closes xs, segments opens closes xs⟩ := rfl
  rw [segments, feedAll_append, read, feedAll_closed]

theorem remainder_append (xs ys : List α) :
    remainder opens closes (xs ++ ys) =
      (feedAll opens closes ⟨remainder opens closes xs, []⟩ ys).running := by
  have read : feedAll opens closes ⟨none, []⟩ xs =
      ⟨remainder opens closes xs, segments opens closes xs⟩ := rfl
  rw [remainder, feedAll_append, read, feedAll_closed]

end Feed

section Shape

variable {opens closes}

/-- Outside a segment nothing can close before something has opened. -/
theorem Alternates.no_close {xs : List α} (alternates : Alternates opens closes false xs)
    (none : ∀ x ∈ xs, opens x = false) : ∀ x ∈ xs, closes x = false := by
  induction xs with
  | nil => exact nofun
  | cons x xs ih =>
      have here := none x List.mem_cons_self
      simp only [Alternates, here, Bool.false_eq_true, if_false, false_and] at alternates
      split at alternates
      · exact alternates.elim
      · next closing =>
          intro y member
          rcases List.mem_cons.mp member with rfl | later
          · simpa using closing
          · exact ih alternates (fun z inside => none z (List.mem_cons_of_mem x inside)) y later

/-- Inside a segment nothing can open before something has closed. -/
theorem Alternates.no_open {xs : List α} (alternates : Alternates opens closes true xs)
    (none : ∀ x ∈ xs, closes x = false) : ∀ x ∈ xs, opens x = false := by
  induction xs with
  | nil => exact nofun
  | cons x xs ih =>
      have here := none x List.mem_cons_self
      simp only [Alternates, here, Bool.false_eq_true, if_false, Bool.true_eq_false,
        false_and] at alternates
      split at alternates
      · exact alternates.elim
      · next opening =>
          intro y member
          rcases List.mem_cons.mp member with rfl | later
          · simpa using opening
          · exact ih alternates (fun z inside => none z (List.mem_cons_of_mem x inside)) y later

/-- Alternation is a property of the pieces of a stream, given whether a segment is open
    where a piece starts. -/
theorem Alternates.split (running : Option (List α)) (closed : List (List α)) {xs ys : List α}
    (alternates : Alternates opens closes running.isSome (xs ++ ys)) :
    Alternates opens closes running.isSome xs ∧
      Alternates opens closes (feedAll opens closes ⟨running, closed⟩ xs).running.isSome ys := by
  induction xs generalizing running closed with
  | nil => exact ⟨trivial, alternates⟩
  | cons x xs ih =>
      simp only [List.cons_append, Alternates] at alternates ⊢
      simp only [feedAll, List.foldl_cons]
      cases running with
      | none =>
          by_cases opening : opens x = true
          · simp only [opening, if_true] at alternates ⊢
            obtain ⟨first, rest⟩ := ih (some [x]) closed alternates.2
            exact ⟨⟨rfl, first⟩, by simpa [feed, opening, feedAll] using rest⟩
          · have quiet : closes x ≠ true := by
              intro closing
              simp [opening, closing] at alternates
            simp only [opening, quiet, if_false, Bool.false_eq_true] at alternates ⊢
            obtain ⟨first, rest⟩ := ih none closed alternates
            exact ⟨first, by simpa [feed, opening, feedAll] using rest⟩
      | some segment =>
          have notOpening : opens x ≠ true := by
            intro opening
            simp [opening] at alternates
          by_cases closing : closes x = true
          · simp only [notOpening, closing, if_true, if_false, Bool.false_eq_true] at alternates ⊢
            obtain ⟨first, rest⟩ := ih none (closed ++ [segment ++ [x]]) alternates.2
            exact ⟨⟨rfl, first⟩, by simpa [feed, closing, feedAll] using rest⟩
          · simp only [notOpening, closing, if_false, Bool.false_eq_true] at alternates ⊢
            obtain ⟨first, rest⟩ := ih (some (segment ++ [x])) closed alternates
            exact ⟨first, by simpa [feed, closing, feedAll] using rest⟩

end Shape

end BMDaq.Segments
