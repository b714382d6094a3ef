/-!
# Descending lists of lengths

A table keeps the lengths of its lexemes in a list, longest first and each one once. The place of a
length in the list, or the place where it has to be put, is found by halving.
-/

namespace FunctionSymbols

/-- Halves a stretch of `size` elements from `base` on until one is left, the last that is not behind
what is looked for. `order` says on which side of it an element is. -/
@[semireducible] def narrow (order : Nat → Ordering) (list : List Nat) (base size : Nat) : Nat :=
  if size ≤ 1 then base
  else
    let mid := base + size / 2
    let next := if order (list.getD mid 0) = .gt then base else mid
    narrow order list next (size - size / 2)
termination_by size
decreasing_by omega

/-- The place of what is looked for or else, as the error, the place where it can be put. -/
def binarySearch (order : Nat → Ordering) (list : List Nat) : Except Nat Nat :=
  if list.isEmpty then .error 0
  else
    let base := narrow order list 0 list.length
    match order (list.getD base 0) with
    | .lt => .error (base + 1)
    | .eq => .ok base
    | .gt => .error base

/-- Puts a length into a descending list, unless it is there. Comparing the length with an element, and
not the element with the length, puts the greater elements in front. -/
def insertLength (n : Nat) (lengths : List Nat) : List Nat :=
  match binarySearch (compare n) lengths with
  | .ok _ => lengths
  | .error place => lengths.take place ++ n :: lengths.drop place

section

variable {n base size : Nat} {lengths : List Nat}

/-- In a descending list, what stands in front of a place is greater than what stands there, and what
stands behind it is smaller. -/
theorem descending_getElem (descending : lengths.Pairwise (· > ·)) {i : Nat}
    (bound : i < lengths.length) :
    (∀ m ∈ lengths.take i, lengths[i] < m) ∧ ∀ m ∈ lengths.drop (i + 1), m < lengths[i] := by
  have split : lengths.take i ++ lengths[i] :: lengths.drop (i + 1) = lengths := by
    rw [← List.drop_eq_getElem_cons bound, List.take_append_drop]
  rw [← split] at descending
  obtain ⟨-, behind, across⟩ := List.pairwise_append.1 descending
  exact ⟨fun m front => across m front _ List.mem_cons_self, (List.pairwise_cons.1 behind).1⟩

/-- A length belongs into a stretch of a list: greater lengths stand in front of it and smaller ones
behind it. -/
structure Brackets (n : Nat) (lengths : List Nat) (base size : Nat) : Prop where
  pos : 0 < size
  bound : base + size ≤ lengths.length
  front : ∀ m ∈ lengths.take base, n < m
  behind : ∀ m ∈ lengths.drop (base + size), m < n

namespace Brackets

/-- The upper part of a stretch is kept when its first element is not smaller. -/
theorem upper (descending : lengths.Pairwise (· > ·)) (brackets : Brackets n lengths base size)
    {half : Nat} (inside : half < size) (bound : base + half < lengths.length)
    (side : n ≤ lengths[base + half]) : Brackets n lengths (base + half) (size - half) := by
  have last : base + half + (size - half) = base + size := by omega
  constructor
  · omega
  · exact last ▸ brackets.bound
  · intro m front
    exact Nat.lt_of_le_of_lt side ((descending_getElem descending bound).1 m front)
  · exact last ▸ brackets.behind

/-- The lower part of a stretch is kept when the first element of the upper one is smaller. -/
theorem lower (descending : lengths.Pairwise (· > ·)) (brackets : Brackets n lengths base size)
    {half : Nat} (inside : 2 * half ≤ size) (bound : base + half < lengths.length)
    (side : lengths[base + half] < n) : Brackets n lengths base (size - half) := by
  have := brackets.pos
  have := brackets.bound
  constructor
  · omega
  · omega
  · exact brackets.front
  · intro m behind
    have behind := lengths.drop_subset_drop_left (by omega : base + half ≤ _) behind
    rw [List.drop_eq_getElem_cons bound] at behind
    rcases List.mem_cons.1 behind with same | behind
    · exact same ▸ side
    · exact Nat.lt_trans ((descending_getElem descending bound).2 m behind) side

/-- Halving leads to the one element around which a length belongs. -/
theorem narrow (descending : lengths.Pairwise (· > ·))
    (brackets : Brackets n lengths base size) :
    Brackets n lengths (narrow (compare n) lengths base size) 1 := by
  -- The invariant is that the length belongs into the stretch; either part of it keeps this.
  fun_induction FunctionSymbols.narrow (compare n) lengths base size with
  | case1 base size short =>
    have last : size = 1 := Nat.le_antisymm short brackets.pos
    exact last ▸ brackets
  | case2 base size long mid next ih =>
    have bound : mid < lengths.length := by
      have := brackets.bound
      omega
    have value : lengths.getD mid 0 = lengths[mid] := by simp [bound]
    apply ih
    by_cases side : n ≤ lengths[mid]
    · have moved : next = mid := if_neg (value ▸ Nat.compare_ne_gt.2 side)
      exact moved ▸ brackets.upper descending (by omega) bound side
    · have side := Nat.lt_of_not_le side
      have kept : next = base := if_pos (value ▸ Nat.compare_eq_gt.2 side)
      exact kept ▸ brackets.lower descending (by omega) bound side

end Brackets

/-- What the search says about a descending list: the place of the length, or else the place with the
greater lengths in front of it and the smaller ones behind it. -/
theorem binarySearch_compare (descending : lengths.Pairwise (· > ·)) :
    match binarySearch (compare n) lengths with
    | .ok place => lengths[place]? = some n
    | .error place => (∀ m ∈ lengths.take place, n < m) ∧ ∀ m ∈ lengths.drop place, m < n := by
  unfold binarySearch
  by_cases empty : lengths = []
  · subst empty
    simp
  · have whole : Brackets n lengths 0 lengths.length :=
      ⟨List.length_pos_iff.2 empty, Nat.le_of_eq (Nat.zero_add _), by simp, by simp⟩
    have found := whole.narrow descending
    rw [if_neg (by simpa using empty)]
    generalize narrow (compare n) lengths 0 lengths.length = base at found
    have bound : base < lengths.length := found.bound
    have value : lengths.getD base 0 = lengths[base] := by simp [bound]
    dsimp only
    rw [value]
    cases side : compare n lengths[base] with
    | lt =>
      refine ⟨fun m front => ?_, found.behind⟩
      rw [← List.take_append_getElem bound] at front
      rcases List.mem_append.1 front with front | last
      · exact found.front m front
      · exact List.mem_singleton.1 last ▸ Nat.compare_eq_lt.1 side
    | eq =>
      have same := Nat.compare_eq_eq.1 side
      show lengths[base]? = some n
      rw [same, List.getElem?_eq_getElem bound]
    | gt =>
      refine ⟨found.front, fun m behind => ?_⟩
      rw [List.drop_eq_getElem_cons bound] at behind
      rcases List.mem_cons.1 behind with first | behind
      · exact first ▸ Nat.compare_eq_gt.1 side
      · exact found.behind m behind

theorem mem_insertLength (descending : lengths.Pairwise (· > ·)) {k : Nat} :
    k ∈ insertLength n lengths ↔ k = n ∨ k ∈ lengths := by
  have found := @binarySearch_compare n lengths descending
  unfold insertLength
  cases searched : binarySearch (compare n) lengths with
  | ok place =>
    rw [searched] at found
    have listed : n ∈ lengths := List.mem_of_getElem? found
    exact ⟨.inr, fun member => member.elim (· ▸ listed) id⟩
  | error place =>
    rw [List.mem_append, List.mem_cons, or_left_comm, ← List.mem_append, List.take_append_drop]

theorem pairwise_insertLength (descending : lengths.Pairwise (· > ·)) :
    (insertLength n lengths).Pairwise (· > ·) := by
  have found := @binarySearch_compare n lengths descending
  unfold insertLength
  cases searched : binarySearch (compare n) lengths with
  | ok place => exact descending
  | error place =>
    rw [searched] at found
    obtain ⟨greater, smaller⟩ := found
    rw [← List.take_append_drop place lengths] at descending
    obtain ⟨front, behind, across⟩ := List.pairwise_append.1 descending
    have rest := List.pairwise_cons.2 ⟨smaller, behind⟩
    refine List.pairwise_append.2 ⟨front, rest, fun k member m => ?_⟩
    rintro (_ | ⟨_, member'⟩)
    · exact greater k member
    · exact across k member m member'

end

/-- A length that is there already is not put in again. -/
example : insertLength 2 (insertLength 3 (insertLength 2 [1])) = [3, 2, 1] := by decide

end FunctionSymbols
