import Mathlib.Data.List.TakeWhile

/-!
# Maximal runs

Blanks, words and lengths are read as the longest run of characters of a class. A run is maximal when
what follows it `Stops` the class, and then `takeWhile` and `dropWhile` cut it off (`isRun_iff`).
-/

namespace FunctionSymbols

variable {α : Type} {p : α → Bool} {list run rest : List α}

/-- The list does not begin with a member of the class. -/
def Stops (p : α → Bool) (list : List α) : Prop := ∀ a ∈ list.head?, p a = false

@[simp] theorem stops_nil : Stops p [] := by simp [Stops]

@[simp] theorem stops_cons {a : α} : Stops p (a :: rest) ↔ p a = false := by simp [Stops]

instance (p : α → Bool) : (list : List α) → Decidable (Stops p list)
  | [] => isTrue stops_nil
  | a :: _ => decidable_of_iff (p a = false) stops_cons.symm

/-- A list and another one behind it do not begin with a member if neither does. -/
theorem Stops.append {back : List α} (front : Stops p list) (stop : Stops p back) :
    Stops p (list ++ back) := by
  cases list with
  | nil => exact stop
  | cons a list => exact stops_cons.2 (stops_cons.1 front)

theorem Stops.of_append {back : List α} (stop : Stops p (list ++ back)) : Stops p list := by
  cases list with
  | nil => exact stops_nil
  | cons a list => exact stops_cons.2 (stops_cons.1 stop)

theorem stops_dropWhile (list : List α) : Stops p (list.dropWhile p) := by
  intro a ha
  have head := List.head?_dropWhile_not p list
  rw [Option.mem_def.1 ha] at head
  exact head

theorem dropWhile_of_stops (stop : Stops p rest) : rest.dropWhile p = rest := by
  cases rest with
  | nil => rfl
  | cons a rest => simp [stops_cons.1 stop]

theorem takeWhile_append_of_stops (all : ∀ a ∈ run, p a = true) (stop : Stops p rest) :
    (run ++ rest).takeWhile p = run := by
  rw [List.takeWhile_append_of_pos all]
  cases rest with
  | nil => simp
  | cons a rest => simp [stops_cons.1 stop]

theorem dropWhile_append_of_stops (all : ∀ a ∈ run, p a = true) (stop : Stops p rest) :
    (run ++ rest).dropWhile p = rest := by
  rw [List.dropWhile_append_of_pos all, dropWhile_of_stops stop]

/-- The list is the longest run of the class at its front, and the rest behind that run. -/
structure IsRun (p : α → Bool) (list run rest : List α) : Prop where
  split : list = run ++ rest
  all : ∀ a ∈ run, p a = true
  stop : Stops p rest

theorem isRun_iff : IsRun p list run rest ↔ run = list.takeWhile p ∧ rest = list.dropWhile p := by
  constructor
  · rintro ⟨rfl, all, stop⟩
    exact ⟨(takeWhile_append_of_stops all stop).symm, (dropWhile_append_of_stops all stop).symm⟩
  · rintro ⟨rfl, rfl⟩
    have split := List.takeWhile_append_dropWhile (p := p) (l := list)
    exact ⟨split.symm, fun a member => List.mem_takeWhile_imp member, stops_dropWhile list⟩

/-- Every list begins with a longest run. -/
theorem exists_isRun (p : α → Bool) (list : List α) : ∃ run rest, IsRun p list run rest :=
  ⟨_, _, isRun_iff.2 ⟨rfl, rfl⟩⟩

end FunctionSymbols
