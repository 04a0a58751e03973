import ShiftReduce.Fixpoint

/-!
# Collections that remember the order of arrival

A registry maps keys to values and lists them in the order in which the keys first arrived; an
ordered set does the same for its members. The place of a key never changes, so it can serve as the
key's number. Ascending lists of numbers are kept beside them as the sets of such numbers.
-/

namespace ShiftReduce

/-- A map that lists its keys in the order of their arrival. -/
structure Registry (κ α : Type) where
  entries : List (κ × α) := []
deriving DecidableEq

namespace Registry

variable {κ α : Type} [DecidableEq κ]

/-- The keys in the order of their arrival. -/
def keys (r : Registry κ α) : List κ :=
  r.entries.map Prod.fst

/-- The number of keys. -/
def size (r : Registry κ α) : Nat :=
  r.entries.length

/-- The value of a key. -/
def get? (r : Registry κ α) (key : κ) : Option α :=
  r.entries.lookup key

/-- Whether a key has arrived. -/
def contains (r : Registry κ α) (key : κ) : Bool :=
  (r.get? key).isSome

/-- The number of a key. -/
def indexOf? (r : Registry κ α) (key : κ) : Option Nat :=
  r.keys.idxOf? key

/-- Gives a key a value unless it has one. -/
def register (r : Registry κ α) (key : κ) (value : α) : Registry κ α :=
  if r.contains key then r else ⟨r.entries ++ [(key, value)]⟩

/-- Changes the value of a key; an absent key stays absent. -/
def modify (r : Registry κ α) (key : κ) (f : α → α) : Registry κ α :=
  ⟨r.entries.map fun entry => if entry.1 = key then (entry.1, f entry.2) else entry⟩

/-- Changes the value of a key, which starts from the given value when it is new. -/
def update (r : Registry κ α) (key : κ) (start : α) (f : α → α) : Registry κ α :=
  (r.register key start).modify key f

/-- Changes the value of a key by a step that says whether it changed it. -/
def alter (r : Registry κ α) (key : κ) (step : α → α × Bool) : Registry κ α × Bool :=
  (r.modify key fun value => (step value).1,
    ((r.get? key).map fun value => (step value).2).getD false)

/-- Changing a value keeps the keys and their order. -/
@[simp] theorem keys_modify (r : Registry κ α) (key : κ) (f : α → α) :
    (r.modify key f).keys = r.keys := by
  simp only [keys, modify, List.map_map]
  apply List.map_congr_left
  intro entry _
  simp only [Function.comp_apply]
  split <;> rfl

/-- A registered key comes after all earlier ones. -/
theorem keys_register (r : Registry κ α) (key : κ) (value : α) :
    (r.register key value).keys = if r.contains key then r.keys else r.keys ++ [key] := by
  unfold register
  split <;> simp [keys]

end Registry

/-! ## Ordered sets -/

namespace Ordered

variable {α : Type} [DecidableEq α]

/-- Adds a member at the end unless it is there. -/
def add (set : List α) (x : α) : List α :=
  if x ∈ set then set else set ++ [x]

/-- Adds several members in turn. -/
def union (set others : List α) : List α :=
  others.foldl add set

/-- Adds a member at the end unless it is there, and says whether it was added. -/
def insert (set : List α) (x : α) : List α × Bool :=
  if x ∈ set then (set, false) else (set ++ [x], true)

/-- Adds several members in turn, and says whether one was added. -/
def extend (set others : List α) : List α × Bool :=
  sweep insert set others

/-- The distinct members of a list in the order of their first appearance. -/
def ofList (xs : List α) : List α :=
  union [] xs

@[simp] theorem mem_add {set : List α} {x y : α} : y ∈ add set x ↔ y ∈ set ∨ y = x := by
  unfold add
  split
  · rename_i h
    exact ⟨Or.inl, fun hy => hy.elim id (fun e => e ▸ h)⟩
  · simp

@[simp] theorem mem_union {set others : List α} {y : α} :
    y ∈ union set others ↔ y ∈ set ∨ y ∈ others := by
  induction others generalizing set with
  | nil => simp [union]
  | cons x rest ih =>
      change y ∈ union (add set x) rest ↔ _
      rw [ih, mem_add, List.mem_cons, or_assoc]

@[simp] theorem mem_ofList {xs : List α} {y : α} : y ∈ ofList xs ↔ y ∈ xs := by
  simp [ofList]

end Ordered

/-! ## Ascending lists of numbers -/

namespace Ascending

/-- Puts a number in its place of an ascending list, once. -/
def insert (x : Nat) : List Nat → List Nat
  | [] => [x]
  | y :: rest => if x < y then x :: y :: rest else if x = y then y :: rest else y :: insert x rest

/-- The union of two ascending lists. -/
def union (set others : List Nat) : List Nat :=
  others.foldl (fun acc x => insert x acc) set

/-- The distinct numbers of a list in ascending order. -/
def ofList (xs : List Nat) : List Nat :=
  union [] xs

/-- Puts a number in its place of an ascending list, beside any equal ones. -/
def place (x : Nat) : List Nat → List Nat
  | [] => [x]
  | y :: rest => if x ≤ y then x :: y :: rest else y :: place x rest

/-- All numbers of a list in ascending order, repetitions kept. -/
def sort (xs : List Nat) : List Nat :=
  xs.foldr place []

@[simp] theorem mem_insert {x y : Nat} {set : List Nat} : y ∈ insert x set ↔ y = x ∨ y ∈ set := by
  induction set with
  | nil => simp [insert]
  | cons z rest ih =>
      unfold insert
      split
      · simp
      · split
        · rename_i h
          simp [h]
        · simp [ih, or_left_comm]

@[simp] theorem mem_union {y : Nat} {set others : List Nat} :
    y ∈ union set others ↔ y ∈ set ∨ y ∈ others := by
  induction others generalizing set with
  | nil => simp [union]
  | cons x rest ih =>
      change y ∈ union (insert x set) rest ↔ _
      rw [ih, mem_insert, List.mem_cons, or_assoc, or_left_comm]

@[simp] theorem mem_ofList {y : Nat} {xs : List Nat} : y ∈ ofList xs ↔ y ∈ xs := by
  simp [ofList]

end Ascending

end ShiftReduce
