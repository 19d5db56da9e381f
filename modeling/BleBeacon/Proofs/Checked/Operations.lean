/-!
# Checked operations

Unsigned differences, indices, slices, shift amounts and lists of a fixed capacity are defined on a
range of operands only. A checked operation faults outside of its range, where an unchecked one
would stop the program, wrap around or lose an item; inside of it the two agree. Sums are not
checked: all of them are offsets into lists that are in memory, or at most a few hundred behind
their ends.
-/

namespace BleBeacon

/-- What goes wrong outside the range of an operation. -/
inductive Fault where
  | underflow
  | outOfBounds
  | wideShift
  | overCapacity
  deriving DecidableEq, Repr

/-- A computation that stops at the first operation outside its range. -/
abbrev Checked := Except Fault

namespace Checked

variable {α β ε : Type}

@[simp] theorem ok_bind (value : α) (rest : α → Checked β) :
    ((.ok value : Checked α) >>= rest) = rest value := rfl

/-- The difference of unsigned numbers. -/
def subtract (left right : Nat) : Checked Nat :=
  if right ≤ left then .ok (left - right) else .error .underflow

theorem subtract_of_le {left right : Nat} (ordered : right ≤ left) :
    subtract left right = .ok (left - right) :=
  if_pos ordered

/-- The item at an index. -/
def get (items : List α) (index : Nat) : Checked α :=
  match items[index]? with
  | some item => .ok item
  | none => .error .outOfBounds

theorem get_of_getElem? {items : List α} {index : Nat} {item : α}
    (present : items[index]? = some item) : get items index = .ok item := by
  simp only [get, present]

/-- Replaces the item at an index. -/
def set (items : List α) (index : Nat) (item : α) : Checked (List α) :=
  if index < items.length then .ok (items.set index item) else .error .outOfBounds

theorem set_of_lt {items : List α} {index : Nat} (inside : index < items.length) (item : α) :
    set items index item = .ok (items.set index item) :=
  if_pos inside

/-- The items from `first` on, up to but not including `stop`. -/
def slice (items : List α) (first stop : Nat) : Checked (List α) :=
  if first ≤ stop ∧ stop ≤ items.length then .ok ((items.take stop).drop first)
  else .error .outOfBounds

theorem slice_of_le {items : List α} {first stop : Nat} (ordered : first ≤ stop)
    (inside : stop ≤ items.length) : slice items first stop = .ok ((items.take stop).drop first) :=
  if_pos ⟨ordered, inside⟩

/-- An amount by which a 64-bit word is shifted. -/
def shiftAmount (bits : Nat) : Checked UInt64 :=
  if bits < 64 then .ok (UInt64.ofNat bits) else .error .wideShift

theorem shiftAmount_of_lt {bits : Nat} (narrow : bits < 64) :
    shiftAmount bits = .ok (UInt64.ofNat bits) :=
  if_pos narrow

/-- Appends an item to a list of a fixed capacity. -/
def push (capacity : Nat) (items : List α) (item : α) : Checked (List α) :=
  if items.length < capacity then .ok (items ++ [item]) else .error .overCapacity

theorem push_of_lt {capacity : Nat} {items : List α} (room : items.length < capacity) (item : α) :
    push capacity items item = .ok (items ++ [item]) :=
  if_pos room

theorem push_eq_ok_iff {capacity : Nat} {items longer : List α} {item : α} :
    push capacity items item = .ok longer ↔
      items.length < capacity ∧ longer = items ++ [item] := by
  unfold push
  split
  · simp [*, eq_comm]
  · simp [*]

/-- Copies items into a list of a fixed capacity. -/
def copy (capacity : Nat) (items : List α) : Checked (List α) :=
  if items.length ≤ capacity then .ok items else .error .overCapacity

theorem copy_of_le {capacity : Nat} {items : List α} (room : items.length ≤ capacity) :
    copy capacity items = .ok items :=
  if_pos room

/-- The results of a step that does not fault on any item. -/
theorem mapM_eq_ok {step : α → Checked β} {result : α → β} {items : List α}
    (each : ∀ item ∈ items, step item = .ok (result item)) :
    items.mapM step = .ok (items.map result) := by
  induction items with
  | nil => rfl
  | cons item items ih =>
      obtain ⟨head, rest⟩ := List.forall_mem_cons.1 each
      rw [List.mapM_cons, head, ok_bind, ih rest]
      rfl

/-! ## Results that may be missing

A checked computation that misses its result, or refuses to give one, does not fault. -/

def ofOption (result : Option α) : OptionT Checked α :=
  OptionT.mk (.ok result)

@[simp] theorem liftM_ok_optionT (value : α) :
    (liftM (.ok value : Checked α) : OptionT Checked α) = ofOption (some value) := rfl

@[simp] theorem ofOption_bind (result : Option α) (rest : α → Option β) :
    (ofOption result >>= fun value => ofOption (rest value)) = ofOption (result.bind rest) := by
  cases result with
  | none => rfl
  | some => rfl

@[simp] theorem ofOption_some_bind (value : α) (rest : α → OptionT Checked β) :
    (ofOption (some value) >>= rest) = rest value := rfl

def ofExcept (result : Except ε α) : ExceptT ε Checked α :=
  ExceptT.mk (.ok result)

@[simp] theorem liftM_ok_exceptT (value : α) :
    (liftM (.ok value : Checked α) : ExceptT ε Checked α) = ofExcept (.ok value) := rfl

@[simp] theorem ofExcept_bind (result : Except ε α) (rest : α → Except ε β) :
    (ofExcept result >>= fun value => ofExcept (rest value)) = ofExcept (result >>= rest) := by
  cases result with
  | error => rfl
  | ok => rfl

@[simp] theorem ofExcept_ok_bind (value : α) (rest : α → ExceptT ε Checked β) :
    (ofExcept (.ok value) >>= rest) = rest value := rfl

end Checked

end BleBeacon
