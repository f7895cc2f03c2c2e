import Imperative.Record

/-!
# The call stack

The records of all invocations that are going on, the innermost one first.  The stack is
bounded: it refuses a record when it already holds as many as its limit allows, so a
program that calls itself without end is stopped by the stack and not by the machine that
runs it.  The number of records is kept beside them, since every call asks for it.
-/

namespace Imperative

/-- A bounded stack of records, innermost first. -/
structure CallStack where
  records : List Record
  limit : Nat
  depth : Nat := records.length
  depth_eq : depth = records.length := by rfl

namespace CallStack

/-- The empty stack that takes up to `limit` records. -/
def empty (limit : Nat) : CallStack :=
  { records := [], limit }

instance : Inhabited CallStack := ⟨empty 0⟩

/-- Whether no invocation is going on. -/
def isEmpty (s : CallStack) : Bool :=
  s.records.isEmpty

/-- The innermost record. -/
def top? (s : CallStack) : Option Record :=
  s.records.head?

/-- Puts a record on top, unless the stack is full. -/
def push? (s : CallStack) (r : Record) : Option CallStack :=
  if s.limit ≤ s.depth then none
  else some { s with
    records := r :: s.records
    depth := s.depth + 1
    depth_eq := by rw [s.depth_eq, List.length_cons] }

/-- Takes the innermost record off. -/
def pop? (s : CallStack) : Option (Record × CallStack) :=
  match h : s.records with
  | [] => none
  | r :: rest => some (r, { s with
      records := rest
      depth := s.depth - 1
      depth_eq := by rw [s.depth_eq, h, List.length_cons, Nat.add_sub_cancel] })

/-- Changes the innermost record, if there is one. -/
def modifyTop? (s : CallStack) (f : Record → Record) : Option CallStack :=
  match h : s.records with
  | [] => none
  | r :: rest => some { s with
      records := f r :: rest
      depth_eq := by rw [s.depth_eq, h, List.length_cons, List.length_cons] }

/-- The stack without its records. -/
def cleared (s : CallStack) : CallStack :=
  empty s.limit

/-- The printed form of the stack, innermost record first. -/
def display (s : CallStack) : String :=
  "CALL STACK\n" ++ String.join (s.records.map Record.display)

/-- The stack refuses a record exactly when it holds as many as its limit allows. -/
theorem push?_eq_none_iff (s : CallStack) (r : Record) :
    s.push? r = none ↔ s.limit ≤ s.records.length := by
  rw [← s.depth_eq]
  unfold push?
  split <;> simp_all

/-- Stacks of the same height with the same limit refuse the same records. -/
theorem push?_eq_none_congr {s t : CallStack} (hlength : t.records.length = s.records.length)
    (hlimit : t.limit = s.limit) (r : Record) : t.push? r = none ↔ s.push? r = none := by
  rw [push?_eq_none_iff, push?_eq_none_iff, hlength, hlimit]

/-- A record that was taken lies on top of the others. -/
theorem records_of_push? {s t : CallStack} {r : Record} (h : s.push? r = some t) :
    t.records = r :: s.records ∧ t.limit = s.limit := by
  unfold push? at h
  split at h
  · cases h
  · cases h; exact ⟨rfl, rfl⟩

/-- Two stacks with the same records and the same limit are the same stack. -/
@[ext] theorem ext {s t : CallStack} (hr : s.records = t.records) (hl : s.limit = t.limit) : s = t := by
  obtain ⟨r, l, d, hd⟩ := s
  obtain ⟨r', l', d', hd'⟩ := t
  simp only at hr hl
  subst hr; subst hl; subst hd; subst hd'
  rfl

/-- Taking off what was just put on gives the stack back. -/
theorem pop?_of_push? {s t : CallStack} {r : Record} (h : s.push? r = some t) :
    t.pop? = some (r, s) := by
  obtain ⟨hr, hl⟩ := records_of_push? h
  unfold pop?
  split
  · next hnil => rw [hr] at hnil; cases hnil
  · next hcons =>
    rw [hr] at hcons
    cases hcons
    exact congrArg (fun u => some (r, u)) (CallStack.ext rfl hl)

/-! ## Stacks that hold a record -/

section Cons

variable {s : CallStack} {r : Record} {rest : List Record}

theorem top?_of_cons (h : s.records = r :: rest) : s.top? = some r := by
  rw [top?, h, List.head?_cons]

theorem modifyTop?_of_cons (h : s.records = r :: rest) (f : Record → Record) :
    ∃ t, s.modifyTop? f = some t ∧ t.records = f r :: rest := by
  unfold modifyTop?
  split
  · next hnil => rw [h] at hnil; cases hnil
  · next hcons =>
    rw [h] at hcons
    cases hcons
    exact ⟨_, rfl, rfl⟩

theorem pop?_of_cons (h : s.records = r :: rest) :
    ∃ t, s.pop? = some (r, t) ∧ t.records = rest := by
  unfold pop?
  split
  · next hnil => rw [h] at hnil; cases hnil
  · next hcons =>
    rw [h] at hcons
    cases hcons
    exact ⟨_, rfl, rfl⟩

end Cons

/-- Changing a record leaves the limit as it is. -/
theorem limit_of_modifyTop? {s t : CallStack} {f : Record → Record}
    (h : s.modifyTop? f = some t) : t.limit = s.limit := by
  unfold modifyTop? at h
  split at h <;> cases h
  rfl

/-- Taking a record off leaves the limit as it is. -/
theorem limit_of_pop? {s t : CallStack} {r : Record} (h : s.pop? = some (r, t)) :
    t.limit = s.limit := by
  unfold pop? at h
  split at h <;> cases h
  rfl

/-- A stack whose innermost record was changed still has the others. -/
theorem records_of_modifyTop? {s t : CallStack} {f : Record → Record}
    (h : s.modifyTop? f = some t) :
    ∃ r rest, s.records = r :: rest ∧ t.records = f r :: rest := by
  unfold modifyTop? at h
  split at h
  · cases h
  · next hcons =>
    cases h
    exact ⟨_, _, hcons, rfl⟩

/-- The record that was taken off lay on top of those that are left. -/
theorem records_of_pop? {s t : CallStack} {r : Record} (h : s.pop? = some (r, t)) :
    s.records = r :: t.records := by
  unfold pop? at h
  split at h
  · cases h
  · next hcons =>
    cases h
    exact hcons

/-- Changing a record leaves the number of records as it is. -/
theorem length_of_modifyTop? {s t : CallStack} {f : Record → Record}
    (h : s.modifyTop? f = some t) : t.records.length = s.records.length := by
  obtain ⟨r, rest, hs, ht⟩ := records_of_modifyTop? h
  rw [hs, ht, List.length_cons, List.length_cons]

/-- Taking a record off leaves one record less. -/
theorem length_of_pop? {s t : CallStack} {r : Record} (h : s.pop? = some (r, t)) :
    t.records.length + 1 = s.records.length := by
  rw [records_of_pop? h, List.length_cons]

end CallStack

end Imperative
