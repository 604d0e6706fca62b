import Mathlib.Logic.Basic

/-!
# Outcomes of code that may stop

A routine either returns a value or never returns to its caller: it stops the
machine with a message, performs an access the machine does not support, or
loops for ever.
-/

namespace GeexOS.Halting

/-- The ways in which control does not come back.  A message has the words of the source:
the format of `arch_panic`, and what `PANIC` and `ASSERT` are given.  A value that is printed
and that the routine at hand does not know stands there under its name. -/
inductive Halt where
  | panic (message : String)
  | assertion (message : String)
  | fault
  | diverges
  deriving DecidableEq, Repr

/-- The result of a routine: a value, or the way it stopped. -/
abbrev Outcome (α : Type) := Except Halt α

variable {α β : Type}

theorem bind_eq_ok {outcome : Outcome α} {next : α → Outcome β} {result : β} :
    (outcome >>= next) = .ok result ↔
      ∃ value, outcome = .ok value ∧ next value = .ok result := by
  cases outcome with
  | error halt => simp [bind, Except.bind]
  | ok value => simp [bind, Except.bind]

@[simp]
theorem ok_bind (value : α) (next : α → Outcome β) :
    ((.ok value : Outcome α) >>= next) = next value := rfl

@[simp]
theorem error_bind (halt : Halt) (next : α → Outcome β) :
    ((.error halt : Outcome α) >>= next) = .error halt := rfl

/-- The routine returns a result with the property, or it stops with a fault. -/
def ReturnsOrFaults (outcome : Outcome α) (property : α → Prop) : Prop :=
  (∃ value, outcome = .ok value ∧ property value) ∨ outcome = .error .fault

namespace ReturnsOrFaults

variable {outcome : Outcome α} {property property' : α → Prop}

theorem ok {value : α} (hvalue : property value) : ReturnsOrFaults (.ok value) property :=
  Or.inl ⟨value, rfl, hvalue⟩

theorem mono (houtcome : ReturnsOrFaults outcome property)
    (hproperty : ∀ value, property value → property' value) :
    ReturnsOrFaults outcome property' := by
  rcases houtcome with ⟨value, hreturns, hvalue⟩ | hfault
  · exact Or.inl ⟨value, hreturns, hproperty value hvalue⟩
  · exact Or.inr hfault

/-- The rule for a sequence of two routines. -/
theorem bind {next : α → Outcome β} {result : β → Prop}
    (houtcome : ReturnsOrFaults outcome property)
    (hnext : ∀ value, property value → ReturnsOrFaults (next value) result) :
    ReturnsOrFaults (outcome >>= next) result := by
  rcases houtcome with ⟨value, rfl, hvalue⟩ | rfl
  · exact hnext value hvalue
  · exact Or.inr rfl

end ReturnsOrFaults

end GeexOS.Halting
