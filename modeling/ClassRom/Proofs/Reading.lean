import ClassRom.Bytes
import ClassRom.Proofs.Traversal

/-!
# What readers yield

A postcondition of a reader holds of every value it can return, whatever the input was. Such
conditions are composed along the steps of a reader.
-/

namespace ClassRom.Reader

set_option autoImplicit false

variable {α β : Type} {P : α → Prop} {Q : β → Prop}

/-- Every value that the reader returns has the property. -/
def Yields (reader : Reader α) (P : α → Prop) : Prop :=
  ∀ input value rest, reader input = .ok (value, rest) → P value

theorem bind_eq_ok {reader : Reader α} {next : α → Reader β} {input rest : Bytes} {value : β} :
    (reader >>= next) input = .ok (value, rest) ↔
      ∃ a middle, reader input = .ok (a, middle) ∧ next a middle = .ok (value, rest) := by
  simp only [bind, StateT.bind]
  cases h : reader input with
  | error fault => simp [Except.bind]
  | ok pair => cases pair; simp [Except.bind]

theorem bind_of_ok {reader : Reader α} {next : α → Reader β} {input middle : Bytes} {value : α}
    (h : reader input = .ok (value, middle)) : (reader >>= next) input = next value middle := by
  simp only [bind, StateT.bind, h, Except.bind]

theorem bind_of_error {reader : Reader α} {next : α → Reader β} {input : Bytes}
    {fault : FormatFault} (h : reader input = .error fault) :
    (reader >>= next) input = .error fault := by
  simp only [bind, StateT.bind, h, Except.bind]

theorem pure_eq_ok {value value' : α} {input rest : Bytes} :
    (pure value : Reader α) input = .ok (value', rest) ↔ value = value' ∧ input = rest := by
  change Except.ok (value, input) = .ok (value', rest) ↔ _
  rw [Except.ok.injEq, Prod.mk.injEq]

theorem lift_eq_ok {result : Except FormatFault α} {input rest : Bytes} {value : α} :
    (liftM result : Reader α) input = .ok (value, rest) ↔ result = .ok value ∧ input = rest := by
  cases result with
  | error fault =>
    constructor
    · intro h
      cases h
    · rintro ⟨h, _⟩
      cases h
  | ok value' =>
    rw [Except.ok.injEq]
    exact pure_eq_ok

theorem yields_any (reader : Reader α) : reader.Yields fun _ => True :=
  fun _ _ _ _ => trivial

theorem Yields.imp {reader : Reader α} {P' : α → Prop} (h : reader.Yields P)
    (hImp : ∀ value, P value → P' value) : reader.Yields P' :=
  fun input value rest hRead => hImp value (h input value rest hRead)

theorem yields_pure {value : α} (h : P value) : Yields (pure value) P := by
  intro input value' rest hRead
  cases hRead
  exact h

theorem yields_throw (fault : FormatFault) : Yields (throw fault : Reader α) P := by
  intro input value rest hRead
  cases hRead

theorem yields_lift {result : Except FormatFault α} (h : ∀ value, result = .ok value → P value) :
    Yields (liftM result) P := by
  intro input value rest hRead
  cases result with
  | error fault => cases hRead
  | ok value' =>
    cases hRead
    exact h value rfl

theorem Yields.bind {reader : Reader α} {next : α → Reader β} (h : reader.Yields P)
    (hNext : ∀ value, P value → (next value).Yields Q) : Yields (reader >>= next) Q := by
  intro input value rest hRead
  obtain ⟨a, middle, hFirst, hSecond⟩ := bind_eq_ok.mp hRead
  exact hNext a (h input a middle hFirst) middle value rest hSecond

/-- A step whose value does not matter. -/
theorem yields_after (reader : Reader α) {next : α → Reader β}
    (hNext : ∀ value, (next value).Yields Q) : Yields (reader >>= next) Q :=
  (yields_any reader).bind fun value _ => hNext value

theorem yields_ite {condition : Prop} [Decidable condition] {first second : Reader α}
    (hFirst : condition → first.Yields P) (hSecond : ¬condition → second.Yields P) :
    Yields (if condition then first else second) P := by
  by_cases h : condition
  · rw [if_pos h]; exact hFirst h
  · rw [if_neg h]; exact hSecond h

end ClassRom.Reader
