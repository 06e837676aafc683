import Mathlib.Data.List.Basic

/-!
# Two runs

Inputs are taken one by one in the presence of a secret, and each may lead to
an observation. Two runs on the same inputs with different secrets are
compared by what is observed.
-/

namespace Observations

variable {Secret Input Observation : Type*}

/-- What is observed of a run. -/
def trace (observe : Secret → Input → Option Observation) (secret : Secret) (inputs : List Input) :
    List Observation :=
  inputs.filterMap (observe secret)

/-- Whether there is something to observe does not depend on the secret. -/
def Announced (observe : Secret → Input → Option Observation) : Prop :=
  ∀ secret secret' input, (observe secret input).isSome = (observe secret' input).isSome

/-- The observation does not depend on the secret. -/
def Independent (observe : Secret → Input → Option Observation) (input : Input) : Prop :=
  ∀ secret secret', observe secret input = observe secret' input

/-- No two secrets can be told apart. -/
def Secure (observe : Secret → Input → Option Observation) (inputs : List Input) : Prop :=
  ∀ secret secret', trace observe secret inputs = trace observe secret' inputs

variable {observe : Secret → Input → Option Observation}

/-- Two runs are the same if and only if every input is observed alike. -/
theorem trace_eq_iff (h : Announced observe) (secret secret' : Secret) :
    ∀ {inputs : List Input}, trace observe secret inputs = trace observe secret' inputs ↔
      ∀ input ∈ inputs, observe secret input = observe secret' input
  | [] => by
      rw [trace, trace, List.filterMap_nil, List.filterMap_nil]
      exact ⟨fun _ _ hmem => (nomatch hmem), fun _ => rfl⟩
  | input :: inputs => by
      have hrest : trace observe secret inputs = trace observe secret' inputs ↔ _ :=
        trace_eq_iff h secret secret'
      have hsome := h secret secret' input
      rw [List.forall_mem_cons, ← hrest, trace, trace, List.filterMap_cons, List.filterMap_cons,
        ← trace, ← trace]
      cases hleft : observe secret input with
      | none =>
          cases hright : observe secret' input with
          | none => exact ⟨fun heq => ⟨rfl, heq⟩, fun heq => heq.2⟩
          | some o => rw [hleft, hright] at hsome; cases hsome
      | some o =>
          cases hright : observe secret' input with
          | none => rw [hleft, hright] at hsome; cases hsome
          | some o' =>
              dsimp only
              rw [List.cons.injEq, Option.some.injEq]

theorem secure_iff (h : Announced observe) {inputs : List Input} :
    Secure observe inputs ↔ ∀ input ∈ inputs, Independent observe input := by
  constructor
  · exact fun hsecure input hmem secret secret' =>
      (trace_eq_iff h secret secret').mp (hsecure secret secret') input hmem
  · exact fun hindependent secret secret' =>
      (trace_eq_iff h secret secret').mpr fun input hmem => hindependent input hmem secret secret'

end Observations
