/-! # ApiChronicle.InPlace

How operations that change a state **in place** end.

Such an operation is an action of `EStateM`. It hands back the state it leaves also when
it fails, with whatever it changed until then, so that a failure changes nothing only if
every check comes before the first change. Whoever shares the state goes on with what is
`left`; whoever has made it for one use gives it up with the failure and is interested in
what is `kept`.
-/

namespace EStateM.Result

variable {ε σ α : Type}

/-- The state after the operation, whether or not it failed. -/
def left : Result ε σ α → σ
  | .ok _ s => s
  | .error _ s => s

/-- The state after the operation, if it did not fail. -/
def kept : Result ε σ α → Except ε σ
  | .ok _ s => .ok s
  | .error e _ => .error e

end EStateM.Result
