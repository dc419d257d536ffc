/-!
# Verdicts on alerts

What a timeline of polls says about an alert and a deadline. Times are durations in
nanoseconds from the caller's anchor.
-/

namespace Sonda.Verify

inductive AlertState
  | inactive
  | pending
  | firing
  deriving DecidableEq

/-- A poll of an alert's state. -/
structure Observation where
  time : Nat
  state : Except String AlertState

inductive Outcome
  | pass (time : Nat)
  | late (time deadline : Nat)
  | missed (deadline : Nat) (lastError : Option String)
  | undecided (observedAt : Option Nat) (lastError : Option String)
  deriving DecidableEq

variable (deadline : Nat) (isSuccess : AlertState → Bool)

/-- The loop of `evaluate`, with what it has gathered. -/
def walk (lastError : Option String) (covered evidence : Bool) : List Observation → Outcome
  | [] => if covered then .missed deadline lastError else .undecided none lastError
  | o :: rest =>
    let covered' := covered || decide (deadline ≤ o.time)
    match o.state with
    | .ok state =>
      if isSuccess state then
        if o.time ≤ deadline then .pass o.time
        else if evidence then .late o.time deadline
        else .undecided (some o.time) lastError
      else walk lastError covered' (evidence || decide (o.time ≤ deadline)) rest
    | .error e => walk (if o.time ≤ deadline then some e else lastError) covered' evidence rest

variable (observations : List Observation)

def evaluate : Outcome :=
  walk deadline isSuccess none false false observations

def evaluateFiring : Outcome :=
  evaluate deadline (fun state => decide (state = .firing)) observations

def evaluateResolution : Outcome :=
  evaluate deadline (fun state => decide (state ≠ .firing)) observations

end Sonda.Verify
