import Mathlib.Logic.Function.Basic

/-!
# The gate bus

`sonda-core/src/schedule/gate_bus.rs`: the single-slot edge channels, the
receiver the gated loop polls, and the bus of one upstream value. A call on a
bus gives the bus after it and the edges it sends, as channels with their
edges in the order of the sends; `sendAll` puts them in the slots.

Values are the 64 bits of an `f64`, compared as IEEE 754 compares them.
-/

namespace Sonda.Schedule

/-! ## Values -/

/-- The 64 bits of an `f64`. -/
abbrev Value := BitVec 64

def isNan (v : Value) : Bool := 0x7ff0000000000000#64 < v &&& 0x7fffffffffffffff#64

/-- `f64::NAN`. -/
def nan : Value := 0x7ff8000000000000#64

/-- The place of a value that is not NaN in the order of the floats: the
magnitude with the sign, so that both zeros are the same. -/
def orderKey (v : Value) : Int :=
  if v.msb then -((v &&& 0x7fffffffffffffff#64).toNat : Int) else (v.toNat : Int)

/-- `a < b` of `f64`. -/
def valueLt (a b : Value) : Bool := !isNan a && !isNan b && orderKey a < orderKey b

inductive WhileOp
  | lessThan
  | greaterThan
  deriving DecidableEq

inductive AfterOpDir
  | lessThan
  | greaterThan
  deriving DecidableEq

/-- A value that is NaN fails closed. -/
def strictEval (value : Value) (op : WhileOp) (threshold : Value) : Bool :=
  if isNan value then false
  else
    match op with
    | .lessThan => valueLt value threshold
    | .greaterThan => valueLt threshold value

def afterEval (value : Value) (op : AfterOpDir) (threshold : Value) : Bool :=
  if isNan value then false
  else
    match op with
    | .lessThan => valueLt value threshold
    | .greaterThan => valueLt threshold value

/-! ## Edge channels -/

inductive GateEdge
  | afterFired
  | whileOpen
  | whileClose
  | upstreamGone
  deriving DecidableEq

/-- The slot of a channel: the latest edge not yet taken. -/
structure EdgeSlot where
  edge : Option GateEdge := none
  senderDropped : Bool := false
  deriving DecidableEq

abbrev Slots := Nat → EdgeSlot

/-- `GateEdgeSender::send`: an edge not yet taken is overwritten. -/
def Slots.send (slots : Slots) (channel : Nat) (edge : GateEdge) : Slots :=
  Function.update slots channel { slots channel with edge := some edge }

def Slots.sendAll (slots : Slots) (sends : List (Nat × GateEdge)) : Slots :=
  sends.foldl (fun slots s => slots.send s.1 s.2) slots

structure EdgeReceiver where
  channel : Nat
  drainedAfterClose : Bool := false
  deriving DecidableEq

structure Polled (ρ : Type) where
  edge : Option GateEdge
  rx : ρ
  slots : Slots

/-- Take the edge of the slot. A sender that dropped without one is reported
as `UpstreamGone`, once. -/
def EdgeReceiver.tryRecv (rx : EdgeReceiver) (slots : Slots) : Polled EdgeReceiver :=
  let slot := slots rx.channel
  let slots' := Function.update slots rx.channel { slot with edge := none }
  match slot.edge with
  | some edge => ⟨some edge, { rx with drainedAfterClose := rx.drainedAfterClose || slot.senderDropped },
      slots'⟩
  | none =>
    if rx.drainedAfterClose then ⟨none, rx, slots'⟩
    else if slot.senderDropped then ⟨some .upstreamGone, { rx with drainedAfterClose := true }, slots'⟩
    else ⟨none, rx, slots'⟩

structure GateReceiver where
  afterRx : Option EdgeReceiver
  whileRx : Option EdgeReceiver
  deriving DecidableEq

def GateReceiver.tryRecvWhile (rx : GateReceiver) (slots : Slots) : Polled GateReceiver :=
  match rx.whileRx with
  | none => ⟨none, rx, slots⟩
  | some w =>
    let p := w.tryRecv slots
    ⟨p.edge, { rx with whileRx := some p.rx }, p.slots⟩

/-- Poll the `after` channel, then the `while` channel. -/
def GateReceiver.tryRecv (rx : GateReceiver) (slots : Slots) : Polled GateReceiver :=
  match rx.afterRx with
  | none => rx.tryRecvWhile slots
  | some a =>
    let p := a.tryRecv slots
    match p.edge with
    | some edge => ⟨some edge, { rx with afterRx := some p.rx }, p.slots⟩
    | none => { rx with afterRx := some p.rx : GateReceiver }.tryRecvWhile p.slots

/-! ## The bus -/

structure AfterSpec where
  op : AfterOpDir
  threshold : Value
  deriving DecidableEq

structure WhileSpec where
  op : WhileOp
  threshold : Value
  deriving DecidableEq

structure SubscriptionSpec where
  afterSpec : Option AfterSpec := none
  whileSpec : Option WhileSpec := none
  deriving DecidableEq

/-- What a subscriber is told when it subscribes. -/
structure InitialState where
  afterAlreadyFired : Bool := false
  whileGateOpen : Option Bool := none
  currentValue : Value := nan
  deriving DecidableEq

structure Subscription where
  spec : SubscriptionSpec
  afterTx : Option Nat
  whileTx : Option Nat
  afterFired : Bool
  prevWhileOpen : Option Bool
  deriving DecidableEq

structure GateBus where
  subs : List Subscription := []
  lastValue : Value := nan
  hasValue : Bool := false
  deriving DecidableEq

namespace GateBus

def levelEdge (nowOpen : Bool) : GateEdge := if nowOpen then .whileOpen else .whileClose

/-- `GateBus::subscribe`, with the channels it creates for the kinds asked
for. -/
def subscribe (bus : GateBus) (spec : SubscriptionSpec) (afterChannel whileChannel : Nat) :
    GateBus × List (Nat × GateEdge) × GateReceiver × InitialState :=
  let currentValue := if bus.hasValue then bus.lastValue else nan
  let afterTx := spec.afterSpec.map fun _ => afterChannel
  let whileTx := spec.whileSpec.map fun _ => whileChannel
  let afterAlreadyFired :=
    (spec.afterSpec.map fun a => afterEval currentValue a.op a.threshold).getD false
  let whileGateOpen := spec.whileSpec.map fun w => strictEval currentValue w.op w.threshold
  let sub : Subscription :=
    { spec, afterTx, whileTx, afterFired := afterAlreadyFired, prevWhileOpen := whileGateOpen }
  ({ bus with subs := bus.subs ++ [sub] },
    if afterAlreadyFired then afterTx.toList.map (·, .afterFired) else [],
    ⟨afterTx.map ({ channel := · }), whileTx.map ({ channel := · })⟩,
    { afterAlreadyFired, whileGateOpen, currentValue })

/-- `GateBus::subscribe_with_while_sender`: a bus that has a value sends its
level at once. -/
def subscribeWithWhileSender (bus : GateBus) (spec : WhileSpec) (whileTx : Nat) :
    GateBus × List (Nat × GateEdge) × InitialState :=
  let whileGateOpen :=
    if bus.hasValue then some (strictEval bus.lastValue spec.op spec.threshold) else none
  let sub : Subscription :=
    { spec := { whileSpec := some spec }
      afterTx := none
      whileTx := some whileTx
      afterFired := false
      prevWhileOpen := whileGateOpen }
  ({ bus with subs := bus.subs ++ [sub] },
    whileGateOpen.toList.map fun nowOpen => (whileTx, levelEdge nowOpen),
    { whileGateOpen, currentValue := if bus.hasValue then bus.lastValue else nan })

variable (curr : Value) (sub : Subscription)

/-- What a new value does to a subscription's `after:` side. -/
def tickAfter : Subscription × List (Nat × GateEdge) :=
  match sub.spec.afterSpec with
  | none => (sub, [])
  | some spec =>
    if !sub.afterFired && afterEval curr spec.op spec.threshold then
      ({ sub with afterFired := true }, sub.afterTx.toList.map (·, .afterFired))
    else (sub, [])

/-- What a new value does to a subscription's `while:` side. -/
def tickWhile : Subscription × List (Nat × GateEdge) :=
  match sub.spec.whileSpec with
  | none => (sub, [])
  | some spec =>
    let nowOpen := strictEval curr spec.op spec.threshold
    if sub.prevWhileOpen ≠ some nowOpen then
      ({ sub with prevWhileOpen := some nowOpen }, sub.whileTx.toList.map (·, levelEdge nowOpen))
    else (sub, [])

def tickSub : Subscription × List (Nat × GateEdge) :=
  let a := tickAfter curr sub
  let w := tickWhile curr a.1
  (w.1, a.2 ++ w.2)

/-- `GateBus::tick`. A value with the bits of the last one is recorded, and
nothing else. -/
def tick (bus : GateBus) (curr : Value) : GateBus × List (Nat × GateEdge) :=
  let bus' := { bus with lastValue := curr, hasValue := true }
  if bus.hasValue && bus.lastValue == curr then (bus', [])
  else
    ({ bus' with subs := bus.subs.map fun sub => (tickSub curr sub).1 },
      bus.subs.flatMap fun sub => (tickSub curr sub).2)

def broadcastUpstreamGone (bus : GateBus) : List (Nat × GateEdge) :=
  bus.subs.flatMap fun sub =>
    sub.whileTx.toList.map (·, .upstreamGone) ++ sub.afterTx.toList.map (·, .upstreamGone)

end GateBus

end Sonda.Schedule
