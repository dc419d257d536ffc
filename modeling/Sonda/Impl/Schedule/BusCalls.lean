import Sonda.Framework.Machine
import Sonda.Impl.Schedule.GateBus

/-!
# The callers of one bus

Everything that can be done with one `GateBus` short of
`broadcast_upstream_gone`: channels are made, receivers subscribe, values are
published, receivers are polled, in any order. Receiver `i` polls the channels
`afterChannelOf i` and `whileChannelOf i`.

The machine is over the `tick` it publishes with, so that two of them can be
compared.
-/

namespace Sonda.Schedule

def afterChannelOf (i : Nat) : Nat := 2 * i

def whileChannelOf (i : Nat) : Nat := 2 * i + 1

inductive BusCall
  /-- `gate_edge_channel`, its receiver in a `GateReceiver::from_while_rx`. -/
  | gateEdgeChannel
  | subscribe (spec : SubscriptionSpec)
  /-- `subscribe_with_while_sender`, with a clone of the sender of receiver `i`. -/
  | subscribeWithWhileSender (spec : WhileSpec) (i : Nat)
  | tick (value : Value)
  /-- `GateReceiver::try_recv` of receiver `i`. -/
  | tryRecv (i : Nat)

inductive BusEvent
  /-- Receiver `i` is subscribed and told `initial`. -/
  | subscribed (i : Nat) (spec : Option WhileSpec) (initial : InitialState)
  | published (value : Value)
  /-- An edge is sent, on top of one not yet taken if `overwrote`. -/
  | sent (channel : Nat) (edge : GateEdge) (overwrote : Bool)
  | took (i : Nat) (edge : GateEdge)
  deriving DecidableEq

structure BusWorld where
  bus : GateBus := {}
  slots : Slots := fun _ => {}
  receivers : List GateReceiver := []
  /-- The receivers whose sender a caller holds. -/
  senders : List Nat := []

/-- What the sends of a call look like from outside. -/
def sentEvents : Slots → List (Nat × GateEdge) → List BusEvent
  | _, [] => []
  | slots, (c, e) :: sends =>
    .sent c e (slots c).edge.isSome :: sentEvents (slots.send c e) sends

/-- A channel as it is made. -/
def Slots.fresh (slots : Slots) (channel : Nat) : Slots := Function.update slots channel {}

variable (tick : GateBus → Value → GateBus × List (Nat × GateEdge))

def busCallStep (w : BusWorld) : BusCall → Option (BusWorld × List BusEvent)
  | .gateEdgeChannel =>
    let i := w.receivers.length
    some ({ w with slots := w.slots.fresh (whileChannelOf i)
                   receivers := w.receivers ++ [⟨none, some { channel := whileChannelOf i }⟩]
                   senders := w.senders ++ [i] }, [])
  | .subscribe spec =>
    let i := w.receivers.length
    let slots := (w.slots.fresh (afterChannelOf i)).fresh (whileChannelOf i)
    let r := w.bus.subscribe spec (afterChannelOf i) (whileChannelOf i)
    some ({ w with bus := r.1, slots := slots.sendAll r.2.1, receivers := w.receivers ++ [r.2.2.1] },
      .subscribed i spec.whileSpec r.2.2.2 :: sentEvents slots r.2.1)
  | .subscribeWithWhileSender spec i =>
    if i ∈ w.senders then
      let r := w.bus.subscribeWithWhileSender spec (whileChannelOf i)
      some ({ w with bus := r.1, slots := w.slots.sendAll r.2.1 },
        .subscribed i (some spec) r.2.2 :: sentEvents w.slots r.2.1)
    else none
  | .tick value =>
    let r := tick w.bus value
    some ({ w with bus := r.1, slots := w.slots.sendAll r.2 },
      .published value :: sentEvents w.slots r.2)
  | .tryRecv i =>
    w.receivers[i]?.map fun rx =>
      let p := rx.tryRecv w.slots
      ({ w with slots := p.slots, receivers := w.receivers.set i p.rx },
        p.edge.toList.map (.took i))

def busCalls : Framework.Machine BusWorld BusCall BusEvent where
  step := busCallStep tick

/-- `GateBus::tick` without its fast path. -/
def GateBus.tickEvery (bus : GateBus) (curr : Value) : GateBus × List (Nat × GateEdge) :=
  ({ subs := bus.subs.map fun sub => (tickSub curr sub).1, lastValue := curr, hasValue := true },
    bus.subs.flatMap fun sub => (tickSub curr sub).2)

end Sonda.Schedule
