import Sonda.Impl.Schedule.GatedLoop

/-!
# A gated loop and its upstreams

The buses, the edge slots and one gated loop with its receiver, as one
machine. Calls on the buses (`GateBus::tick`, `subscribe_with_while_sender`,
`broadcast_upstream_gone`) and steps of the loop interleave; a call on a bus
and a poll of the receiver are each taken as one action. Any bus may send to
the loop's `while` channel, since a re-resolution subscribes the same sender
to another bus.

A poll that waits answers what the receiver holds, or nothing where its
timeout came first. The drain of a segment ends only on an empty receiver.
-/

namespace Sonda.Schedule

def afterChannel : Nat := 0

def whileChannel : Nat := 1

/-- How the receiver of the loop came about. -/
inductive Wiring
  /-- `GateBus::subscribe`: the upstream is in the same file. -/
  | subscribe (afterSpec : Option AfterSpec) (whileSpec : WhileSpec)
  /-- `GateBus::subscribe_with_while_sender`: the upstream was found in the
  registry. -/
  | sender (whileSpec : WhileSpec)
  /-- The upstream was not found. -/
  | deferred

/-- What the wiring leaves behind. -/
structure Connection where
  bus : GateBus
  sends : List (Nat × GateEdge)
  rx : GateReceiver
  initial : InitialState
  startUnresolved : Bool

def Wiring.connect (bus : GateBus) : Wiring → Connection
  | .subscribe afterSpec whileSpec =>
    let r := bus.subscribe { afterSpec, whileSpec := some whileSpec } afterChannel whileChannel
    ⟨r.1, r.2.1, r.2.2.1, r.2.2.2, false⟩
  | .sender whileSpec =>
    let r := bus.subscribeWithWhileSender whileSpec whileChannel
    ⟨r.1, r.2.1, ⟨none, some { channel := whileChannel }⟩, r.2.2, false⟩
  | .deferred => ⟨bus, [], ⟨none, some { channel := whileChannel }⟩, {}, true⟩

/-- A bus with nobody subscribed, and the last value published to it. -/
def busAt (value : Option Value) : GateBus :=
  match value with
  | none => {}
  | some v => (({} : GateBus).tick v).1

variable (cfg : GatedConfig) (c : Connection)

/-- The configuration of the loop once its receiver is wired. -/
def GatedConfig.wired : GatedConfig :=
  { cfg with ctx := { cfg.ctx with initial := c.initial, startUnresolved := c.startUnresolved } }

structure World where
  buses : Nat → GateBus
  slots : Slots
  rx : GateReceiver
  loop : GatedState

def World.start (now : Nat) : World where
  buses := Function.update (fun _ => {}) 0 c.bus
  slots := Slots.sendAll (fun _ => {}) c.sends
  rx := c.rx
  loop := .enter (cfg.wired c).ctx now

inductive Act
  | tick (bus : Nat) (value : Value)
  | subscribeWhile (bus : Nat) (spec : WhileSpec) (channel : Nat)
  | broadcastUpstreamGone (bus : Nat)
  | loop (inp : GatedInput)

inductive WorldEvent
  | sent (channel : Nat) (edge : GateEdge)
  | loop (e : GatedEvent)
  deriving DecidableEq

/-- The loop is in the drain of a segment. -/
def GatedState.draining (s : GatedState) : Bool :=
  match s.pc with
  | .segment seg => decide (seg.pc ≠ .head)
  | _ => false

def GatedEvent.isTook : GatedEvent → Bool
  | .took .. => true
  | _ => false

/-- A call on bus `b`. -/
def World.publish (w : World) (b : Nat) (bus : GateBus) (sends : List (Nat × GateEdge)) :
    World × List WorldEvent :=
  ({ w with buses := Function.update w.buses b bus, slots := w.slots.sendAll sends },
    sends.map fun s => .sent s.1 s.2)

/-- The loop after a step: what it took is gone from its slot. -/
def World.advance (w : World) (p : Polled GateReceiver) (r : StepResult) : World × List WorldEvent :=
  (if r.2.any (·.isTook) then { w with loop := r.1, rx := p.rx, slots := p.slots }
    else { w with loop := r.1 },
    r.2.map .loop)

def worldStep (cfg : GatedConfig) (w : World) : Act → Option (World × List WorldEvent)
  | .tick b value =>
    let r := (w.buses b).tick value
    some (w.publish b r.1 r.2)
  | .subscribeWhile b spec channel =>
    -- senders of `after:` edges are never subscribed again
    if channel = afterChannel then none
    else
      let r := (w.buses b).subscribeWithWhileSender spec channel
      some (w.publish b r.1 r.2.1)
  | .broadcastUpstreamGone b => some (w.publish b (w.buses b) (w.buses b).broadcastUpstreamGone)
  | .loop inp =>
    let p := w.rx.tryRecv w.slots
    if inp.edge = p.edge ∨ inp.edge = none ∧ w.loop.draining = false then
      (gatedStep cfg w.loop inp).map (w.advance p)
    else none

/-- The machine of a loop that is wired by `c`. -/
def gating : Framework.Machine World Act WorldEvent where
  step := worldStep (cfg.wired c)

end Sonda.Schedule
